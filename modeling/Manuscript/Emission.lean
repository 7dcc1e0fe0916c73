import Manuscript.Note
import Manuscript.Options
import Manuscript.Script
import Manuscript.Tree
/-!
# What rendering a tree does

Rendering a tree is a script of events: pieces of text to write, notes to leave, and a halt where a value
stands that cannot be rendered. How far the events are carried out is for their destination to decide; the
script itself depends on the tree and the options alone.
-/
namespace Manuscript

/-- A plain run of a value that is no text writes the value itself. Not every destination takes it. -/
inductive Event
  | write (piece : String)
  | writeValue (value : Datum)
  | note (note : Note)
  deriving DecidableEq, Repr

abbrev Emission := Script Event

namespace Emission

/-- Writes a piece. -/
def write (piece : String) : Step Event := .act (.write piece)

/-- Writes a piece that ends its line. -/
def line (text : String) : Step Event := write (text ++ "\n")

def equationLine (text : String) (label : Option String) (notNumbered : Bool) : Step Event :=
  let parts := text :: (label.map (command "label")).toList ++ (if notNumbered then [Marker.noNumber] else [])
  line (" ".intercalate parts ++ Marker.rowTerminator)

def rowLine (cells : List String) (skipTerminator : Bool) : Step Event :=
  line (Marker.columnSeparator.intercalate cells ++
    if skipTerminator then "" else Marker.rowTerminator)

def titleLines (title author : Option String) : Emission :=
  (title.map fun t => line (command "title" t)).toList ++
    (author.map fun a => line (command "author" a)).toList

/-- A blank line, if there is something to set apart. -/
def blankIf (wanted : Bool) : Emission := if wanted then [line ""] else []

/-- A plain run of any value. -/
def plainValue (o : Options) (value : Datum) : Step Event :=
  if o.escapePlainText then
    match value.escaped with
    | .ok (.atom (.text text)) => write text
    | .ok other => .act (.writeValue other)
    | .error f => .halt f
  else .act (.writeValue value)

/-- A line of an environment. -/
def pieceLine : Piece → Step Event
  | .text text => line text
  | .other typeName => .halt (.notText typeName .line)

/-- The cells of a row, joined in one line. -/
def joinedCells (cells : List Piece) (skipTerminator : Bool) : Step Event :=
  match Piece.texts 0 cells with
  | .ok texts => rowLine texts skipTerminator
  | .error f => .halt f

/-- A loose row. All cells are taken before they are joined. -/
def looseRow (row : LooseRow) : Emission :=
  let joined (cells : List Piece) : Emission := [joinedCells cells row.skipTerminator]
  match row.supply with
  | .listed | .unsized _ none => joined row.cells
  | .unsized _ (some source) =>
    [.once source (row.cells.map (fun _ => .take source) ++ joined row.cells) (joined [])]
  | .missing _ _ _ => [.halt .notJoinable]

def misfit (o : Options) : Misfit → Emission
  | .plain value => [plainValue o value]
  | .environment name supply lines =>
    line (command "begin" name) ::
      supply.each (lines.map fun piece => [pieceLine piece]) [] ++ [line (command "end" name)]
  | .row row => looseRow row

/-- A table of a given specification and with given rows. -/
def tabular (rows : Nat) (spec : Datum) (body : Emission) : Emission :=
  .act (.note (.table rows spec.literal)) ::
    line (command "begin" Marker.tabularEnvironment ++ braced spec.printed) :: body ++
    [line (command "end" Marker.tabularEnvironment)]

end Emission

namespace Tree

/-- The column specification of a table. -/
def columnSpec (rows : List Tree) (settings : ColumnSettings Column) (standard : Column) :
    Except Fault Datum := do
  Columns.spec settings standard (← (numberColumns rows).2)

/-- A table whose specification follows from its rows. Rows that cannot be counted are gone through for it
nevertheless, before their number is asked for. -/
def emitCounted (supply : Supply) (rows : List Tree) (settings : ColumnSettings Column)
    (standard : Column) (body : Emission) : Emission :=
  let spec := columnSpec rows settings standard
  match supply.length rows.length, spec with
  | .ok n, .ok text => Emission.tabular n text body
  | .ok _, .error f => [.halt f]
  | .error f, spec =>
    let looked := List.replicate (numberColumns rows).1 []
    supply.each looked (match spec with
      | .ok _ => []
      | .error g => [.halt g]) ++ [.halt f]

/-- A table between its markers, once its specification is settled. -/
def emitTable (supply : Supply) (rows : List Tree) (settings : ColumnSettings Column)
    (standard : Column) (body : Emission) : Emission :=
  match settings with
  | .unsuited f => [.halt f]
  | .raw spec =>
    match supply.length rows.length with
    | .ok n => Emission.tabular n spec body
    | .error f => [.halt f]
  | settings => emitCounted supply rows settings standard body

open Emission

mutual
/-- What rendering a tree does. -/
def emit (o : Options) : Tree → Emission
  | plain text => [write (if o.escapePlainText then Text.escape text else text)]
  | inlineMath text => [write ("$" ++ text ++ "$")]
  | bold content => write "\\textbf\x7b" :: emit o content ++ [write "\x7d"]
  | italic content => write "\\textit\x7b" :: emit o content ++ [write "\x7d"]
  | paragraph supply content => supply.each (emitAll o content) [] ++ [line ""]
  | sectioning name supply elements =>
    line (command o.sectionCommand.printed name.printed) :: blankIf (supply.counts elements.length) ++
      supply.each ((emitAll o elements).map (· ++ [line ""])) []
  | tableOfContents => [line Marker.tableOfContents]
  | titlePage => [line Marker.titlePage]
  | clearPage => [line Marker.clearPage]
  | environment name lines =>
    line (command "begin" name) :: lines.map line ++ [line (command "end" name)]
  | userDefined text => [line text]
  | input path => [line (command "input" path)]
  | usePackage package argument =>
    [line ("\\usepackage" ++ optional argument ++ braced package)]
  | newCommand name definition arguments =>
    [line (command "newcommand" (commandName name) ++ optional arguments ++ braced definition)]
  | preambleLine text => [line text]
  | preamble title author supply elements =>
    supply.each (emitAll o elements) [] ++
      blankIf (supply.counts elements.length && (title.isSome || author.isSome)) ++
      titleLines title author
  | document documentClass front supply elements =>
    match supply.length elements.length with
    | .error f => [.halt f]
    | .ok n =>
      .act (.note (.document documentClass.name n)) ::
        if documentClass.isPart then supply.each (emitAll o elements) []
        else
          line (command "documentclass" documentClass.name) :: emit o front ++
            line (command "begin" Marker.documentEnvironment) :: supply.each (emitAll o elements) [] ++
            [line (command "end" Marker.documentEnvironment)]
  | equation text label notNumbered => [equationLine text label notNumbered]
  | align supply equations =>
    line (command "begin" Marker.alignEnvironment) :: supply.each (emitAll o equations) [] ++
      [line (command "end" Marker.alignEnvironment)]
  | item text => [line ("\\item " ++ text)]
  | list kind supply items argument =>
    line (command "begin" kind.environmentName ++ optional argument) ::
      supply.each (emitAll o items) [] ++ [line (command "end" kind.environmentName)]
  | tableRow row => [rowLine row.cells row.skipTerminator]
  | table supply rows settings standard =>
    emitTable supply rows settings standard (supply.each (emitAll o rows) [])
  | foreign value => [.halt value.notWalked]
  | misfit node => Emission.misfit o node
  | blocked fault _ => [.halt fault]

/-- What rendering each tree of a list does. -/
def emitAll (o : Options) : List Tree → List Emission
  | [] => []
  | t :: ts => emit o t :: emitAll o ts
end

theorem emitAll_eq_map (o : Options) (ts : List Tree) : emitAll o ts = ts.map (emit o) := by
  induction ts with
  | nil => rfl
  | cons t ts ih => simp [emitAll, ih]

end Tree

end Manuscript
