import Manuscript.Options
import Manuscript.Store
import Manuscript.Tree
/-!
# Reading trees from a store

The tree that a value stands for. An object becomes a node if it is of a kind that can be walked; every
other value is foreign. A field that a template only inserts is read as its text, and the children of a node
come from the supply of the field that holds them. An object with a field of another type becomes a misfit,
or a blocked node with the fault that rendering it meets.
-/
namespace Manuscript.Store

def printed (s : Store) (v : Value) : String := (s.datum v).printed

/-- The text of an optional field. -/
def optionalText (s : Store) (v : Value) : Option String :=
  if v = .none then none else some (s.printed v)

def asText? : Value → Option String
  | .atom a => a.asText?
  | .ref _ => none

def isText (v : Value) : Bool := (asText? v).isSome

def isTrue (s : Store) (v : Value) : Bool := (s.datum v).isTrue

/-- The class of a document. Only a text is the name of one. -/
def documentClassOf (s : Store) (v : Value) : DocumentClass :=
  match v with
  | .atom (.member (.documentClass c)) => .standard c
  | .atom (.text name) => .named name
  | v => .unnamed (s.printed v)

def pieceOf (s : Store) (v : Value) : Piece :=
  match asText? v with
  | some text => .text text
  | none => .other (s.typeName v)

/-- The texts of some pieces that are all texts. -/
def allTexts? (pieces : List Piece) : Option (List String) := (Piece.texts 0 pieces).toOption

/-- The settings of one column. -/
def column (s : Store) (v : Value) : Column :=
  match s.attribute? v "alignment" with
  | some (.atom (.member (.alignment a))) => .aligned a
  | some other =>
    match s.attribute? other "code" with
    | some code => .coded (s.pieceOf code)
    | none => .unusable (s.lacking other "code")
  | none => .unusable (s.lacking v "alignment")

/-- Column settings from the value that holds one for each column. An enumeration has its members by their
names. -/
def columnsOf (s : Store) (v : Value) : ColumnSettings Value :=
  match s.target? v, v with
  | some (.dict entries), _ => .keyed (entries.map fun e => (s.datum e.1, e.2))
  | _, .atom (.classRef name) =>
    match Class.enumeration? name with
    | some e => .keyed (e.members.map fun m => (.text m.name, .atom (.member m)))
    | none => .unsized (s.typeName v)
  | _, v =>
    match s.supply v with
    | (.listed, items) => .typed items
    | _ => .unsized (s.typeName v)

/-- The stored form of column settings. -/
def settingsOf (s : Store) (v : Value) : ColumnSettings Value :=
  match s.kind? v, s.attribute? v "columns" with
  | some .rawSettings, _ => .raw (s.datum ((s.field? v "spec").getD .none))
  | _, some columns => s.columnsOf columns
  | _, none => .unsuited (s.lacking v "columns")

/-- What a value records as its columns when it stands in the place of a row. -/
def recordedColumns (s : Store) (v : Value) : Except Fault Datum :=
  match s.attribute? v "columns" with
  | some columns => .ok (s.datum columns)
  | none => .error (s.lacking v "columns")

/-- A row from the values of its fields. It is a loose one unless its cells are a list of texts and its
columns a whole number or nothing. -/
def rowOf (s : Store) (cells columns skip : Value) : Tree :=
  let (supply, items) := s.supply cells
  let pieces := items.map s.pieceOf
  let loose : Tree := .misfit (.row ⟨supply, pieces, s.datum columns, s.isTrue skip⟩)
  match supply, allTexts? pieces, columns with
  | .listed, some texts, .atom .none => .tableRow ⟨texts, none, s.isTrue skip⟩
  | .listed, some texts, .atom (.int n) => .tableRow ⟨texts, some n, s.isTrue skip⟩
  | _, _, _ => loose

/-- An environment. It is a misfit unless its lines are a list of texts. -/
def environmentOf (s : Store) (name lines : Value) : Tree :=
  let (supply, items) := s.supply lines
  let pieces := items.map s.pieceOf
  match supply, allTexts? pieces with
  | .listed, some texts => .environment (s.printed name) texts
  | supply, _ => .misfit (.environment (s.printed name) supply pieces)

/-- A node around a field that must be a text. -/
def withText (s : Store) (v : Value) (use : TextUse) (node : String → Tree) : Tree :=
  match asText? v with
  | some text => node text
  | none => .blocked (.notText (s.typeName v) use) (node "")

/-- The fault of a command whose name is no text. Of bytes, too, backslashes can be taken away, but not
those of a text. -/
def commandFault (s : Store) (name : Value) : Fault :=
  match name with
  | .atom (.bytes bs) => .notText (Atom.bytes bs).typeName .stripping
  | name => s.lacking name "lstrip"

/-- The node of an object, from the values of its fields and the trees of its children. -/
def node (s : Store) (kind : Kind) (field : String → Value) (child : Value → Tree) : Tree :=
  let printedField (name : String) : String := s.printed (field name)
  let optionalField (name : String) : Option String := s.optionalText (field name)
  let around (name : String) (build : Supply → List Tree → Tree) : Tree :=
    let (supply, items) := s.supply (field name)
    build supply (items.map child)
  match kind with
  | .plain =>
    match field "text" with
    | .atom (.text text) => .plain text
    | v => .misfit (.plain (s.datum v))
  | .inlineMath => .inlineMath (printedField "text")
  | .bold => .bold (child (field "content"))
  | .italic => .italic (child (field "content"))
  | .paragraph => around "content" .paragraph
  | .sectioning => around "elements" (.sectioning (s.datum (field "name")))
  | .tableOfContents => .tableOfContents
  | .titlePage => .titlePage
  | .clearPage => .clearPage
  | .environment => s.environmentOf (field "name") (field "lines")
  | .userDefined => s.withText (field "text") .line .userDefined
  | .input => .input (printedField "path")
  | .usePackage => .usePackage (printedField "package") (optionalField "argument")
  | .newCommand =>
    let command (name : String) : Tree :=
      .newCommand name (printedField "definition") (optionalField "arguments")
    match asText? (field "name") with
    | some name => command name
    | none => .blocked (s.commandFault (field "name")) (command "")
  | .preambleLine => s.withText (field "line") .line .preambleLine
  | .preamble => around "elements" (.preamble (optionalField "title") (optionalField "author"))
  | .document =>
    around "elements"
      (.document (s.documentClassOf (field "document_class")) (child (field "preamble")))
  | .equation =>
    s.withText (field "text") (.joint 0) fun text =>
      .equation text (optionalField "label") (s.isTrue (field "not_numbered"))
  | .align => around "equations" .align
  | .item => .item (printedField "text")
  | .list =>
    let list (k : ListKind) : Tree :=
      around "items" fun supply items => .list k supply items (optionalField "argument")
    match field "kind" with
    | .atom (.member (.listKind k)) => list k
    | other => .blocked (s.lacking other "environment_name") (list .itemize)
  | .tableRow => s.rowOf (field "cells") (field "columns") (field "skip_terminator")
  | .table =>
    around "rows" fun supply rows =>
      .table supply rows ((s.settingsOf (field "column_settings")).map s.column)
        (s.column (field "default_column_settings"))
  | .horizontalRule | .columnSettings | .typedSettings | .rawSettings | .baseOptions | .latexOptions =>
    .foreign (.object kind [])

/-- The tree of a value, looking up references at most `depth` deep. -/
def treeTo (s : Store) : Nat → Value → Tree
  | 0, v => .foreign (s.datum v)
  | depth + 1, v =>
    match s.target? v with
    | some (.object kind fields) =>
      if kind.isNode then s.node kind (fun name => (fields.lookup name).getD .none) (s.treeTo depth)
      else .foreign (s.datum v)
    | _ => .foreign (s.datum v)

def tree (s : Store) (v : Value) : Tree := s.treeTo (s.depth + 1) v

/-- What a caller gives as options. -/
def given (s : Store) (v : Value) : Given :=
  let field (name : String) : Value := (s.field? v name).getD .none
  match v, s.kind? v with
  | .atom .none, _ => .absent
  | _, some .latexOptions =>
    .options ⟨s.printed (field "encoding"), s.isTrue (field "escape_plain_text"),
      match field "section_command" with
      | .atom a => a
      | other => .text (s.printed other)⟩
  | _, some .baseOptions => .general (s.printed (field "encoding"))
  | v, _ => .other (s.datum v)

/-- The new values that keywords give to options. -/
def overrides (s : Store) (given : List (String × Value)) : Overrides :=
  let field (name : String) : Option Datum := (given.lookup name).map s.datum
  ⟨field "encoding", field "escape_plain_text", field "section_command"⟩

end Manuscript.Store
