import Manuscript.Store.Change
import Manuscript.Store.Reading
/-!
# Conversions

Builders take convenient values in place of nodes: a text for a paragraph or a plain run, a pair of a name
and lines for an environment, anything one can go through for a row. Each conversion gives back a value of
the right kind as it is, makes a node for the values it understands, and refuses all others.
-/
namespace Manuscript.Change

def newPlain (text : Value) : Change Value := newObject .plain [("text", text)]

def newParagraph (content : List Value) : Change Value := do
  newObject .paragraph [("content", ← newList content)]

def newAlign (equations : List Value) : Change Value := do
  newObject .align [("equations", ← newList equations)]

def newEquation (text label : Value) : Change Value :=
  newObject .equation [("text", text), ("label", label), ("not_numbered", .bool false)]

def newEnvironment (name : Value) (lines : List Value) : Change Value := do
  newObject .environment [("name", name), ("lines", ← newList lines)]

def newItem (text : Value) : Change Value := newObject .item [("text", text)]

def newTypedSettings (columns : List Value) : Change Value := do
  newObject .typedSettings [("columns", ← newList columns)]

def newRawSettings (spec : Value) : Change Value := newObject .rawSettings [("spec", spec)]

def newColumn (alignment : Value) : Change Value := newObject .columnSettings [("alignment", alignment)]

def newRow (row : Row) : Change Value := do
  let cells ← newList (row.cells.map .text)
  newObject .tableRow
    [("cells", cells), ("columns", match row.columns with | some n => .int n | none => .none),
      ("skip_terminator", .bool row.skipTerminator)]

/-- The texts of the items of a value. -/
def itemTexts (v : Value) : Change (List String) := do
  let found ← items v
  look fun s => found.map s.printed

/-- A name and lines, if the value is a pair that starts with a text. -/
def nameAndLines? (s : Store) (v : Value) : Option (Value × Value) :=
  match s.target? v with
  | some (.sequence .tuple [name, lines]) => if Store.isText name then some (name, lines) else none
  | _ => none

/-- A child of a document or a section. -/
def toElement (v : Value) : Change Value := do
  let s ← look id
  if (s.kind? v).any Kind.isBlock then return v
  else if Store.isText v then newParagraph [← newPlain v]
  else if s.kind? v = some .equation then newAlign [v]
  else
    match nameAndLines? s v with
    | some (name, lines) =>
      if Store.isText lines then refuse .linesAreText
      else newEnvironment name (← items lines)
    | none => refuse (.unconvertible (s.typeName v) .element)

/-- A child of a paragraph. -/
def toInline (v : Value) : Change Value := do
  let s ← look id
  if (s.kind? v).any Kind.isInline then return v
  else if Store.isText v then newPlain v
  else refuse (.unconvertible (s.typeName v) .inline)

/-- An equation of an align environment. -/
def toEquation (v : Value) : Change Value := do
  let s ← look id
  if Store.isText v then newEquation v .none
  else if s.kind? v = some .equation then return v
  else refuse (.notEquation (s.typeName v))

/-- An item of a list. Any value can be the text of one. -/
def toItem (v : Value) : Change Value := do
  if (← look (·.kind? v)) = some .item then return v else newItem v

def isTextOrBytes (v : Value) : Bool :=
  match v with
  | .atom (.bytes _) => true
  | v => Store.isText v

/-- Whether one can go through values of this type. -/
def isIterable (s : Store) (v : Value) : Bool :=
  match s.kind? v, (s.supply v).1 with
  | some kind, _ => kind.itemField?.isSome
  | none, .missing _ _ _ => false
  | none, _ => true

/-- A row of a table: the text of each item is a cell. -/
def toRow (v : Value) : Change Value := do
  let s ← look id
  if s.kind? v = some .tableRow then return v
  else if s.kind? v = some .horizontalRule then newRow .hline
  else if isTextOrBytes v then refuse .cellsAreText
  else if !isIterable s v then refuse (.unconvertible (s.typeName v) .row)
  else newRow (Row.make (← itemTexts v) none false)

/-- Column settings for the listed columns, each of which must be the settings of one. -/
def toTypedSettings (columns : List Value) : Change Value := do
  let s ← look id
  match columns.find? fun v => s.kind? v != some .columnSettings with
  | some other => refuse (.notColumn (s.typeName other))
  | none => newTypedSettings columns

/-- The column settings of a table. -/
def toColumnSettings (v : Value) : Change Value := do
  let s ← look id
  match s.kind? v, s.target? v with
  | some .typedSettings, _ | some .rawSettings, _ => return v
  | some .columnSettings, _ => newTypedSettings [v]
  | _, some (.sequence _ columns) => toTypedSettings columns
  | _, _ => if Store.isText v then newRawSettings v else refuse (.notColumnSettings (s.typeName v))

end Manuscript.Change
