import Manuscript.Store.Conversion
/-!
# Construction

How an object is made from the values of some of its fields. The others get their standard values, and some
kinds adjust or check what they are given: wrappers take a text for a plain run, documents take the names
of the known classes, rows turn items into cells, tables convert their column settings, and options are
refused unless they can be used.
-/
namespace Manuscript.Change

/-- The standard value of a field. Every object gets containers of its own. -/
def standardField (kind : Kind) (name : String) : Change Value :=
  match kind.standard? name, kind, name with
  | some a, _, _ => return .atom a
  | none, .document, "preamble" => do
    newObject .preamble [("title", .none), ("author", .none), ("elements", ← newList [])]
  | none, .table, "column_settings" => newTypedSettings []
  | none, .table, "default_column_settings" => newColumn (.atom (.member (.alignment .left)))
  | none, _, _ => newList []

/-- Fields in their order, with standard values for those that are not given. -/
def withStandardFields (kind : Kind) (given : List (String × Value)) :
    List String → Change (List (String × Value))
  | [] => return []
  | name :: names => do
    let v ← match given.lookup name with
      | some v => pure v
      | none => standardField kind name
    return (name, v) :: (← withStandardFields kind given names)

/-- The class of a new document: a known name stands for the class. -/
def documentClassValue (v : Value) : Change Value := do
  match v with
  | .atom (.text name) =>
    match StandardClass.ofName? name with
    | some c => return .atom (.member (.documentClass c))
    | none => return v
  | v =>
    settle (← look (·.checkKey v))
    return v

/-- Options are made only from values that can be used. -/
def checkOptions (kind : Kind) (field : String → Value) : Change Unit := do
  let s ← look id
  match kind with
  | .baseOptions =>
    let _ ← settle (Options.checkedEncoding (s.datum (field "encoding")))
  | .latexOptions =>
    let _ ← settle (Options.checked (s.datum (field "encoding")) (s.datum (field "escape_plain_text"))
      (s.datum (field "section_command")))
  | _ => return ()

/-- Makes an object from all of its fields. -/
def construct (kind : Kind) (fields : List (String × Value)) : Change Value := do
  let field (name : String) : Value := (fields.lookup name).getD .none
  match kind with
  | .bold | .italic =>
    let content := field "content"
    newObject kind [("content", ← if Store.isText content then newPlain content else pure content)]
  | .document =>
    let c ← documentClassValue (field "document_class")
    newObject .document
      [("document_class", c), ("preamble", field "preamble"), ("elements", field "elements")]
  | .tableRow =>
    let texts ← itemTexts (field "cells")
    let cells ← newList (texts.map .text)
    let skip := field "skip_terminator"
    let skipped ← look (·.isTrue skip)
    let columns := if field "columns" = .none ∧ !skipped then .int texts.length else field "columns"
    newObject .tableRow [("cells", cells), ("columns", columns), ("skip_terminator", skip)]
  | .table =>
    let settings ← toColumnSettings (field "column_settings")
    newObject .table
      [("rows", field "rows"), ("column_settings", settings),
        ("default_column_settings", field "default_column_settings")]
  | kind =>
    checkOptions kind field
    newObject kind fields

/-- Makes an object from the given fields. -/
def instantiate (kind : Kind) (given : List (String × Value)) : Change Value := do
  construct kind (← withStandardFields kind given kind.fields)

end Manuscript.Change
