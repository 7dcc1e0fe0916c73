import Manuscript.Store.Construction
import Manuscript.Store.Copy
import Manuscript.Store.Tables
/-!
# Builders

The calls by which documents are put together. Most calls give back the object that they were made on, so
that calls can be chained. Only lists can be added to, and most calls find out whether there is one before
they convert what is to be added.
-/
namespace Manuscript

/-- A call with its arguments. `createUpdated` takes new values for some fields. -/
inductive Call
  | push (value : Value)
  | pushText (text : Value)
  | pushAll (other : Value)
  | pushItem (value : Value)
  | pushRow (row : Value)
  | insertRow (index row : Value)
  | replaceRow (index row : Value)
  | setColumnSettings (settings : Value)
  | replaceColumnSettings (column settings : Value)
  | isEmpty
  | withAlignment (alignment : Value)
  | toTableRow
  | setTitle (title : Value)
  | setAuthor (author : Value)
  | usePackage (package argument : Value)
  | newCommand (name definition arguments : Value)
  | setLabel (label : Value)
  | markNotNumbered
  | labelled (label text : Value)
  | setArgument (argument : Value)
  | createUpdated (changes : List (String × Value))
  deriving DecidableEq, Repr

def Call.name : Call → String
  | push _ => "push"
  | pushText _ => "push_text"
  | pushAll _ => "push_all"
  | pushItem _ => "push_item"
  | pushRow _ => "push_row"
  | insertRow _ _ => "insert_row"
  | replaceRow _ _ => "replace_row"
  | setColumnSettings _ => "set_column_settings"
  | replaceColumnSettings _ _ => "replace_column_settings"
  | isEmpty => "is_empty"
  | withAlignment _ => "with_alignment"
  | toTableRow => "to_table_row"
  | setTitle _ => "set_title"
  | setAuthor _ => "set_author"
  | usePackage _ _ => "use_package"
  | newCommand _ _ _ => "new_command"
  | setLabel _ => "set_label"
  | markNotNumbered => "mark_not_numbered"
  | labelled _ _ => "labelled"
  | setArgument _ => "set_argument"
  | createUpdated _ => "create_updated"

/-- The last argument that a call on an object of a kind cannot do without, if there is such a call. Without
arguments it is the object itself. -/
def Call.lastArgument? : Kind → Call → Option String
  | .document, push _ | .sectioning, push _ | .paragraph, push _ => some "element"
  | .align, push _ => some "equation"
  | .list, push _ | .tableRow, pushItem _ => some "item"
  | .preamble, push _ => some "line"
  | .paragraph, pushText _ => some "text"
  | .document, pushAll _ => some "other"
  | .table, pushRow _ | .table, insertRow _ _ | .table, replaceRow _ _ => some "row"
  | .table, setColumnSettings _ | .table, replaceColumnSettings _ _ => some "column_settings"
  | .columnSettings, withAlignment _ => some "alignment"
  | .preamble, setTitle _ => some "title"
  | .preamble, setAuthor _ => some "author"
  | .preamble, usePackage _ _ => some "package"
  | .preamble, newCommand _ _ _ => some "definition"
  | .equation, setLabel _ => some "label"
  | .list, setArgument _ => some "argument"
  | .table, isEmpty | .typedSettings, isEmpty | .rawSettings, isEmpty | .horizontalRule, toTableRow
  | .equation, markNotNumbered => some "self"
  | _, _ => none

namespace Change

/-- Adds what a change makes to the list in a field of an object, if there is a list. -/
def pushTo (v : Value) (fieldName : String) (made : Change Value) : Change Value := do
  let list ← field v fieldName
  requireList list "append"
  extend list [← made]
  return v

/-- Adds what a change makes to the list in a field. It is made even if there is no list. -/
def pushMade (v : Value) (fieldName : String) (made : Change Value) : Change Value := do
  let new ← made
  pushTo v fieldName (pure new)

/-- Copies the children of another document behind those of this one. -/
def pushAll (v other : Value) : Change Value := do
  let list ← field v "elements"
  requireList list "extend"
  let elements ← attributeOf other "elements"
  let copied ← make (·.copy elements)
  extend list (← items copied)
  return v

/-- One more than a number of columns. -/
def onePlus (columns : Value) : Change Value := do
  match columns, columns.asInt? with
  | _, some n => return .int (n + 1)
  | .atom (.double d), _ => return .atom (.double d.plusOne)
  | .atom (.nan _), _ => newNan
  | _, _ => refuse (.notCounter (← typeName columns))

/-- Adds the text of a value as the last cell of a row. The row counts it if it records its columns. -/
def pushItem (v item : Value) : Change Value := do
  let text ← look (·.printed item)
  let _ ← pushTo v "cells" (pure (.text text))
  let columns ← field v "columns"
  if columns = .none then return v
  let more ← onePlus columns
  alter (·.setField v "columns" more)
  return v

/-- Options with new values for some of their fields, if these can be used. -/
def createUpdated (v : Value) (kind : Kind) (changes : List (String × Value)) : Change Value := do
  match changes.find? fun change => !kind.fields.contains change.1 with
  | some change => refuse (.unknownField kind.name change.1)
  | none =>
    let s ← look id
    construct kind (kind.fields.map fun name =>
      (name, (changes.lookup name).getD ((s.field? v name).getD .none)))

/-- Whether a field has nothing in it. -/
def isEmptyField (v : Value) (fieldName : String) : Change Value := do
  let found ← field v fieldName
  return .bool !(← look (·.isTrue found))

/-- Gives a field of an object a new value, and the object back. -/
def setTo (v : Value) (fieldName : String) (new : Value) : Change Value := do
  alter (·.setField v fieldName new)
  return v

/-- The fault of a call on a value that is not an object. Made on a class, a call takes its first argument for
the object, and so one is missing. -/
def callFault (d : Datum) (c : Call) : Fault :=
  match d, c with
  | d, .createUpdated _ => Given.notUpdated d
  | .atom (.classRef name), c =>
    match (Kind.ofName? name).bind fun kind => Call.lastArgument? kind c with
    | some argument => .missingArgument (name ++ "." ++ c.name) argument
    | none => d.lacking c.name
  | d, c => d.lacking c.name

/-- A call on a value that is not an object. A class can be asked for a new equation. -/
def callOnOther (v : Value) (c : Call) : Change Value := do
  match v, c with
  | .atom (.classRef "Equation"), .labelled label text => newEquation text label
  | v, c => refuse (callFault (← look (·.datum v)) c)

/-- Makes a call on a value. -/
def call (v : Value) (c : Call) : Change Value := do
  match ← look (·.kind? v), c with
  | none, c => callOnOther v c
  | some .document, .push x | some .sectioning, .push x => pushTo v "elements" (toElement x)
  | some .document, .pushAll other => pushAll v other
  | some .paragraph, .push x => pushTo v "content" (toInline x)
  | some .paragraph, .pushText text => pushTo v "content" (newPlain text)
  | some .align, .push x => pushMade v "equations" (toEquation x)
  | some .list, .push x => pushMade v "items" (toItem x)
  | some .list, .setArgument x => setTo v "argument" x
  | some .preamble, .push line =>
    pushTo v "elements" (newObject .preambleLine [("line", line)])
  | some .preamble, .setTitle x => setTo v "title" x
  | some .preamble, .setAuthor x => setTo v "author" x
  | some .preamble, .usePackage package argument =>
    pushTo v "elements" (newObject .usePackage [("package", package), ("argument", argument)])
  | some .preamble, .newCommand name definition arguments =>
    pushTo v "elements"
      (newObject .newCommand [("name", name), ("definition", definition), ("arguments", arguments)])
  | some .equation, .setLabel x => setTo v "label" x
  | some .equation, .markNotNumbered => setTo v "not_numbered" (.bool true)
  | some .equation, .labelled label text => newEquation text label
  | some .tableRow, .pushItem x => pushItem v x
  | some .horizontalRule, .toTableRow => newRow .hline
  | some .table, .pushRow row => pushTo v "rows" (toRow row)
  | some .table, .insertRow index row => insertRow v index row
  | some .table, .replaceRow index row => replaceRow v index row
  | some .table, .setColumnSettings x => setTo v "column_settings" (← toColumnSettings x)
  | some .table, .replaceColumnSettings column settings => replaceColumnSettings v column settings
  | some .table, .isEmpty => isEmptyField v "rows"
  | some .typedSettings, .isEmpty => isEmptyField v "columns"
  | some .rawSettings, .isEmpty => isEmptyField v "spec"
  | some .columnSettings, .withAlignment x => newColumn x
  | some .baseOptions, .createUpdated changes => createUpdated v .baseOptions changes
  | some .latexOptions, .createUpdated changes => createUpdated v .latexOptions changes
  | _, c => refuse (← look (·.lacking v c.name))

end Change

end Manuscript
