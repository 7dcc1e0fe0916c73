import Manuscript.Store.Conversion
/-!
# Tables in a store

What a table tells of its rows and columns, and how its rows and column settings are changed. To count the
columns one goes through the rows, so rows that an iterator gives are gone after that.
-/
namespace Manuscript.Change

/-- The number of columns of a table: the most that one of its rows records. An iterator gives the rows up
to the one that cannot be counted. -/
def numberColumns (table : Value) : Change Datum := do
  let rows ← field table "rows"
  let (supply, found) ← look (·.supply rows)
  let (looked, columns) ← look fun s => Rows.widest (found.map s.recordedColumns)
  match supply with
  | .missing _ innermost _ => refuse (.notIterable innermost)
  | .unsized _ (some source) =>
    alter (·.takingAll (List.replicate looked source))
    settle columns
  | .listed | .unsized _ none => settle columns

def columnSettings (table : Value) : Change (ColumnSettings Value) := do
  let settings ← field table "column_settings"
  look (·.settingsOf settings)

/-- The settings that each column of a table is written with. -/
def effectiveColumns (table : Value) : Change (List Value) := do
  match ← columnSettings table with
  | .raw _ => refuse .rawColumns
  | .unsuited f => refuse f
  | settings =>
    let n ← settle (Columns.count (← numberColumns table))
    settle (Columns.resolved settings (← field table "default_column_settings") n)

/-- The column specification of a table. -/
def columnSpec (table : Value) : Change Datum := do
  match ← columnSettings table with
  | .raw spec => return spec
  | _ =>
    let columns ← effectiveColumns table
    let codes ← settle (Columns.codes (← look fun s => columns.map s.column))
    return .text codes

/-- Refuses a position that is not in the given relation to the number of rows. -/
def checkRowPosition (table index : Value) (relation : Relation) : Change Unit := do
  let i ← look (·.datum index)
  let notBelow ← settle (Datum.compared .atMost (.int 0) i)
  let n ← length (← field table "rows")
  let inside ← if notBelow then settle (i.compared relation (.int n)) else pure false
  unless inside do refuse (.rowOutOfRange i.printed n)

/-- Inserts a row before a position. The row is made only if its position is good. -/
def insertRow (table index row : Value) : Change Value := do
  checkRowPosition table index .atMost
  let rows ← field table "rows"
  requireList rows "insert"
  let new ← toRow row
  match index.asInt? with
  | some i =>
    alter (·.setItems rows fun items => items.take i.toNat ++ new :: items.drop i.toNat)
    return table
  | none => refuse (.notIndex (← typeName index))

/-- Puts a row in the place of another one. -/
def replaceRow (table index row : Value) : Change Value := do
  checkRowPosition table index .less
  let new ← toRow row
  let rows ← field table "rows"
  match ← look (·.target? rows), index.asInt? with
  | some (.sequence .list _), some i => alter (·.setItems rows (·.set i.toNat new))
  | some (.sequence .list _), none => refuse (.notPosition (← typeName index))
  | some (.dict _), _ => alter (·.setEntry rows index new)
  | _, _ => refuse (.noItemAssignment (← typeName rows))
  return table

/-- The settings of the columns of a table before one of `n` is replaced. Raw settings give way to the
standard ones; listed ones are followed by those that the columns past their end are written with. -/
def replaceableColumns (table : Value) (n : Datum) : Change (List Value) := do
  match ← columnSettings table with
  | .raw spec =>
    leave (.replacingRawSettings spec.literal)
    settle (Columns.repeated (← field table "default_column_settings") n)
  | _ =>
    let given ← items (← attributeOf (← field table "column_settings") "columns")
    if ← settle (Datum.compared .less (.int given.length) n) then
      return given ++ (← effectiveColumns table).drop given.length
    else return given

/-- Gives one column of a table new settings. The table gets new settings for this; the old ones, which
others may share, are not touched. -/
def replaceColumnSettings (table column settings : Value) : Change Value := do
  let n ← numberColumns table
  let c ← look (·.datum column)
  unless ← settle (Columns.has n c) do refuse (.noSuchColumn c.printed n.printed)
  let columns ← replaceableColumns table n
  match column.asInt? with
  | none => refuse (.notPosition c.typeName)
  | some i =>
    if columns.length ≤ i.toNat then refuse .noPlaceAssigned
    let new ← newTypedSettings (columns.set i.toNat settings)
    alter (·.setField table "column_settings" new)
    return table

end Manuscript.Change
