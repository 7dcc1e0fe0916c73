import Manuscript.Marker
import Manuscript.Order
/-!
# Rows and columns of tables

A row holds the texts of its cells and the number of columns it takes up. Column settings are given for
the columns from the left; columns past their end are set like the last one. Settings are kept in lists of
any type, so the rules hold for whatever stands for the settings of a column.
-/
namespace Manuscript

/-- A text, or another value in its place, which is known by its type. -/
inductive Piece
  | text (text : String)
  | other (typeName : String)
  deriving DecidableEq, Repr

/-- The texts of some pieces, or the fault of joining them, which names the first that is no text. -/
def Piece.texts (position : Nat) : List Piece → Except Fault (List String)
  | [] => .ok []
  | .other typeName :: _ => .error (.notText typeName (.joint position))
  | .text t :: pieces => (texts (position + 1) pieces).map (t :: ·)

@[simp] theorem Piece.texts_map_text (position : Nat) (ts : List String) :
    Piece.texts position (ts.map .text) = .ok ts := by
  induction ts generalizing position with
  | nil => rfl
  | cons t ts ih => simp [texts, ih, Except.map]

/-- `columns` is not recorded for a rule, which takes up no columns and is not ended by a terminator. -/
structure Row where
  cells : List String
  columns : Option Int
  skipTerminator : Bool
  deriving DecidableEq, Repr

namespace Row

/-- A row takes up as many columns as it has cells, unless a number is given or the row is a rule. -/
def make (cells : List String) (columns : Option Int) (skipTerminator : Bool) : Row :=
  { cells, skipTerminator
    columns := if columns.isNone && !skipTerminator then some cells.length else columns }

def hline : Row := make [Marker.horizontalLine] none true

/-- The number of columns that the row asks of its table. -/
def width (row : Row) : Int := row.columns.getD 0

theorem columns_make_terminated (cells : List String) :
    (make cells none false).columns = some (cells.length : Int) := by simp [make]

end Row

/-- The settings of one column. What stands in the place of an alignment may have a code of its own, or the
column has the fault of asking for one. -/
inductive Column
  | aligned (alignment : Alignment)
  | coded (code : Piece)
  | unusable (fault : Fault)
  deriving DecidableEq, Repr

namespace Column

def standard : Column := aligned .left

/-- The letter of the column's alignment. -/
def code : Column → Except Fault Piece
  | aligned a => .ok (.text a.code)
  | coded piece => .ok piece
  | unusable f => .error f

end Column

/-- The settings of a table's columns: one for each column from the left, or a specification that is
written as it is. Settings in a dictionary are looked up by the number of the column. A value that has no
length gives no settings, and from an `unsuited` one they cannot be read at all. -/
inductive ColumnSettings (α : Type)
  | typed (columns : List α)
  | raw (spec : Datum)
  | keyed (entries : List (Datum × α))
  | unsized (typeName : String)
  | unsuited (fault : Fault)
  deriving DecidableEq, Repr

namespace ColumnSettings

variable {α β : Type}

def map (f : α → β) : ColumnSettings α → ColumnSettings β
  | typed columns => typed (columns.map f)
  | raw spec => raw spec
  | keyed entries => keyed (entries.map fun e => (e.1, f e.2))
  | unsized typeName => unsized typeName
  | unsuited fault => unsuited fault

end ColumnSettings

namespace Columns

variable {α : Type}

/-- The settings of a column past the end of the given ones. -/
def beyond (given : List α) (standard : α) : α := given.getLast?.getD standard

/-- The given settings, made to reach `n` columns. -/
def padded (given : List α) (standard : α) (n : Nat) : List α :=
  given ++ List.replicate (n - given.length) (beyond given standard)

/-- The settings of each of `n` columns. -/
def effective (given : List α) (standard : α) (n : Nat) : List α :=
  (padded given standard n).take n

@[simp] theorem length_padded (given : List α) (standard : α) (n : Nat) :
    (padded given standard n).length = max given.length n := by
  rw [padded, List.length_append, List.length_replicate]
  omega

theorem getElem?_effective (given : List α) (standard : α) (n i : Nat) :
    (effective given standard n)[i]? =
      if i < n then some (given[i]?.getD (beyond given standard)) else none := by
  rw [effective, List.getElem?_take]
  split
  · rename_i h
    rw [padded, List.getElem?_append]
    split
    · rename_i hi
      simp [List.getElem?_eq_getElem hi]
    · rename_i hi
      rw [List.getElem?_replicate, if_pos (by omega), List.getElem?_eq_none (by omega)]
      rfl
  · rfl

/-- The given settings and the effective ones behind them are the given ones made to reach `n` columns. -/
theorem append_drop_effective (given : List α) (standard : α) {n : Nat} (h : given.length ≤ n) :
    given ++ (effective given standard n).drop given.length = padded given standard n := by
  have hn : (padded given standard n).length = n := by rw [length_padded]; omega
  rw [effective, List.take_of_length_le (Nat.le_of_eq hn), padded, List.drop_left]

/-- The entry of a key that is a whole number. -/
def entry (entries : List (Datum × α)) (key : Int) : Except Fault α :=
  match entries.find? fun e => e.1.same (.int key) with
  | some e => .ok e.2
  | none => .error (.missingKey (toString key))

/-- The settings of each of `n` columns, looked up in a dictionary. A column past its end is looked up as the
last one. -/
def keyed (entries : List (Datum × α)) (standard : α) (n : Nat) : Except Fault (List α) := do
  let given ← (List.range (min n entries.length)).mapM fun i : Nat => entry entries i
  if n ≤ entries.length then return given
  let last ← if entries.isEmpty then .ok standard else entry entries (-1)
  return given ++ List.replicate (n - entries.length) last

/-- The settings that each of `n` columns is written with. -/
def resolved (settings : ColumnSettings α) (standard : α) (n : Nat) : Except Fault (List α) :=
  match settings with
  | .typed given => .ok (effective given standard n)
  | .keyed entries => keyed entries standard n
  | .unsized typeName => if n = 0 then .ok [] else .error (.noLength typeName)
  | .raw _ => .error .rawColumns
  | .unsuited f => .error f

/-- The standard settings for a number of columns. No list can be longer than addresses reach; any shorter one is
taken to have room. -/
def repeated (standard : α) (n : Datum) : Except Fault (List α) :=
  match n.asInt? with
  | some i =>
    if Int.pow 2 63 ≤ i then .error .countTooLarge else .ok (List.replicate i.toNat standard)
  | none => .error (.notRepeatable n.typeName)

/-- The columns of a table, if their number is whole. -/
def count (n : Datum) : Except Fault Nat :=
  match n.asInt? with
  | some i => .ok i.toNat
  | none => .error (.notIndex n.typeName)

/-- The codes of the columns, one after the other. -/
def codes (columns : List Column) : Except Fault String := do
  let pieces ← columns.mapM Column.code
  (Piece.texts 0 pieces).map String.join

/-- The codes of aligned columns are their letters. -/
theorem codes_aligned (alignments : List Alignment) :
    codes (alignments.map .aligned) = .ok (String.join (alignments.map Alignment.code)) := by
  have h : (alignments.map Column.aligned).mapM Column.code =
      .ok ((alignments.map Alignment.code).map Piece.text) := by
    induction alignments with
    | nil => rfl
    | cons a as ih =>
      rw [List.map_cons, List.mapM_cons, ih]
      rfl
  rw [codes, h]
  exact congrArg (·.map String.join) (Piece.texts_map_text 0 _)

/-- The column specification of a table of `n` columns, which is a number unless rows record something
else. One that is written as it is needs no columns. -/
def spec (settings : ColumnSettings Column) (standard : Column) (n : Datum) : Except Fault Datum :=
  match settings with
  | .raw given => .ok given
  | settings => do
    let columns ← resolved settings standard (← count n)
    return .text (← codes columns)

/-- Whether column `c` is one of `n`. -/
def has (n c : Datum) : Except Fault Bool := do
  if ← Datum.compared .atMost (.int 0) c then c.compared .less n else return false

end Columns

namespace Rows

/-- The greatest of some column counts, zero if there are none. -/
def greatest : List Int → Int
  | [] => 0
  | n :: ns => ns.foldl max n

/-- The columns that a row asks for. What counts as false stands for none. -/
def asked (columns : Datum) : Datum := if columns.isTrue then columns else .int 0

/-- The greater of two numbers of columns, the first of them in a tie. -/
def wider (best width : Datum) : Except Fault Datum :=
  match width.compared .greater best with
  | .error f => .error f
  | .ok true => .ok width
  | .ok false => .ok best

/-- The greatest of what rows record as their columns and of a number from before, and how many of the rows
are looked at. -/
def widestFrom (best : Datum) : List (Except Fault Datum) → Nat × Except Fault Datum
  | [] => (0, .ok best)
  | .error f :: _ => (1, .error f)
  | .ok columns :: rows =>
    match wider best (asked columns) with
    | .error f => (1, .error f)
    | .ok best => ((widestFrom best rows).1 + 1, (widestFrom best rows).2)

/-- The number of columns of a table, from what its rows record, and how many of the rows are looked at. -/
def widest : List (Except Fault Datum) → Nat × Except Fault Datum
  | [] => (0, .ok (.int 0))
  | .error f :: _ => (1, .error f)
  | .ok columns :: rows =>
    ((widestFrom (asked columns) rows).1 + 1, (widestFrom (asked columns) rows).2)

theorem asked_int (n : Int) : asked (.int n) = .int n := by
  by_cases h : n = 0 <;> simp [asked, Datum.int, Datum.isTrue, Atom.isTrue, h]

theorem wider_int (m n : Int) : wider (.int m) (.int n) = .ok (.int (max m n)) := by
  have h : Datum.compared .greater (.int n) (.int m) = .ok (decide (m < n)) :=
    Atom.compared_greater_int n m
  rw [wider, h]
  by_cases hm : m < n
  · simp [hm, Int.max_eq_right (Int.le_of_lt hm)]
  · simp [hm, Int.max_eq_left (Int.not_lt.mp hm)]

end Rows

end Manuscript
