import Manuscript.Proofs.RowMaking
import Mathlib.Data.List.InsertIdx
import Mathlib.Data.List.MinMax
/-!
# Edits of the rows of a table

Rows of a table are added at its end, inserted before a position or put in the place of another one. An edit is
refused if there is no such position, and else if its argument cannot be made a row; a table is as it was then. So
through any run of edits the rows are those of a plain list, and they stay arranged while they get more cells.
-/
namespace Manuscript

open Store (Arranged RowsEdited RowMade)

/-- An edit of the rows of a table. -/
inductive RowEdit
  | push (row : Value)
  | insert (index : Int) (row : Value)
  | replace (index : Int) (row : Value)
  deriving DecidableEq, Repr

namespace RowEdit

/-- What is to become a row. -/
def row : RowEdit → Value
  | push v | insert _ v | replace _ v => v

def call : RowEdit → Call
  | push v => .pushRow v
  | insert i v => .insertRow (.int i) v
  | replace i v => .replaceRow (.int i) v

/-- The position that is asked for. To add a row asks for none. -/
def position? : RowEdit → Option Int
  | push _ => none
  | insert i _ | replace i _ => some i

/-- Among so many rows there is a position as asked for. -/
def Admits (e : RowEdit) (n : Nat) : Prop :=
  match e with
  | push _ => True
  | insert i _ => 0 ≤ i ∧ i ≤ n
  | replace i _ => 0 ≤ i ∧ i < n

instance (e : RowEdit) (n : Nat) : Decidable (e.Admits n) := by
  cases e <;> unfold Admits <;> infer_instance

/-- The rows with a new one. -/
def applied (e : RowEdit) (rows : List Value) (new : Value) : List Value :=
  match e with
  | push _ => rows ++ [new]
  | insert i _ => rows.insertIdx i.toNat new
  | replace i _ => rows.set i.toNat new

/-- The rows after an edit in a store, if the edit is not refused. -/
def result (e : RowEdit) (s : Store) (rows : List Value) : List Value :=
  if e.Admits rows.length then
    match ((Change.toRow e.row).runOn ⟨s, []⟩).1 with
    | .ok new => e.applied rows new
    | .error _ => rows
  else rows

/-- What an edit comes to when its row comes out so. -/
def outcome (e : RowEdit) (a l : Ref) (rows : List Value) : Except Fault Value × Draft → Except Fault Value × Draft
  | (.ok new, after) => (.ok (.ref a), ⟨after.store.put l (.sequence .list (e.applied rows new)), after.notes⟩)
  | (.error f, after) => (.error f, after)

theorem mem_applied {e : RowEdit} {rows : List Value} {new v : Value} (h : v ∈ e.applied rows new) :
    v = new ∨ v ∈ rows := by
  cases e with
  | push row =>
    rcases List.mem_append.mp h with hold | hnew
    · exact .inr hold
    · exact .inl (List.mem_singleton.mp hnew)
  | insert i row => exact List.eq_or_mem_of_mem_insertIdx h
  | replace i row => exact (List.mem_or_eq_of_mem_set h).symm

theorem insertIdx_eq_take_drop {α : Type} {xs : List α} {i : Nat} (h : i ≤ xs.length) (x : α) :
    xs.insertIdx i x = xs.take i ++ x :: xs.drop i := by
  induction xs generalizing i with
  | nil =>
    obtain rfl := Nat.le_zero.mp h
    rfl
  | cons y xs ih =>
    cases i with
    | zero => rfl
    | succ i => rw [List.insertIdx_succ_cons, ih (Nat.le_of_succ_le_succ h), List.take_succ_cons,
        List.drop_succ_cons, List.cons_append]

end RowEdit

namespace Change

variable {s : Store} {exact : Prop} {a l : Ref} {rows : List Value} {settings : ColumnSettings Alignment}
  {usual : Alignment}

theorem runOn_rows (h : s.Arranged exact a l rows) (notes : List Note) :
    (field (.ref a) "rows").runOn ⟨s, notes⟩ = (.ok (.ref l), ⟨s, notes⟩) := by
  rw [field, runOn_look, h.place]

/-- A position is looked for before anything is made. -/
theorem runOn_checkRowPosition (h : s.Arranged exact a l rows) {i : Int} {relation : Relation} {inside : Prop}
    [Decidable inside]
    (hinside : Datum.compared relation (.int i) (.int rows.length) = .ok (decide inside)) (notes : List Note) :
    (checkRowPosition (.ref a) (.int i) relation).runOn ⟨s, notes⟩ =
      if 0 ≤ i ∧ inside then (.ok (), ⟨s, notes⟩)
      else (.error (.rowOutOfRange (toString i) rows.length), ⟨s, notes⟩) := by
  have hdatum : s.datum (.int i) = .int i := Store.Carried.datumTo_atom s s.depth (.int i)
  have hnot : Datum.compared .atMost (.int 0) (.int i) = .ok (decide (0 ≤ i)) := Atom.compared_atMost_int 0 i
  have hlength : (length (.ref l)).runOn ⟨s, notes⟩ = (.ok rows.length, ⟨s, notes⟩) := by
    have hlist : s.list? (.ref l) = some rows := Store.list?_eq_some.mpr ⟨l, rfl, h.listed⟩
    rw [length, runOn_bind_of_ok (runOn_look _ _), Store.supply_of_list hlist, runOn_settle]
    rfl
  rw [checkRowPosition, runOn_bind_of_ok (runOn_look _ _), hdatum, hnot, runOn_bind_of_ok (runOn_settle _ _),
    runOn_bind_of_ok (runOn_rows h notes), runOn_bind_of_ok hlength]
  by_cases hi : 0 ≤ i
  · rw [decide_eq_true hi, if_pos rfl, hinside, runOn_bind_of_ok (runOn_settle _ _)]
    by_cases hin : inside
    · rw [if_pos ⟨hi, hin⟩, decide_eq_true hin]
      rfl
    · rw [if_neg fun hboth => hin hboth.2, decide_eq_false hin]
      rfl
  · have hout : ¬(0 ≤ i ∧ inside) := fun hboth => hi hboth.1
    rw [if_neg hout, decide_eq_false hi]
    rfl

theorem runOn_setItems {t : Store} (h : t.cell? l = some (.sequence .list rows)) (f : List Value → List Value)
    (v : Value) (notes : List Note) :
    (alter (·.setItems (.ref l) f) >>= fun _ => pure v : Change Value).runOn ⟨t, notes⟩ =
      (.ok v, ⟨t.put l (.sequence .list (f rows)), notes⟩) := by
  rw [runOn_bind_of_ok (runOn_alter _ _), Store.setItems_of_cell h, runOn_pure]

/-- An edit goes on once its row has been made, or else ends there. -/
theorem runOn_toRow_bind {e : RowEdit} {next : Value → Change Value} {d : Draft}
    (hnext : ∀ new after, (toRow e.row).runOn d = (.ok new, after) → (next new).runOn after =
      (.ok (.ref a), ⟨after.store.put l (.sequence .list (e.applied rows new)), after.notes⟩)) :
    (toRow e.row >>= next).runOn d = e.outcome a l rows ((toRow e.row).runOn d) := by
  rw [runOn_bind]
  rcases hrow : (toRow e.row).runOn d with ⟨f | new, after⟩
  · rfl
  · exact hnext new after hrow

/-- What an edit does once it has found its position: it makes a row and puts it there. -/
theorem runOn_edit_admitted (h : s.Arranged exact a l rows) {e : RowEdit} (he : e.Admits rows.length)
    (notes : List Note)
    (hmade : ∀ new after, (toRow e.row).runOn ⟨s, notes⟩ = (.ok new, after) → after.store.Arranged exact a l rows) :
    (call (.ref a) e.call).runOn ⟨s, notes⟩ = e.outcome a l rows ((toRow e.row).runOn ⟨s, notes⟩) := by
  have hlist : s.list? (.ref l) = some rows := Store.list?_eq_some.mpr ⟨l, rfl, h.listed⟩
  rw [call, runOn_bind_of_ok (runOn_look _ _), h.table]
  cases e with
  | push v =>
    change (pushTo (.ref a) "rows" (toRow v)).runOn ⟨s, notes⟩ = _
    rw [pushTo, runOn_bind_of_ok (runOn_rows h notes), runOn_bind_of_ok (runOn_requireList hlist "append" notes)]
    exact runOn_toRow_bind (e := .push v) fun new after hrow => runOn_setItems (hmade new after hrow).listed _ _ _
  | insert i v =>
    have hcheck := (runOn_checkRowPosition h (Atom.compared_atMost_int i rows.length) notes).trans (if_pos he)
    change (insertRow (.ref a) (.int i) v).runOn ⟨s, notes⟩ = _
    rw [insertRow, runOn_bind_of_ok hcheck, runOn_bind_of_ok (runOn_rows h notes),
      runOn_bind_of_ok (runOn_requireList hlist "insert" notes)]
    refine runOn_toRow_bind (e := .insert i v) fun new after hrow => ?_
    have hplace : rows.insertIdx i.toNat new = rows.take i.toNat ++ new :: rows.drop i.toNat :=
      RowEdit.insertIdx_eq_take_drop (Int.toNat_le.mpr he.2) new
    rw [RowEdit.applied, hplace]
    exact runOn_setItems (hmade new after hrow).listed _ _ _
  | replace i v =>
    have hcheck := (runOn_checkRowPosition h (Atom.compared_less_int i rows.length) notes).trans (if_pos he)
    change (replaceRow (.ref a) (.int i) v).runOn ⟨s, notes⟩ = _
    rw [replaceRow, runOn_bind_of_ok hcheck]
    refine runOn_toRow_bind (e := .replace i v) fun new after hrow => ?_
    have hafter := hmade new after hrow
    have htarget : after.store.target? (.ref l) = some (.sequence .list rows) := hafter.listed
    rw [runOn_bind_of_ok (runOn_rows hafter after.notes), runOn_bind_of_ok (runOn_look _ _), htarget]
    exact runOn_setItems hafter.listed _ _ _

/-- An edit that finds no position makes nothing. -/
theorem runOn_edit_absent (h : s.Arranged exact a l rows) {e : RowEdit} (he : ¬e.Admits rows.length)
    (notes : List Note) : (call (.ref a) e.call).runOn ⟨s, notes⟩ =
      (.error (.rowOutOfRange (toString (e.position?.getD 0)) rows.length), ⟨s, notes⟩) := by
  rw [call, runOn_bind_of_ok (runOn_look _ _), h.table]
  cases e with
  | push v => exact absurd trivial he
  | insert i v =>
    have hcheck := (runOn_checkRowPosition h (Atom.compared_atMost_int i rows.length) notes).trans (if_neg he)
    change (insertRow (.ref a) (.int i) v).runOn ⟨s, notes⟩ = _
    rw [insertRow, runOn_bind, hcheck]
    rfl
  | replace i v =>
    have hcheck := (runOn_checkRowPosition h (Atom.compared_less_int i rows.length) notes).trans (if_neg he)
    change (replaceRow (.ref a) (.int i) v).runOn ⟨s, notes⟩ = _
    rw [replaceRow, runOn_bind, hcheck]
    rfl

/-- An edit whose argument cannot be made a row makes nothing. -/
theorem exists_edit_refused (h : s.Arranged exact a l rows) {e : RowEdit} (he : e.Admits rows.length)
    (hrow : ¬s.Convertible e.row) : ∃ f : Fault, f.isRowRefusal = true ∧ e.result s rows = rows ∧
      ∀ notes, (call (.ref a) e.call).runOn ⟨s, notes⟩ = (.error f, ⟨s, notes⟩) := by
  obtain ⟨f, hf, hrefused⟩ := exists_refusal hrow
  refine ⟨f, hf, ?_, fun notes => ?_⟩
  · rw [RowEdit.result, if_pos he, hrefused]
  · have hout := runOn_edit_admitted h he notes fun new after hmade => by
      rw [hrefused] at hmade
      cases hmade
    rw [hout, hrefused]
    rfl

/-- Else the row is put at the position: the argument itself if it is a row, and a new one if it is none. -/
theorem exists_edit_made (h : s.Arranged exact a l rows) {e : RowEdit} (he : e.Admits rows.length)
    (hrow : s.Convertible e.row) : ∃ new t, e.result s rows = e.applied rows new ∧
      (s.kind? e.row = some .tableRow ∧ new = e.row ∨
        s.kind? e.row ≠ some .tableRow ∧ ∃ p, new = .ref p ∧ s.cells.size ≤ p.index) ∧
      t.Arranged exact a l (e.applied rows new) ∧ s.RowsEdited t l ∧
      ∀ notes, (call (.ref a) e.call).runOn ⟨s, notes⟩ = (.ok (.ref a), ⟨t, notes⟩) := by
  obtain ⟨new, p, u, hrun, hmade, hkind, hnew⟩ := exists_toRow exact hrow
  have hu : u.Arranged exact a l rows := h.rowMade hmade
  have hmembers : ∀ v ∈ e.applied rows new, u.kind? v = some .tableRow := by
    intro v hv
    rcases RowEdit.mem_applied hv with rfl | hold
    · exact hkind
    · exact hu.members v hold
  refine ⟨new, u.put l (.sequence .list (e.applied rows new)), ?_, ?_, hu.setRows hmembers,
    (hmade.edited l).trans (Store.edited_put_list hu.listed), fun notes => ?_⟩
  · rw [RowEdit.result, if_pos he, hrun]
  · exact hnew.imp_right fun ⟨hother, hp, hfresh⟩ => ⟨hother, p, hp, hfresh⟩
  · have hout := runOn_edit_admitted h he notes fun found after hfound => by
      rw [hrun] at hfound
      cases hfound
      exact hu
    rw [hout, hrun]
    rfl

/-- Rows stay arranged through an edit, and are those of the plain list. -/
theorem arranged_edit (h : s.Arranged exact a l rows) (e : RowEdit) (notes : List Note) :
    ((call (.ref a) e.call).runOn ⟨s, notes⟩).2.store.Arranged exact a l (e.result s rows) ∧
      s.RowsEdited ((call (.ref a) e.call).runOn ⟨s, notes⟩).2.store l := by
  by_cases he : e.Admits rows.length
  · by_cases hrow : s.Convertible e.row
    · obtain ⟨new, t, hresult, _, ht, hedited, hrun⟩ := exists_edit_made h he hrow
      rw [hrun, hresult]
      exact ⟨ht, hedited⟩
    · obtain ⟨f, _, hresult, hrun⟩ := exists_edit_refused h he hrow
      rw [hrun, hresult]
      exact ⟨h, .refl s l⟩
  · rw [runOn_edit_absent h he notes, RowEdit.result, if_neg he]
    exact ⟨h, .refl s l⟩

end Change

namespace Rows

theorem le_foldl_max (best : Int) (ns : List Int) : best ≤ ns.foldl max best := by
  induction ns generalizing best with
  | nil => exact Int.le_refl best
  | cons n ns ih =>
    calc best ≤ max best n := Int.le_max_left best n
      _ ≤ ns.foldl max (max best n) := ih (max best n)

theorem greatest_nonneg {ns : List Int} (h : ∀ n ∈ ns, 0 ≤ n) : 0 ≤ greatest ns := by
  cases ns with
  | nil => exact Int.le_refl 0
  | cons n ns => exact Int.le_trans (h n List.mem_cons_self) (le_foldl_max n ns)

end Rows

namespace Store

/-- The number of cells of a row. -/
def cellCount (s : Store) (v : Value) : Nat := ((s.list? ((s.field? v "cells").getD .none)).getD []).length

/-- Whether a row is ended by a terminator. -/
def isTerminated (s : Store) (v : Value) : Bool := !s.isTrue ((s.field? v "skip_terminator").getD .none)

/-- The most cells that one of the rows has that are ended by terminators. -/
def mostCells (s : Store) (rows : List Value) : Nat := ((rows.filter s.isTerminated).map s.cellCount).foldr max 0

variable {s : Store} {exact : Prop} {a l : Ref} {rows : List Value} {v : Value}

/-- An exact row records its cells if a terminator ends it. -/
theorem Arranged.columns_of_exact (h : s.Arranged exact a l rows) (hexact : exact)
    (hv : s.kind? v = some .tableRow) :
    s.field? v "columns" = some (if s.isTerminated v then .int (s.cellCount v) else .none) := by
  obtain ⟨r, fields, rfl, hcell⟩ := kind?_eq_some.mp hv
  obtain ⟨q, items, hrow⟩ := h.row r fields hcell
  obtain ⟨columns, hcolumns, _⟩ := hrow.columns
  obtain ⟨skip, hskip, hcount⟩ := hrow.exactly hexact
  have hskipped : s.isTrue (.atom skip) = skip.isTrue := congrArg Datum.isTrue (Carried.datumTo_atom s s.depth skip)
  have hterminated : s.isTerminated (.ref r) = !skip.isTrue := by
    rw [isTerminated, fieldIn_of_cell hcell, hskip, hskipped]
  have hcells : s.cellCount (.ref r) = items.length := by
    have hlist : s.list? (.ref q) = some items := list?_eq_some.mpr ⟨q, rfl, hrow.list⟩
    rw [cellCount, fieldIn_of_cell hcell, hrow.cells, hlist, Option.getD_some]
  rw [Cell.fieldIn, hcolumns, Option.getD_some] at hcount
  rw [field?_of_cell hcell, hcolumns, hcount, hterminated, hcells]
  cases skip.isTrue <;> rfl

theorem Arranged.width_of_exact (h : s.Arranged exact a l rows) (hexact : exact) (hv : s.kind? v = some .tableRow) :
    s.width v = if s.isTerminated v then (s.cellCount v : Int) else 0 := by
  rw [width, h.columns_of_exact hexact hv]
  cases s.isTerminated v <;> rfl

/-- The columns of exact rows are as many as the most cells of one that a terminator ends. -/
theorem Arranged.columnCount_of_exact (h : s.Arranged exact a l rows) (hexact : exact) :
    s.columnCount rows = s.mostCells rows := by
  have hwidth (v : Value) (hv : v ∈ rows) : s.width v = if s.isTerminated v then (s.cellCount v : Int) else 0 :=
    h.width_of_exact hexact (h.members v hv)
  have hnonneg : 0 ≤ s.columnCount rows := by
    apply Rows.greatest_nonneg
    intro n hn
    obtain ⟨v, hv, rfl⟩ := List.mem_map.mp hn
    rw [hwidth v hv]
    split_ifs
    · exact Int.natCast_nonneg _
    · exact Int.le_refl 0
  have hmost : (s.columnCount rows).toNat = s.mostCells rows := by
    rw [columnCount, Rows.toNat_greatest, mostCells]
    clear h hnonneg
    induction rows with
    | nil => rfl
    | cons v rows ih =>
      have hrest := ih fun w hw => hwidth w (List.mem_cons_of_mem v hw)
      rw [List.map_cons, List.map_cons, List.foldr_cons, hrest, hwidth v List.mem_cons_self, List.filter_cons]
      cases s.isTerminated v with
      | true => simp
      | false => simp
  omega

theorem cellCount_le_mostCells (hv : v ∈ rows) (hterminated : s.isTerminated v = true) :
    s.cellCount v ≤ s.mostCells rows := by
  have hmem : s.cellCount v ∈ (rows.filter s.isTerminated).map s.cellCount :=
    List.mem_map_of_mem (List.mem_filter.mpr ⟨hv, hterminated⟩)
  exact List.le_max_of_le' 0 hmem (Nat.le_refl _)

end Store

/-- The columns of a table of exact rows are counted as the most cells of one that a terminator ends. -/
theorem Change.runOn_numberColumns_exact {s : Store} {exact : Prop} {a l : Ref} {rows : List Value}
    (h : s.Arranged exact a l rows) (hexact : exact) (notes : List Note) :
    (numberColumns (.ref a)).runOn ⟨s, notes⟩ = (.ok (.int (s.mostCells rows)), ⟨s, notes⟩) := by
  obtain ⟨d, hrun, hcount, hd⟩ := exists_numberColumns (h.tabulates rfl)
  obtain ⟨n, rfl⟩ : ∃ n : Int, d = .int n := by
    rcases hd with rfl | ⟨v, hv, columns, hcolumns, rfl⟩
    · exact ⟨0, rfl⟩
    · rw [h.columns_of_exact hexact (h.members v hv)] at hcolumns
      obtain rfl := Option.some.inj hcolumns
      cases s.isTerminated v with
      | false => exact ⟨0, by rw [Store.datum, if_neg (by decide), Value.none, Store.Carried.datumTo_atom]; rfl⟩
      | true =>
        refine ⟨s.cellCount v, ?_⟩
        rw [Store.datum, if_pos rfl, Value.int, Store.Carried.datumTo_atom]
        exact Rows.asked_int _
  obtain rfl : n = s.mostCells rows := (Option.some.inj hcount).trans (h.columnCount_of_exact hexact)
  exact hrun notes

/-- What a caller does to the rows of a table, starting from some rows in a store: values are made that are no rows,
and rows by hand, any value is told to add a cell, and the table is edited, with any arguments. The rows are followed
by a plain list. -/
inductive RowRun (exact : Prop) (a : Ref) (s : Store) (start : List Value) : Store → List Value → Prop
  | start : RowRun exact a s start s start
  | value {t : Store} {rows : List Value} (run : RowRun exact a s start t rows) (c : Cell)
      (other : ∀ fields, c ≠ .object .tableRow fields) : RowRun exact a s start (t.alloc c).1 rows
  | row {t : Store} {rows : List Value} (run : RowRun exact a s start t rows) (given : List (String × Value))
      (notes : List Note) (columns : ((given.lookup "columns").getD .none).IsCount)
      (exactly : exact → (given.lookup "columns").getD .none = .none ∧
        ∃ skip : Atom, (given.lookup "skip_terminator").getD (.bool false) = .atom skip) :
      RowRun exact a s start ((Change.instantiate .tableRow given).runOn ⟨t, notes⟩).2.store rows
  | item {t : Store} {rows : List Value} (run : RowRun exact a s start t rows) (v x : Value) (notes : List Note) :
      RowRun exact a s start ((Change.call v (.pushItem x)).runOn ⟨t, notes⟩).2.store rows
  | edit {t : Store} {rows : List Value} (run : RowRun exact a s start t rows) (e : RowEdit) (notes : List Note) :
      RowRun exact a s start ((Change.call (.ref a) e.call).runOn ⟨t, notes⟩).2.store (e.result t rows)

namespace RowRun

variable {s t : Store} {exact : Prop} {a l : Ref} {start rows : List Value} {settings : ColumnSettings Alignment}
  {usual : Alignment}

/-- Through a run the rows stay arranged, and are those of the plain list. -/
theorem arranged (run : RowRun exact a s start t rows) (h : s.Arranged exact a l start) :
    t.Arranged exact a l rows ∧ s.RowsEdited t l := by
  induction run with
  | start => exact ⟨h, .refl s l⟩
  | @value u rows run c other ih =>
    obtain ⟨ht, hedited⟩ := ih
    have hmade : u.RowMade (u.alloc c).1 exact ⟨0⟩ := (Store.quiet_alloc u other).rowMade ⟨0⟩
    exact ⟨ht.rowMade hmade, hedited.trans (hmade.edited l)⟩
  | row run given notes columns exactly ih =>
    obtain ⟨ht, hedited⟩ := ih
    obtain ⟨p, hmade⟩ := Change.exists_instantiateRow _ columns exactly notes
    exact ⟨ht.rowMade hmade, hedited.trans (hmade.edited l)⟩
  | item run v x notes ih =>
    obtain ⟨ht, hedited⟩ := ih
    obtain ⟨hnext, hstep⟩ := Change.arranged_pushItem ht v x notes
    exact ⟨hnext, hedited.trans hstep⟩
  | edit run e notes ih =>
    obtain ⟨ht, hedited⟩ := ih
    obtain ⟨hnext, hstep⟩ := Change.arranged_edit ht e notes
    exact ⟨hnext, hedited.trans hstep⟩

end RowRun

namespace Change

variable {s t : Store} {a l : Ref} {rows : List Value} {settings : ColumnSettings Alignment} {usual : Alignment}

/-- Whatever is done to an empty table, its rows are those of the plain list, its columns as many as the most cells of
a row that a terminator ends, and typed settings give one letter for each. A further edit is refused if there is no
such position, and else if its argument cannot be made a row, and then nothing has changed. -/
theorem rows_edited (h : s.Arranged True a l []) (hset : s.Aligns a l settings usual)
    (run : RowRun True a s [] t rows) :
    t.list? ((t.field? (.ref a) "rows").getD .none) = some rows ∧
    (∀ notes, (numberColumns (.ref a)).runOn ⟨t, notes⟩ = (.ok (.int (t.mostCells rows)), ⟨t, notes⟩)) ∧
    (∀ alignments, settings = .typed alignments → ∃ text, text.length = t.mostCells rows ∧
      ∀ notes, (columnSpec (.ref a)).runOn ⟨t, notes⟩ = (.ok (.text text), ⟨t, notes⟩)) ∧
    (∀ v ∈ rows, t.isTerminated v = true → t.cellCount v ≤ t.mostCells rows) ∧
    ∀ e : RowEdit,
      (¬e.Admits rows.length → ∀ notes, (call (.ref a) e.call).runOn ⟨t, notes⟩ =
        (.error (.rowOutOfRange (toString (e.position?.getD 0)) rows.length), ⟨t, notes⟩)) ∧
      (e.Admits rows.length → ¬t.Convertible e.row → ∃ f : Fault, f.isRowRefusal = true ∧
        ∀ notes, (call (.ref a) e.call).runOn ⟨t, notes⟩ = (.error f, ⟨t, notes⟩)) ∧
      (e.Admits rows.length → t.Convertible e.row → ∃ new u,
        (t.kind? e.row = some .tableRow ∧ new = e.row ∨
          t.kind? e.row ≠ some .tableRow ∧ ∃ p, new = .ref p ∧ t.cells.size ≤ p.index) ∧
        u.list? ((u.field? (.ref a) "rows").getD .none) = some (e.applied rows new) ∧
        ∀ notes, (call (.ref a) e.call).runOn ⟨t, notes⟩ = (.ok (.ref a), ⟨u, notes⟩)) := by
  obtain ⟨ht, hedited⟩ := run.arranged h
  have hset' := hset.edited h.table hedited
  refine ⟨ht.list?, runOn_numberColumns_exact ht trivial, fun alignments htyped => ?_,
    fun v hv hterminated => Store.cellCount_le_mostCells hv hterminated,
    fun e => ⟨fun he notes => runOn_edit_absent ht he notes, fun he hrow => ?_, fun he hrow => ?_⟩⟩
  · subst htyped
    refine ⟨Columns.letters alignments usual (t.mostCells rows), Columns.length_letters _ _ _, fun notes => ?_⟩
    have hspec := runOn_columnSpec ht hset' notes
    rw [ht.columnCount_of_exact trivial, Int.toNat_natCast] at hspec
    exact hspec
  · obtain ⟨f, hf, _, hrun⟩ := exists_edit_refused ht he hrow
    exact ⟨f, hf, hrun⟩
  · obtain ⟨new, u, _, hnew, hu, _, hrun⟩ := exists_edit_made ht he hrow
    exact ⟨new, u, hnew, hu.list?, hrun⟩

/-- An empty table, the last but one of these objects, and a list of two texts. -/
def emptyTable : Store :=
  ⟨#[.sequence .list [], .sequence .list [], .object .typedSettings [("columns", .ref ⟨1⟩)],
    .object .columnSettings [("alignment", .atom (.member (.alignment .left)))],
    .object .table [("rows", .ref ⟨0⟩), ("column_settings", .ref ⟨2⟩), ("default_column_settings", .ref ⟨3⟩)],
    .sequence .list [.text "a", .text "b"]], 0⟩

theorem emptyTable_no_row (r : Ref) (fields : List (String × Value)) :
    emptyTable.cell? r ≠ some (.object .tableRow fields) := by
  intro hcell
  have hmem : Cell.object .tableRow fields ∈ emptyTable.cells := Array.mem_of_getElem? hcell
  simp [emptyTable] at hmem

theorem emptyTable_arranged (exact : Prop) : emptyTable.Arranged exact ⟨4⟩ ⟨0⟩ [] where
  table := rfl
  place := rfl
  listed := rfl
  members := by simp
  row r fields hcell := absurd hcell (emptyTable_no_row r fields)
  own := by
    rintro p r q ⟨fields, hcell, _⟩
    exact absurd hcell (emptyTable_no_row p fields)
  apart := by
    rintro r ⟨fields, hcell, _⟩
    exact emptyTable_no_row r fields hcell

theorem emptyTable_aligns : emptyTable.Aligns ⟨4⟩ ⟨0⟩ (.typed []) .left where
  columns := by
    have hlist : emptyTable.cell? ⟨1⟩ = some (.sequence .list []) := rfl
    refine .typed rfl rfl hlist (by decide) ?_ .nil
    rintro r ⟨fields, hcell, _⟩
    exact emptyTable_no_row r fields hcell
  standard := ⟨⟨3⟩, _, rfl, rfl, rfl⟩

/-- A row that gets a third cell stands in a table twice. -/
theorem rows_edited_twice : emptyTable.Arranged True ⟨4⟩ ⟨0⟩ [] ∧ emptyTable.Aligns ⟨4⟩ ⟨0⟩ (.typed []) .left ∧
    ∃ t rows, RowRun True ⟨4⟩ emptyTable [] t rows ∧ rows = [.ref ⟨7⟩, .ref ⟨7⟩] ∧
      (numberColumns (.ref ⟨4⟩)).runOn ⟨t, []⟩ = (.ok (.int (t.mostCells rows)), ⟨t, []⟩) ∧ t.mostCells rows = 3 := by
  have harranged := emptyTable_arranged True
  have run : RowRun True ⟨4⟩ emptyTable [] _ _ :=
    .edit (.item (.edit .start (.push (.ref ⟨5⟩)) []) (.ref ⟨7⟩) (.text "c") []) (.insert 0 (.ref ⟨7⟩)) []
  exact ⟨harranged, emptyTable_aligns, _, _, run, rfl, (rows_edited harranged emptyTable_aligns run).2.1 [], rfl⟩

/-- A table, the last but one of these objects, whose rows are in the list of its settings, and a list of one text. -/
def sharedList : Store :=
  ⟨#[.sequence .list [], .object .typedSettings [("columns", .ref ⟨0⟩)],
    .object .columnSettings [("alignment", .atom (.member (.alignment .left)))],
    .object .table [("rows", .ref ⟨0⟩), ("column_settings", .ref ⟨1⟩), ("default_column_settings", .ref ⟨2⟩)],
    .sequence .list [.text "a"]], 0⟩

/-- A row that comes into the list of the settings has no alignment, so the one column has no letter. -/
theorem columnSpec_sharedList : ∃ t, (call (.ref ⟨3⟩) (.pushRow (.ref ⟨4⟩))).runOn ⟨sharedList, []⟩ =
      (.ok (.ref ⟨3⟩), ⟨t, []⟩) ∧ (numberColumns (.ref ⟨3⟩)).runOn ⟨t, []⟩ = (.ok (.int 1), ⟨t, []⟩) ∧
    (columnSpec (.ref ⟨3⟩)).runOn ⟨t, []⟩ = (.error (.noAttribute (.value "TableRow") "alignment"), ⟨t, []⟩) :=
  ⟨_, rfl, rfl, rfl⟩

end Change

end Manuscript
