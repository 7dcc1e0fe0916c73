import Manuscript.Emission
import Manuscript.Proofs.Regular
/-!
# The columns of a table

A table has as many columns as the row that asks for the most. Its specification has a letter for each. What
is no row asks for no number of columns, so a table with anything else in its rows has no specification.
-/
namespace Manuscript

namespace Columns

/-- The letters of `n` columns. Past the given ones all columns are aligned like the last of them. -/
def letters (given : List Alignment) (standard : Alignment) (n : Nat) : String :=
  String.join ((List.range n).map fun i => (given[i]?.getD (given.getLast?.getD standard)).code)

/-- The alignment of a column. What is no alignment has the standard one. -/
def alignment : Column → Alignment
  | .aligned a => a
  | _ => .left

theorem effective_map {α β : Type} (f : α → β) (given : List α) (standard : α) (n : Nat) :
    effective (given.map f) (f standard) n = (effective given standard n).map f := by
  have hbeyond : beyond (given.map f) (f standard) = f (beyond given standard) := by
    simp only [beyond, List.getLast?_map]
    cases given.getLast? <;> rfl
  rw [effective, effective, padded, padded, hbeyond, List.map_take, List.map_append,
    List.map_replicate, List.length_map]

theorem effective_eq_map {α : Type} (given : List α) (standard : α) (n : Nat) :
    effective given standard n = (List.range n).map fun i => given[i]?.getD (beyond given standard) := by
  apply List.ext_getElem?
  intro i
  rw [getElem?_effective, List.getElem?_map]
  by_cases h : i < n
  · rw [if_pos h, List.getElem?_range h]
    rfl
  · rw [if_neg h, List.getElem?_eq_none (by simpa using h)]
    rfl

/-- Alignments give a specification of one letter for each column. -/
theorem spec_aligned (given : List Alignment) (standard : Alignment) (n : Int) :
    spec (.typed (given.map .aligned)) (.aligned standard) (.int n) =
      .ok (.text (letters given standard n.toNat)) := by
  have hcodes : codes (effective (given.map .aligned) (.aligned standard) n.toNat) =
      .ok (letters given standard n.toNat) := by
    rw [effective_map, codes_aligned, effective_eq_map, List.map_map]
    rfl
  have hspec : spec (.typed (given.map .aligned)) (.aligned standard) (.int n) =
      (codes (effective (given.map .aligned) (.aligned standard) n.toNat)).bind fun text =>
        .ok (.text text) := rfl
  rw [hspec, hcodes]
  rfl

end Columns

namespace Rows

theorem toNat_foldl_max (best : Int) (ns : List Int) :
    (ns.foldl max best).toNat = max best.toNat ((ns.map Int.toNat).foldr max 0) := by
  induction ns generalizing best with
  | nil => simp
  | cons n ns ih =>
    rw [List.foldl_cons, ih, List.map_cons, List.foldr_cons]
    omega

theorem toNat_greatest (ns : List Int) : (greatest ns).toNat = (ns.map Int.toNat).foldr max 0 := by
  cases ns with
  | nil => rfl
  | cons n ns => exact toNat_foldl_max n ns

/-- Something that records no columns ends the count, wherever it stands among the rows. -/
theorem widestFrom_error {P : Fault → Prop} {records : List (Except Fault Datum)}
    (h : ∀ r ∈ records, (∃ d n, r = .ok d ∧ asked d = .int n) ∨ ∃ f, r = .error f ∧ P f)
    {f : Fault} (hf : .error f ∈ records) (best : Int) :
    ∃ f, (widestFrom (.int best) records).2 = .error f ∧ P f := by
  induction records generalizing best with
  | nil => cases hf
  | cons r records ih =>
    rcases h r List.mem_cons_self with ⟨d, n, rfl, hn⟩ | ⟨g, rfl, hg⟩
    · have hrest : .error f ∈ records := by simpa using hf
      obtain ⟨g, hg, hP⟩ := ih (fun s hs => h s (List.mem_cons_of_mem _ hs)) hrest (max best n)
      refine ⟨g, ?_, hP⟩
      simpa only [widestFrom, hn, wider_int] using hg
    · exact ⟨g, rfl, hg⟩

theorem widest_error {P : Fault → Prop} {records : List (Except Fault Datum)}
    (h : ∀ r ∈ records, (∃ d n, r = .ok d ∧ asked d = .int n) ∨ ∃ f, r = .error f ∧ P f)
    {f : Fault} (hf : .error f ∈ records) : ∃ f, (widest records).2 = .error f ∧ P f := by
  cases records with
  | nil => cases hf
  | cons r records =>
    rcases h r List.mem_cons_self with ⟨d, n, rfl, hn⟩ | ⟨g, rfl, hg⟩
    · have hrest : .error f ∈ records := by simpa using hf
      simp only [widest, hn]
      exact widestFrom_error (fun s hs => h s (List.mem_cons_of_mem _ hs)) hrest n
    · exact ⟨g, rfl, hg⟩

end Rows

namespace Tree

/-- The number of columns that a row asks for. -/
def columnsAsked : Tree → Nat
  | tableRow row => row.width.toNat
  | _ => 0

/-- The specification that a table is headed by. -/
def columnText (rows : List Tree) (settings : ColumnSettings Column) (standard : Column) : String :=
  match settings with
  | .raw spec => spec.printed
  | .typed given => Columns.letters (given.map Columns.alignment) (Columns.alignment standard)
      ((rows.map columnsAsked).foldr max 0)
  | _ => ""

theorem exists_rows {strays : Prop} {rows : List Tree} (h : ∀ t ∈ rows, t.Regular strays)
    (hk : ∀ t ∈ rows, t.kind? = some .tableRow) : ∃ rs : List Row, rows = rs.map tableRow := by
  induction rows with
  | nil => exact ⟨[], rfl⟩
  | cons t rows ih =>
    obtain ⟨row, rfl⟩ := (h t List.mem_cons_self).exists_tableRow (hk t List.mem_cons_self)
    obtain ⟨rs, rfl⟩ := ih (fun t ht => h t (List.mem_cons_of_mem _ ht))
      fun t ht => hk t (List.mem_cons_of_mem _ ht)
    exact ⟨row :: rs, rfl⟩

/-- The columns of rows are as many as the most that a row asks for. -/
theorem columnSpec_rows (rs : List Row) (given : List Alignment) (standard : Alignment) :
    columnSpec (rs.map tableRow) (.typed (given.map .aligned)) (.aligned standard) =
      .ok (.text (columnText (rs.map tableRow) (.typed (given.map .aligned)) (.aligned standard))) := by
  have hn : ((rs.map tableRow).map columnsAsked).foldr max 0 =
      (Rows.greatest (rs.map Row.width)).toNat := by
    rw [Rows.toNat_greatest, List.map_map, List.map_map]
    rfl
  have hgiven : (given.map Column.aligned).map Columns.alignment = given := by
    rw [List.map_map]
    exact List.map_id given
  have hspec : columnSpec (rs.map tableRow) (.typed (given.map .aligned)) (.aligned standard) =
      Columns.spec (.typed (given.map .aligned)) (.aligned standard)
        (.int (Rows.greatest (rs.map Row.width))) := by
    rw [columnSpec, numberColumns_tableRow]
    rfl
  rw [hspec, Columns.spec_aligned]
  simp only [columnText, hgiven, hn, Columns.alignment]

theorem columns_node {t : Tree} (h : t.OfNodes) :
    (t.kind? = some .tableRow ∧ ∃ d n, t.columns = .ok d ∧ Rows.asked d = .int n) ∨
      (t.kind? ≠ some .tableRow ∧ t.columns = .error (.noAttribute (.value t.typeName) "columns")) := by
  cases h with
  | tableRow row =>
    obtain ⟨d, hd, hw⟩ := exists_columns_tableRow row
    exact .inl ⟨rfl, d, row.width, hd, hw⟩
  | foreign allowed => exact allowed.elim
  | _ => exact .inr ⟨by simp [kind?], rfl⟩

/-- Among other nodes than rows columns cannot be counted. -/
theorem columnSpec_stray {rows : List Tree} (h : ∀ t ∈ rows, t.OfNodes)
    (hk : ¬∀ t ∈ rows, t.kind? = some .tableRow) (given : List Column) (standard : Column) :
    ∃ f, columnSpec rows (.typed given) standard = .error f ∧
      ∃ c ∈ rows, c.kind? ≠ some .tableRow ∧ f = .noAttribute (.value c.typeName) "columns" := by
  -- rows before the first stray one only move the greatest number, which stays a whole number
  have hrecords : ∀ r ∈ rows.map columns, (∃ d n, r = .ok d ∧ Rows.asked d = .int n) ∨
      ∃ f, r = .error f ∧
        ∃ c ∈ rows, c.kind? ≠ some .tableRow ∧ f = .noAttribute (.value c.typeName) "columns" := by
    intro r hr
    obtain ⟨t, ht, rfl⟩ := List.mem_map.mp hr
    rcases columns_node (h t ht) with ⟨-, hrow⟩ | ⟨hstray, hf⟩
    · exact .inl hrow
    · exact .inr ⟨_, hf, t, ht, hstray, rfl⟩
  obtain ⟨t, ht, hstray⟩ : ∃ t ∈ rows, t.kind? ≠ some .tableRow := by simpa using hk
  obtain ⟨f, hf⟩ : ∃ f, t.columns = .error f := by
    rcases columns_node (h t ht) with ⟨hrow, -⟩ | ⟨-, hf⟩
    · exact absurd hrow hstray
    · exact ⟨_, hf⟩
  obtain ⟨g, hg, hfault⟩ := Rows.widest_error hrecords (List.mem_map.mpr ⟨t, ht, hf⟩)
  refine ⟨g, ?_, hfault⟩
  rw [columnSpec, numberColumns, hg]
  rfl

end Tree

end Manuscript
