import Manuscript.Proofs.Columns
import Manuscript.Proofs.Conversions
import Manuscript.Proofs.Alike
/-!
# Tables read from a store

What a table in a store tells of its columns, when its rows are in a list and each of them records a whole number
of columns or none: how many columns there are, what they are set to, and their specification. To read this changes
nothing.
-/
namespace Manuscript

/-- What a row may record as its columns: a whole number, which a truth value stands for too, or none. -/
def Value.IsCount (v : Value) : Prop := v = .none ∨ ∃ n : Int, v.asInt? = some n

/-- The number that is recorded. None stands for zero. -/
def Value.count (v : Value) : Int := v.asInt?.getD 0

theorem Atom.compared_of_asInt? {x y : Atom} {i j : Int} (hx : x.asInt? = some i) (hy : y.asInt? = some j)
    (r : Relation) : x.compared r y = Atom.compared r (.int i) (.int j) := by
  have hquantity {a : Atom} {n : Int} (h : a.asInt? = some n) : a.quantity? = some (.ofInt n) := by
    cases a with
    | int m | bool b =>
      obtain rfl := Option.some.inj h
      rfl
    | _ => cases h
  have horder : x.order? y = some (Atom.quantityOrder (.ofInt i) (.ofInt j)) := by
    unfold Atom.order?
    rw [hquantity hx, hquantity hy]
  rw [Atom.compared_int, Atom.compared, horder]

theorem Datum.compared_of_asInt? {x y : Datum} {i j : Int} (hx : x.asInt? = some i) (hy : y.asInt? = some j)
    (r : Relation) : x.compared r y = Datum.compared r (.int i) (.int j) := by
  cases x with
  | atom a =>
    cases y with
    | atom b =>
      simp only [Datum.int, Datum.compared]
      exact Atom.compared_of_asInt? hx hy r
    | _ => cases hy
  | _ => cases hx

namespace Columns

variable {n : Datum} {m : Int}

/-- A column is there if its number is not negative and below the number of columns. -/
theorem has_of_asInt? (hn : n.asInt? = some m) (c : Int) : has n (.int c) = .ok (decide (0 ≤ c ∧ c < m)) := by
  have hnot : Datum.compared .atMost (.int 0) (.int c) = .ok (decide (0 ≤ c)) := Atom.compared_atMost_int 0 c
  have hless : Datum.compared .less (.int c) (.int m) = .ok (decide (c < m)) := Atom.compared_less_int c m
  rw [has, Datum.compared_of_asInt? rfl hn, hnot, hless]
  by_cases h : 0 ≤ c
  · simp [h, bind, Except.bind]
  · simp [h, bind, Except.bind, pure, Except.pure]

theorem count_of_asInt? (hn : n.asInt? = some m) : count n = .ok m.toNat := by
  rw [count, hn]

theorem length_letters (given : List Alignment) (standard : Alignment) (n : Nat) :
    (letters given standard n).length = n := by
  have hcode : String.length ∘ (fun i : Nat => (given[i]?.getD (given.getLast?.getD standard)).code) = fun _ => 1 := by
    funext i
    simp only [Function.comp_apply]
    cases given[i]?.getD (given.getLast?.getD standard) <;> rfl
  rw [letters, String.length_join, List.map_map, hcode, List.map_const', List.length_range]
  simp

/-- The letters of fewer columns are the first ones of more. -/
theorem letters_prefix (given : List Alignment) (standard : Alignment) {m n : Nat} (h : m ≤ n) :
    (letters given standard m).toList <+: (letters given standard n).toList := by
  obtain ⟨k, rfl⟩ := Nat.exists_eq_add_of_le h
  rw [letters, letters, List.range_add, List.map_append, String.join_append, String.toList_append]
  exact List.prefix_append _ _

end Columns

namespace Rows

variable {α : Type} {record : α → Datum} {width : α → Int}

theorem wider_of_asInt? {x y : Datum} {i j : Int} (hx : x.asInt? = some i) (hy : y.asInt? = some j) :
    ∃ d, wider x y = .ok d ∧ d.asInt? = some (max i j) ∧ (d = x ∨ d = y) := by
  have hgreater : Datum.compared .greater (.int j) (.int i) = .ok (decide (i < j)) :=
    Atom.compared_greater_int j i
  rw [wider, Datum.compared_of_asInt? hy hx, hgreater]
  by_cases h : i < j
  · refine ⟨y, by simp [h], ?_, .inr rfl⟩
    rw [hy, Int.max_eq_right (Int.le_of_lt h)]
  · refine ⟨x, by simp [h], ?_, .inl rfl⟩
    rw [hx, Int.max_eq_left (Int.not_lt.mp h)]

/-- Where rows ask for whole numbers of columns, all of them are looked at, and the greatest number is one that
was there before or that a row asks for. -/
theorem widestFrom_whole {rows : List α} (h : ∀ v ∈ rows, (asked (record v)).asInt? = some (width v))
    {best : Datum} {b : Int} (hb : best.asInt? = some b) :
    ∃ d, widestFrom best (rows.map fun v => .ok (record v)) = (rows.length, .ok d) ∧
      d.asInt? = some ((rows.map width).foldl max b) ∧ (d = best ∨ ∃ v ∈ rows, d = asked (record v)) := by
  induction rows generalizing best b with
  | nil => exact ⟨best, rfl, hb, .inl rfl⟩
  | cons v rows ih =>
    obtain ⟨next, hnext, hvalue, hfrom⟩ := wider_of_asInt? hb (h v List.mem_cons_self)
    obtain ⟨d, hd, hgreatest, hmem⟩ := ih (fun w hw => h w (List.mem_cons_of_mem v hw)) hvalue
    refine ⟨d, ?_, hgreatest, ?_⟩
    · simp only [List.map_cons, widestFrom, hnext, hd, List.length_cons]
    · rcases hmem with rfl | ⟨w, hw, rfl⟩
      · exact hfrom.imp_right fun hd => ⟨v, List.mem_cons_self, hd⟩
      · exact .inr ⟨w, List.mem_cons_of_mem v hw, rfl⟩

theorem widest_whole {rows : List α} (h : ∀ v ∈ rows, (asked (record v)).asInt? = some (width v)) :
    ∃ d, widest (rows.map fun v => .ok (record v)) = (rows.length, .ok d) ∧
      d.asInt? = some (greatest (rows.map width)) ∧ (d = .int 0 ∨ ∃ v ∈ rows, d = asked (record v)) := by
  cases rows with
  | nil => exact ⟨.int 0, rfl, rfl, .inl rfl⟩
  | cons v rows =>
    obtain ⟨d, hd, hgreatest, hmem⟩ :=
      widestFrom_whole (fun w hw => h w (List.mem_cons_of_mem v hw)) (h v List.mem_cons_self)
    refine ⟨d, ?_, hgreatest, .inr ?_⟩
    · simp only [List.map_cons, widest, hd, List.length_cons]
    · rcases hmem with rfl | ⟨w, hw, rfl⟩
      · exact ⟨v, List.mem_cons_self, rfl⟩
      · exact ⟨w, List.mem_cons_of_mem v hw, rfl⟩

end Rows

namespace ColumnSettings

variable {α : Type}

/-- The settings that stand in a list. Raw ones have none there, and what else may stand for settings is no list. -/
def given? : ColumnSettings α → Option (List α)
  | typed given => some given
  | raw _ => some []
  | _ => none

end ColumnSettings

namespace Store

/-- The number of columns that a row asks for. -/
def width (s : Store) (v : Value) : Int := ((s.field? v "columns").map Value.count).getD 0

/-- The most that one of some rows asks for. -/
def columnCount (s : Store) (rows : List Value) : Int := Rows.greatest (rows.map s.width)

/-- A row that records a whole number of columns or none. -/
def IsRow (s : Store) (v : Value) : Prop :=
  s.kind? v = some .tableRow ∧ ∃ columns, s.field? v "columns" = some columns ∧ columns.IsCount

/-- A table with its rows in a list, each of which records a whole number of columns or none, and what its columns
are set to. -/
structure Tabulates (s : Store) (a : Ref) (rows : List Value) (settings : ColumnSettings Value) (standard : Value) :
    Prop where
  kind : s.kind? (.ref a) = some .table
  listed : s.list? ((s.field? (.ref a) "rows").getD .none) = some rows
  counted : ∀ v ∈ rows, s.IsRow v
  settings : s.settingsOf ((s.field? (.ref a) "column_settings").getD .none) = settings
  standard : (s.field? (.ref a) "default_column_settings").getD .none = standard

variable {s : Store} {a r : Ref} {rows : List Value} {v standard : Value} {fields : List (String × Value)}

theorem asked_datum_of_isCount (h : v.IsCount) : (Rows.asked (s.datum v)).asInt? = some v.count := by
  rcases h with rfl | ⟨n, hn⟩
  · rw [Value.none, datum, Carried.datumTo_atom]
    rfl
  · cases v with
    | atom a =>
      have hasked : (Rows.asked (.atom a)).asInt? = a.asInt? := by
        cases a with
        | int m =>
          change (Rows.asked (.int m)).asInt? = _
          rw [Rows.asked_int]
          rfl
        | bool b => cases b <;> rfl
        | _ => cases hn
      rw [datum, Carried.datumTo_atom, hasked, Value.count, hn]
      exact hn
    | ref r => cases hn

theorem settingsOf_typedSettings {columns : List Value} (hcell : s.cell? r = some (.object .typedSettings fields))
    {l : Value} (hl : fields.lookup "columns" = some l) (hlist : s.list? l = some columns) :
    s.settingsOf (.ref r) = .typed columns := by
  obtain ⟨q, rfl, hq⟩ := list?_eq_some.mp hlist
  have hkind : s.kind? (.ref r) = some .typedSettings := kind?_eq_some.mpr ⟨r, fields, rfl, hcell⟩
  have hattribute : s.attribute? (.ref r) "columns" = some (.ref q) := by
    simp [attribute?, field?, target?, Value.ref?, hcell, hl]
  have htarget : s.target? (.ref q) = some (.sequence .list columns) := hq
  rw [settingsOf, hkind, hattribute]
  simp only [columnsOf, htarget, supply_of_list hlist]

theorem settingsOf_rawSettings (hcell : s.cell? r = some (.object .rawSettings fields)) :
    s.settingsOf (.ref r) = .raw (s.datum ((fields.lookup "spec").getD .none)) := by
  have hkind : s.kind? (.ref r) = some .rawSettings := kind?_eq_some.mpr ⟨r, fields, rfl, hcell⟩
  rw [settingsOf, hkind]
  simp only [field?, target?, Value.ref?, Option.bind_some, hcell]

theorem attribute?_of_isRow (h : s.IsRow v) (name : String) : s.attribute? v name = s.field? v name := by
  obtain ⟨r, fields, rfl, _⟩ := kind?_eq_some.mp h.1
  rfl

/-- Rows are counted to the end, and the number is zero or what one of them records. -/
theorem exists_widest (h : ∀ v ∈ rows, s.IsRow v) :
    ∃ d, Rows.widest (rows.map s.recordedColumns) = (rows.length, .ok d) ∧ d.asInt? = some (s.columnCount rows) ∧
      (d = .int 0 ∨ ∃ v ∈ rows, ∃ columns, s.field? v "columns" = some columns ∧ d = Rows.asked (s.datum columns)) := by
  let record (v : Value) : Datum := s.datum ((s.field? v "columns").getD .none)
  have hrecords : rows.map s.recordedColumns = rows.map fun v => .ok (record v) := by
    apply List.map_congr_left
    intro v hv
    obtain ⟨_, columns, hcolumns, _⟩ := h v hv
    simp [recordedColumns, attribute?_of_isRow (h v hv), hcolumns, record]
  have hwhole : ∀ v ∈ rows, (Rows.asked (record v)).asInt? = some (s.width v) := by
    intro v hv
    obtain ⟨_, columns, hcolumns, hcount⟩ := h v hv
    simpa [record, width, hcolumns] using asked_datum_of_isCount hcount
  obtain ⟨d, hd, hgreatest, hmem⟩ := Rows.widest_whole hwhole
  refine ⟨d, by rw [hrecords, hd], hgreatest, hmem.imp_right ?_⟩
  rintro ⟨v, hv, rfl⟩
  obtain ⟨_, columns, hcolumns, _⟩ := h v hv
  exact ⟨v, hv, columns, hcolumns, by simp [record, hcolumns]⟩

end Store

namespace Change

open Store (Tabulates)

variable {s : Store} {a : Ref} {rows : List Value} {settings : ColumnSettings Value} {standard : Value}

/-- The columns of a table are counted without a change, and the number is zero or what one of the rows records. -/
theorem exists_numberColumns (h : s.Tabulates a rows settings standard) :
    ∃ d, (∀ notes, (numberColumns (.ref a)).runOn ⟨s, notes⟩ = (.ok d, ⟨s, notes⟩)) ∧
      d.asInt? = some (s.columnCount rows) ∧
      (d = .int 0 ∨ ∃ v ∈ rows, ∃ columns, s.field? v "columns" = some columns ∧ d = Rows.asked (s.datum columns)) := by
  obtain ⟨d, hd, hcount, hmem⟩ := Store.exists_widest h.counted
  refine ⟨d, fun notes => ?_, hcount, hmem⟩
  rw [numberColumns, field, runOn_bind_of_ok (runOn_look _ _), runOn_bind_of_ok (runOn_look _ _),
    runOn_bind_of_ok (runOn_look _ _), Store.supply_of_list h.listed]
  simp only [hd, runOn_settle]

theorem runOn_columnSettings (h : s.Tabulates a rows settings standard) (notes : List Note) :
    (columnSettings (.ref a)).runOn ⟨s, notes⟩ = (.ok settings, ⟨s, notes⟩) := by
  rw [columnSettings, field, runOn_bind_of_ok (runOn_look _ _), runOn_look, h.settings]

theorem runOn_effectiveColumns {given : List Value} (h : s.Tabulates a rows (.typed given) standard)
    (notes : List Note) : (effectiveColumns (.ref a)).runOn ⟨s, notes⟩ =
      (.ok (Columns.effective given standard (s.columnCount rows).toNat), ⟨s, notes⟩) := by
  obtain ⟨d, hd, hcount, _⟩ := exists_numberColumns h
  rw [effectiveColumns, runOn_bind_of_ok (runOn_columnSettings h notes), runOn_bind_of_ok (hd notes),
    Columns.count_of_asInt? hcount, runOn_bind_of_ok (runOn_settle _ _), field, runOn_bind_of_ok (runOn_look _ _),
    runOn_settle, h.standard]
  rfl

/-- The specification of a table of aligned columns has a letter for each. -/
theorem runOn_columnSpec_typed {given : List Value} (h : s.Tabulates a rows (.typed given) standard)
    {alignments : List Alignment} (hgiven : given.map s.column = alignments.map .aligned) {usual : Alignment}
    (husual : s.column standard = .aligned usual) (notes : List Note) :
    (columnSpec (.ref a)).runOn ⟨s, notes⟩ =
      (.ok (.text (Columns.letters alignments usual (s.columnCount rows).toNat)), ⟨s, notes⟩) := by
  have hcodes : Columns.codes ((Columns.effective given standard (s.columnCount rows).toNat).map s.column) =
      .ok (Columns.letters alignments usual (s.columnCount rows).toNat) := by
    rw [← Columns.effective_map, hgiven, husual, Columns.effective_map, Columns.codes_aligned,
      Columns.effective_eq_map, List.map_map]
    rfl
  rw [columnSpec, runOn_bind_of_ok (runOn_columnSettings h notes), runOn_bind_of_ok (runOn_effectiveColumns h notes),
    runOn_bind_of_ok (runOn_look _ _), hcodes, runOn_bind_of_ok (runOn_settle _ _)]
  rfl

/-- A raw specification stands as it is, whatever the rows. -/
theorem runOn_columnSpec_raw {spec : Datum} (h : s.Tabulates a rows (.raw spec) standard) (notes : List Note) :
    (columnSpec (.ref a)).runOn ⟨s, notes⟩ = (.ok spec, ⟨s, notes⟩) := by
  rw [columnSpec, runOn_bind_of_ok (runOn_columnSettings h notes)]
  rfl

end Change

end Manuscript
