import Manuscript.Proofs.Confinement
import Manuscript.Proofs.ColumnReplacement
/-!
# Shared settings

Tables may share their column settings, as one object or as one list inside of two. To give a table other settings
writes to no such object: it makes new ones, and changes a field of that table alone. So whatever is done to the
settings of one table, all others are set as before.
-/
namespace Manuscript

namespace Store

open Cell (fieldIn)

/-- No reference in a store lacks a cell. -/
def Whole (s : Store) : Prop := ∀ c ∈ s.cells.toList, ∀ q ∈ c.refs, q.index < s.cells.size

instance (s : Store) : Decidable s.Whole :=
  inferInstanceAs (Decidable (∀ c ∈ s.cells.toList, ∀ q ∈ c.refs, q.index < s.cells.size))

/-- One store comes from another one by new cells, by going through iterators, and by other column settings of one
object. -/
structure Recolumned (s t : Store) (a : Ref) : Prop where
  size : s.cells.size ≤ t.cells.size
  others : ∀ r c, s.cell? r = some c → r ≠ a → c.isIterator = false → t.cell? r = some c
  iterators : ∀ r items, s.cell? r = some (.iterator items) → ∃ left, t.cell? r = some (.iterator left)
  object : ∀ kind fields, s.cell? a = some (.object kind fields) → ∃ changed,
    t.cell? a = some (.object kind changed) ∧
      ∀ name, name ≠ "column_settings" → changed.lookup name = fields.lookup name

/-- A table whose columns can be read again and again. Its rows are in a list, and what they record is not made of
other values. Its settings are in a list too, or are not made of other values either. -/
structure Readable (s : Store) (b : Ref) : Prop where
  kind : s.kind? (.ref b) = some .table
  rows : ∃ rows, s.list? ((s.field? (.ref b) "rows").getD .none) = some rows ∧
    ∀ v ∈ rows, ∀ columns, s.attribute? v "columns" = some columns → ∃ d, columns = .atom d
  settings : ∃ w, s.field? (.ref b) "column_settings" = some w ∧
    ((s.kind? w = some .rawSettings ∧ ∃ d, (s.field? w "spec").getD .none = .atom d) ∨
      (s.kind? w = some .typedSettings ∧
        ∃ columns given, s.field? w "columns" = some columns ∧ s.list? columns = some given))

variable {s t u : Store} {a b r : Ref} {v w : Value} {c : Cell} {kind : Kind} {fields : List (String × Value)}

theorem Whole.in_of_cell (h : s.Whole) (hc : s.cell? r = some c) (hw : w ∈ c.values) :
    w.In (·.index < s.cells.size) := by
  rintro q rfl
  exact h c (Array.mem_toList_iff.mpr (Array.mem_of_getElem? hc)) q (mem_refs.mpr hw)

theorem Whole.in_of_field (h : s.Whole) {name : String} (hw : s.field? v name = some w) :
    w.In (·.index < s.cells.size) := by
  unfold field? at hw
  split at hw
  · rename_i kind fields hcell
    cases v with
    | atom d => cases hcell
    | ref r =>
      obtain ⟨before, after, rfl, -⟩ := List.lookup_eq_some_iff.mp hw
      exact h.in_of_cell hcell (by simp [Cell.values])
  · cases hw

theorem Whole.in_of_field_getD (h : s.Whole) (v : Value) (name : String) :
    ((s.field? v name).getD .none).In (·.index < s.cells.size) := by
  cases hw : s.field? v name with
  | none => exact Value.in_none
  | some w => exact h.in_of_field hw

theorem Whole.in_of_attribute (h : s.Whole) {name : String} (hw : s.attribute? v name = some w) :
    w.In (·.index < s.cells.size) := by
  unfold attribute? at hw
  split at hw
  · obtain ⟨d, -, rfl⟩ := Option.map_eq_some_iff.mp hw
    exact Value.in_atom d
  · exact h.in_of_field hw

theorem Whole.in_of_list (h : s.Whole) {items : List Value} (hv : s.list? v = some items) (hw : w ∈ items) :
    w.In (·.index < s.cells.size) := by
  obtain ⟨r, rfl, hcell⟩ := list?_eq_some.mp hv
  exact h.in_of_cell hcell hw

theorem settingsOf_of_raw (h : s.kind? v = some .rawSettings) :
    s.settingsOf v = .raw (s.datum ((s.field? v "spec").getD .none)) := by
  rw [settingsOf, h]

theorem settingsOf_of_typed (h : s.kind? v = some .typedSettings) {columns : Value} {given : List Value}
    (hcolumns : s.field? v "columns" = some columns) (hlist : s.list? columns = some given) :
    s.settingsOf v = .typed given := by
  obtain ⟨r, fields, rfl, hcell⟩ := kind?_eq_some.mp h
  refine settingsOf_typedSettings hcell ?_ hlist
  simpa [field?, target?, Value.ref?, hcell] using hcolumns

theorem lookup_replaced {name other : String} (h : other ≠ name) (new : Value) (fields : List (String × Value)) :
    (fields.map fun e => if e.1 = name then (name, new) else e).lookup other = fields.lookup other := by
  induction fields with
  | nil => rfl
  | cons e fields ih =>
    obtain ⟨key, w⟩ := e
    by_cases hkey : key = name
    · have hne : (other == key) = false := by simpa [hkey] using h
      simp [List.lookup_cons, ← hkey, hne, ← ih]
    · simp [List.lookup_cons, hkey, ih]

theorem lookup_setField (h : s.cell? r = some (.object kind fields)) (name : String) (new : Value) :
    ∃ changed, s.setField (.ref r) name new = s.put r (.object kind changed) ∧
      ∀ other, other ≠ name → changed.lookup other = fields.lookup other := by
  simp only [setField, h]
  refine ⟨_, rfl, fun other hother => ?_⟩
  split_ifs
  · exact lookup_replaced hother new fields
  · have hne : (other == name) = false := by simpa using hother
    simp [List.lookup_append, List.lookup_cons, hne]

namespace Recolumned

theorem refl (s : Store) (a : Ref) : s.Recolumned s a where
  size := Nat.le_refl _
  others _ _ h _ _ := h
  iterators _ items h := ⟨items, h⟩
  object _ fields h := ⟨fields, h, fun _ _ => rfl⟩

theorem trans (h : s.Recolumned t a) (h' : t.Recolumned u a) : s.Recolumned u a where
  size := Nat.le_trans h.size h'.size
  others r c hr hne hc := h'.others r c (h.others r c hr hne hc) hne hc
  iterators r items hr := by
    obtain ⟨left, hleft⟩ := h.iterators r items hr
    exact h'.iterators r left hleft
  object kind fields ha := by
    obtain ⟨changed, hchanged, hsame⟩ := h.object kind fields ha
    obtain ⟨last, hlast, hagain⟩ := h'.object kind changed hchanged
    exact ⟨last, hlast, fun name hname => (hagain name hname).trans (hsame name hname)⟩

/-! ## Steps -/

theorem alloc (s : Store) (c : Cell) (a : Ref) : s.Recolumned (s.alloc c).1 a where
  size := by simp [Store.alloc]
  others _ _ h _ _ := cell?_alloc_of_some h c
  iterators _ items h := ⟨items, cell?_alloc_of_some h c⟩
  object _ fields h := ⟨fields, cell?_alloc_of_some h c, fun _ _ => rfl⟩

theorem put_iterator {items rest : List Value} (h : s.cell? r = some (.iterator items)) (a : Ref) :
    s.Recolumned (s.put r (.iterator rest)) a where
  size := by simp [put]
  others q c hq _ hc := (growsTo_put_iterator h).keeps q c hq hc
  iterators q given hq := by
    by_cases heq : q = r
    · exact ⟨rest, heq ▸ cell?_put_self s r _ (index_lt h)⟩
    · exact ⟨given, (cell?_put_of_ne s r q _ heq).trans hq⟩
  object kind fields ha := ⟨fields, (growsTo_put_iterator h).keeps a _ ha rfl, fun _ _ => rfl⟩

theorem taking (s : Store) (r a : Ref) : s.Recolumned (s.taking r) a := by
  unfold Store.taking
  split
  · rename_i items hcell
    exact put_iterator hcell a
  · exact refl s a

theorem takingAll (s : Store) (taken : List Ref) (a : Ref) : s.Recolumned (s.takingAll taken) a := by
  induction taken generalizing s with
  | nil => exact refl s a
  | cons r taken ih => exact (taking s r a).trans (ih (s.taking r))

theorem setField (s : Store) (a : Ref) (new : Value) :
    s.Recolumned (s.setField (.ref a) "column_settings" new) a := by
  cases hcell : s.cell? a with
  | none => simpa only [Store.setField, hcell] using refl s a
  | some c =>
    cases c with
    | object kind fields =>
      obtain ⟨changed, hset, hsame⟩ := lookup_setField hcell "column_settings" new
      rw [hset]
      refine ⟨by simp [put], fun q d hq hne _ => (cell?_put_of_ne s a q _ hne).trans hq, fun q items hq => ?_,
        fun k given hk => ?_⟩
      · have hne : q ≠ a := by
          rintro rfl
          simp [hcell] at hq
        exact ⟨items, (cell?_put_of_ne s a q _ hne).trans hq⟩
      · obtain ⟨rfl, rfl⟩ : kind = k ∧ fields = given := by simpa using hcell.symm.trans hk
        exact ⟨changed, cell?_put_self s a _ (index_lt hcell), hsame⟩
    | _ => simpa only [Store.setField, hcell] using refl s a

/-! ## What reads the same -/

theorem keeps_kind (h : s.Recolumned t a) (hv : s.kind? v = some kind) : t.kind? v = some kind := by
  obtain ⟨r, fields, rfl, hcell⟩ := kind?_eq_some.mp hv
  by_cases heq : r = a
  · subst heq
    obtain ⟨changed, hchanged, -⟩ := h.object kind fields hcell
    exact kind?_eq_some.mpr ⟨r, changed, rfl, hchanged⟩
  · exact kind?_eq_some.mpr ⟨r, fields, rfl, h.others r _ hcell heq rfl⟩

theorem keeps_list (h : s.Recolumned t a) (ha : s.kind? (.ref a) = some kind) {items : List Value}
    (hv : s.list? v = some items) : t.list? v = some items := by
  obtain ⟨r, rfl, hcell⟩ := list?_eq_some.mp hv
  obtain ⟨q, fields, hq, hobject⟩ := kind?_eq_some.mp ha
  obtain rfl := Value.ref.inj hq
  exact list?_eq_some.mpr ⟨r, rfl, h.others r _ hcell (object_ne_list hobject hcell).symm rfl⟩

/-- The cell of a reference that was there stays, or it is an iterator, or the object under change. -/
theorem cell_cases (h : s.Recolumned t a) (ha : s.kind? (.ref a) = some kind) (hr : r.index < s.cells.size) :
    t.cell? r = s.cell? r ∨
      (∃ items left, s.cell? r = some (.iterator items) ∧ t.cell? r = some (.iterator left)) ∨
      r = a ∧ ∃ fields changed, s.cell? r = some (.object kind fields) ∧ t.cell? r = some (.object kind changed) ∧
        ∀ name, name ≠ "column_settings" → changed.lookup name = fields.lookup name := by
  by_cases heq : r = a
  · subst heq
    obtain ⟨q, fields, hq, hcell⟩ := kind?_eq_some.mp ha
    obtain rfl := Value.ref.inj hq
    obtain ⟨changed, hchanged, hsame⟩ := h.object kind fields hcell
    exact .inr (.inr ⟨rfl, fields, changed, hcell, hchanged, hsame⟩)
  · obtain ⟨c, hc⟩ : ∃ c, s.cell? r = some c := ⟨_, Array.getElem?_eq_getElem hr⟩
    cases hiterator : c.isIterator with
    | false => exact .inl ((h.others r c hc heq hiterator).trans hc.symm)
    | true =>
      cases c with
      | iterator items =>
        obtain ⟨left, hleft⟩ := h.iterators r items hc
        exact .inr (.inl ⟨items, left, hc, hleft⟩)
      | _ => cases hiterator

theorem typeName (h : s.Recolumned t a) (ha : s.kind? (.ref a) = some kind) (hv : v.In (·.index < s.cells.size)) :
    t.typeName v = s.typeName v := by
  cases v with
  | atom d => rfl
  | ref r =>
    rcases h.cell_cases ha (hv r rfl) with hsame | ⟨items, left, hs, ht⟩ | ⟨-, fields, changed, hs, ht, -⟩
    · simp only [Store.typeName, hsame]
    · simp only [Store.typeName, hs, ht]
    · simp only [Store.typeName, hs, ht]

theorem lacking (h : s.Recolumned t a) (ha : s.kind? (.ref a) = some kind) (hv : v.In (·.index < s.cells.size))
    (name : String) : t.lacking v name = s.lacking v name := by
  cases v with
  | atom d => rfl
  | ref r => simp only [Store.lacking, h.typeName ha hv]

theorem field (h : s.Recolumned t a) (ha : s.kind? (.ref a) = some kind) (hv : v.In (·.index < s.cells.size))
    {name : String} (hname : v = .ref a → name ≠ "column_settings") : t.field? v name = s.field? v name := by
  cases v with
  | atom d => rfl
  | ref r =>
    rcases h.cell_cases ha (hv r rfl) with hsame | ⟨items, left, hs, ht⟩ | ⟨rfl, fields, changed, hs, ht, hsame⟩
    · simp only [field?, target?, Value.ref?, Option.bind_some, hsame]
    · simp only [field?, target?, Value.ref?, Option.bind_some, hs, ht]
    · simp only [field?, target?, Value.ref?, Option.bind_some, hs, ht]
      exact hsame name (hname rfl)

theorem attributeOf (h : s.Recolumned t a) (ha : s.kind? (.ref a) = some kind) (hv : v.In (·.index < s.cells.size))
    {name : String} (hname : name ≠ "column_settings") : t.attribute? v name = s.attribute? v name := by
  cases v with
  | atom d => cases d <;> rfl
  | ref r => exact h.field ha hv fun _ => hname

theorem pieceOf (h : s.Recolumned t a) (ha : s.kind? (.ref a) = some kind) (hv : v.In (·.index < s.cells.size)) :
    t.pieceOf v = s.pieceOf v := by
  simp only [Store.pieceOf, h.typeName ha hv]

/-- The settings of a column are read the same, whatever stands for them. -/
theorem column (h : s.Recolumned t a) (ha : s.kind? (.ref a) = some kind) (hs : s.Whole)
    (hv : v.In (·.index < s.cells.size)) : t.column v = s.column v := by
  unfold Store.column
  rw [h.attributeOf ha hv (by decide)]
  split
  · rfl
  · rename_i other _ hfound
    have hother := hs.in_of_attribute hfound
    rw [h.attributeOf ha hother (by decide)]
    cases hcode : s.attribute? other "code" with
    | none => simp only [h.lacking ha hother]
    | some code => simp only [h.pieceOf ha (hs.in_of_attribute hcode)]
  · simp only [h.lacking ha hv]

theorem recordedColumns (h : s.Recolumned t a) (ha : s.kind? (.ref a) = some kind)
    (hv : v.In (·.index < s.cells.size))
    (hplain : ∀ columns, s.attribute? v "columns" = some columns → ∃ d, columns = .atom d) :
    t.recordedColumns v = s.recordedColumns v := by
  unfold Store.recordedColumns
  rw [h.attributeOf ha hv (by decide)]
  cases hfound : s.attribute? v "columns" with
  | none => simp only [h.lacking ha hv]
  | some columns =>
    obtain ⟨d, rfl⟩ := hplain columns hfound
    simp only [datum, Carried.datumTo_atom]

theorem field_of_kind (h : s.Recolumned t a) (ha : s.kind? (.ref a) = some .table) (hv : s.kind? v = some kind)
    (hne : v ≠ .ref a) (name : String) : t.field? v name = s.field? v name := by
  obtain ⟨r, fields, rfl, hcell⟩ := kind?_eq_some.mp hv
  exact h.field ha (Value.in_ref.mpr (index_lt hcell)) fun heq => absurd heq hne

theorem field_of_settings (h : s.Recolumned t a) (ha : s.kind? (.ref a) = some .table) (hv : s.kind? v = some kind)
    (hkind : kind ≠ .table) (name : String) : t.field? v name = s.field? v name := by
  refine h.field_of_kind ha hv ?_ name
  rintro rfl
  exact hkind (Option.some.inj (hv.symm.trans ha))

/-- Settings that can be read again and again are read the same. -/
theorem settingsOf (h : s.Recolumned t a) (ha : s.kind? (.ref a) = some .table) (hb : s.Readable b) (hne : b ≠ a) :
    t.settingsOf ((t.field? (.ref b) "column_settings").getD .none) =
      s.settingsOf ((s.field? (.ref b) "column_settings").getD .none) := by
  obtain ⟨w, hw, hcases⟩ := hb.settings
  rw [h.field_of_kind ha hb.kind (by simpa using hne), hw]
  rcases hcases with ⟨hraw, d, hspec⟩ | ⟨htyped, columns, given, hcolumns, hgiven⟩
  · have hspec' : (t.field? w "spec").getD .none = .atom d := by
      rw [h.field_of_settings ha hraw (by decide), hspec]
    simp only [Option.getD_some, settingsOf_of_raw hraw, settingsOf_of_raw (h.keeps_kind hraw), hspec, hspec', datum,
      Carried.datumTo_atom]
  · have hcolumns' := (h.field_of_settings ha htyped (by decide) "columns").trans hcolumns
    simp only [Option.getD_some, settingsOf_of_typed htyped hcolumns hgiven,
      settingsOf_of_typed (h.keeps_kind htyped) hcolumns' (h.keeps_list ha hgiven)]

end Recolumned

end Store

namespace Change

open Store (Recolumned)

variable {α β : Type} {s t : Store} {a b : Ref} {v w standard : Value} {rows given : List Value}

/-! ## Reading a table -/

/-- Rows in a list are counted without a change. -/
theorem runOn_numberColumns_listed (h : s.list? ((s.field? v "rows").getD .none) = some rows) (notes : List Note) :
    (numberColumns v).runOn ⟨s, notes⟩ = ((Rows.widest (rows.map s.recordedColumns)).2, ⟨s, notes⟩) := by
  rw [numberColumns, field, runOn_bind_of_ok (runOn_look _ _), runOn_bind_of_ok (runOn_look _ _),
    runOn_bind_of_ok (runOn_look _ _), Store.supply_of_list h]
  simp only [runOn_settle]

theorem runOn_columnSettings_read {settings : ColumnSettings Value}
    (h : s.settingsOf ((s.field? v "column_settings").getD .none) = settings) (notes : List Note) :
    (columnSettings v).runOn ⟨s, notes⟩ = (.ok settings, ⟨s, notes⟩) := by
  rw [columnSettings, field, runOn_bind_of_ok (runOn_look _ _), runOn_look, h]

theorem runOn_effectiveColumns_listed (h : s.list? ((s.field? v "rows").getD .none) = some rows)
    (hsettings : s.settingsOf ((s.field? v "column_settings").getD .none) = .typed given) (notes : List Note) :
    (effectiveColumns v).runOn ⟨s, notes⟩ =
      (((Rows.widest (rows.map s.recordedColumns)).2 >>= Columns.count).map
        (Columns.effective given ((s.field? v "default_column_settings").getD .none)), ⟨s, notes⟩) := by
  rw [effectiveColumns, runOn_bind_of_ok (runOn_columnSettings_read hsettings notes)]
  simp only [runOn_bind, runOn_numberColumns_listed h]
  cases (Rows.widest (rows.map s.recordedColumns)).2 with
  | error f => rfl
  | ok n =>
    simp only [runOn_settle]
    cases hcount : Columns.count n with
    | error f => simp only [bind, Except.bind, hcount, Except.map]
    | ok m =>
      simp only [bind, Except.bind, hcount, Except.map]
      rfl

theorem runOn_columnSpec_listed (h : s.list? ((s.field? v "rows").getD .none) = some rows)
    (hsettings : s.settingsOf ((s.field? v "column_settings").getD .none) = .typed given) (notes : List Note) :
    (columnSpec v).runOn ⟨s, notes⟩ =
      ((((Rows.widest (rows.map s.recordedColumns)).2 >>= Columns.count).map
        (Columns.effective given ((s.field? v "default_column_settings").getD .none)) >>= fun columns =>
          (Columns.codes (columns.map s.column)).map .text), ⟨s, notes⟩) := by
  rw [columnSpec, runOn_bind_of_ok (runOn_columnSettings_read hsettings notes)]
  simp only [runOn_bind, runOn_effectiveColumns_listed h hsettings]
  cases ((Rows.widest (rows.map s.recordedColumns)).2 >>= Columns.count).map
      (Columns.effective given ((s.field? v "default_column_settings").getD .none)) with
  | error f => rfl
  | ok columns =>
    simp only [runOn_look, runOn_settle]
    cases hcodes : Columns.codes (columns.map s.column) with
    | error f => simp only [bind, Except.bind, hcodes, Except.map]
    | ok codes =>
      simp only [bind, Except.bind, hcodes, Except.map]
      rfl

theorem runOn_columns_raw {spec : Datum}
    (hsettings : s.settingsOf ((s.field? v "column_settings").getD .none) = .raw spec) (notes : List Note) :
    (effectiveColumns v).runOn ⟨s, notes⟩ = (.error .rawColumns, ⟨s, notes⟩) ∧
      (columnSpec v).runOn ⟨s, notes⟩ = (.ok spec, ⟨s, notes⟩) := by
  have hread := runOn_columnSettings_read hsettings notes
  rw [effectiveColumns, columnSpec, runOn_bind_of_ok hread, runOn_bind_of_ok hread]
  exact ⟨rfl, rfl⟩

/-- A table that can be read again and again tells the same after other settings of another one. -/
theorem reads_same (h : s.Recolumned t a) (ha : s.kind? (.ref a) = some .table) (hs : s.Whole) (hb : s.Readable b)
    (hne : b ≠ a) (notes more : List Note) :
    ((effectiveColumns (.ref b)).runOn ⟨t, notes⟩).1 = ((effectiveColumns (.ref b)).runOn ⟨s, more⟩).1 ∧
      ((columnSpec (.ref b)).runOn ⟨t, notes⟩).1 = ((columnSpec (.ref b)).runOn ⟨s, more⟩).1 := by
  obtain ⟨rows, hrows, hplain⟩ := hb.rows
  have hfield (name : String) : t.field? (.ref b) name = s.field? (.ref b) name :=
    h.field_of_kind ha hb.kind (by simpa using hne) name
  have hrows' : t.list? ((t.field? (.ref b) "rows").getD .none) = some rows := by
    rw [hfield]
    exact h.keeps_list ha hrows
  have hrecorded : rows.map t.recordedColumns = rows.map s.recordedColumns :=
    List.map_congr_left fun v hv => h.recordedColumns ha (hs.in_of_list hrows hv) (hplain v hv)
  have hsettings := h.settingsOf ha hb hne
  obtain ⟨w, hw, ⟨hraw, -⟩ | ⟨htyped, columns, given, hcolumns, hgiven⟩⟩ := hb.settings
  · have hread : s.settingsOf ((s.field? (.ref b) "column_settings").getD .none) =
        .raw (s.datum ((s.field? w "spec").getD .none)) := by
      rw [hw, Option.getD_some, Store.settingsOf_of_raw hraw]
    obtain ⟨heffective, hspec⟩ := runOn_columns_raw hread more
    obtain ⟨heffective', hspec'⟩ := runOn_columns_raw (hsettings.trans hread) notes
    exact ⟨by rw [heffective, heffective'], by rw [hspec, hspec']⟩
  · have hread : s.settingsOf ((s.field? (.ref b) "column_settings").getD .none) = .typed given := by
      rw [hw, Option.getD_some, Store.settingsOf_of_typed htyped hcolumns hgiven]
    have hread' := hsettings.trans hread
    simp only [runOn_effectiveColumns_listed hrows hread, runOn_effectiveColumns_listed hrows' hread',
      runOn_columnSpec_listed hrows hread, runOn_columnSpec_listed hrows' hread', hrecorded, hfield, true_and]
    cases (Rows.widest (rows.map s.recordedColumns)).2 >>= Columns.count with
    | error f => rfl
    | ok n =>
      have hthere : ∀ c ∈ Columns.effective given ((s.field? (.ref b) "default_column_settings").getD .none) n,
          c.In (·.index < s.cells.size) :=
        Columns.effective_all (fun c hc => hs.in_of_list hgiven hc) (hs.in_of_field_getD _ _)
      simp only [Except.map, bind, Except.bind]
      rw [List.map_congr_left fun c hc => h.column ha hs (hthere c hc)]

/-! ## Setting a table -/

/-- A change makes new cells, goes through iterators, and gives one object other column settings. -/
def Recolumns (a : Ref) (change : Change α) : Prop :=
  ∀ draft : Draft, draft.store.Recolumned (change.runOn draft).2.store a

theorem recolumns_pure (x : α) : Recolumns a (pure x) := fun draft => .refl draft.store a

theorem recolumns_refuse (f : Fault) : Recolumns a (refuse f : Change α) := fun draft => .refl draft.store a

theorem Recolumns.bind {change : Change α} {next : α → Change β} (h : Recolumns a change)
    (hnext : ∀ x, Recolumns a (next x)) : Recolumns a (change >>= next) := by
  intro draft
  have hfirst := h draft
  rw [runOn_bind]
  rcases hrun : change.runOn draft with ⟨_ | x, after⟩ <;> rw [hrun] at hfirst
  · exact hfirst
  · exact hfirst.trans (hnext x after)

theorem recolumns_look (f : Store → α) : Recolumns a (look f) := fun draft => .refl draft.store a

theorem recolumns_look_bind {f : Store → α} {next : α → Change β} (h : ∀ s, Recolumns a (next (f s))) :
    Recolumns a (look f >>= next) := fun draft => h draft.store draft

theorem recolumns_settle (result : Except Fault α) : Recolumns a (settle result) := by
  cases result with
  | ok x => exact recolumns_pure x
  | error f => exact recolumns_refuse f

theorem recolumns_alter {f : Store → Store} (h : ∀ s : Store, s.Recolumned (f s) a) : Recolumns a (alter f) :=
  fun draft => h draft.store

theorem recolumns_leave (note : Note) : Recolumns a (leave note) := fun draft => .refl draft.store a

theorem recolumns_newList (items : List Value) : Recolumns a (newList items) := fun draft => .alloc draft.store _ a

theorem recolumns_newObject (kind : Kind) (fields : List (String × Value)) : Recolumns a (newObject kind fields) :=
  fun draft => .alloc draft.store _ a

theorem recolumns_newTypedSettings (columns : List Value) : Recolumns a (newTypedSettings columns) :=
  (recolumns_newList columns).bind fun _ => recolumns_newObject _ _

theorem recolumns_setTo (new : Value) : Recolumns a (setTo (.ref a) "column_settings" new) :=
  fun draft => .setField draft.store a new

theorem recolumns_attributeOf (v : Value) (name : String) : Recolumns a (attributeOf v name) := by
  refine recolumns_look_bind fun s => ?_
  split
  · exact recolumns_pure _
  · exact recolumns_look_bind fun _ => recolumns_refuse _

theorem recolumns_items (v : Value) : Recolumns a (items v) := by
  rintro ⟨s, notes⟩
  rw [items, runOn_bind_of_ok (runOn_look _ _)]
  split
  · exact .refl s a
  · exact .refl s a
  · rename_i typeName source found hsupply
    obtain ⟨rest, hcell⟩ := Store.source_of_supplyTo s.depth (congrArg Prod.fst hsupply)
    exact .put_iterator hcell a
  · exact .refl s a

theorem recolumns_numberColumns (v : Value) : Recolumns a (numberColumns v) := by
  refine (recolumns_look _).bind fun rows => recolumns_look_bind fun s => recolumns_look_bind fun t => ?_
  split
  split
  · exact recolumns_refuse _
  · exact (recolumns_alter fun s => .takingAll s _ a).bind fun _ => recolumns_settle _
  · exact recolumns_settle _
  · exact recolumns_settle _

theorem recolumns_columnSettings (v : Value) : Recolumns a (columnSettings v) :=
  (recolumns_look _).bind fun _ => recolumns_look _

theorem recolumns_effectiveColumns (v : Value) : Recolumns a (effectiveColumns v) := by
  refine (recolumns_columnSettings v).bind fun settings => ?_
  split
  · exact recolumns_refuse _
  · exact recolumns_refuse _
  · refine (recolumns_numberColumns v).bind fun n => (recolumns_settle _).bind fun count => ?_
    exact (recolumns_look _).bind fun standard => recolumns_settle _

theorem recolumns_replaceableColumns (v : Value) (n : Datum) : Recolumns a (replaceableColumns v n) := by
  refine (recolumns_columnSettings v).bind fun settings => ?_
  split
  · exact (recolumns_leave _).bind fun _ => (recolumns_look _).bind fun _ => recolumns_settle _
  · refine (recolumns_look _).bind fun settings => (recolumns_attributeOf _ _).bind fun columns => ?_
    refine (recolumns_items columns).bind fun given => (recolumns_settle _).bind fun less => ?_
    split_ifs
    · exact (recolumns_effectiveColumns v).bind fun _ => recolumns_pure _
    · exact recolumns_pure _

theorem recolumns_replace (column settings : Value) : Recolumns a (replaceColumnSettings (.ref a) column settings) := by
  refine (recolumns_numberColumns _).bind fun n => recolumns_look_bind fun s => (recolumns_settle _).bind fun has => ?_
  split_ifs
  · refine (recolumns_replaceableColumns _ n).bind fun columns => ?_
    split
    · exact recolumns_refuse _
    · dsimp only
      split_ifs
      · exact recolumns_refuse _
      · exact (recolumns_newTypedSettings _).bind fun new => recolumns_setTo new
  · exact recolumns_refuse _

theorem recolumns_toColumnSettings (v : Value) : Recolumns a (toColumnSettings v) := by
  refine recolumns_look_bind fun s => ?_
  dsimp only [id]
  split
  · exact recolumns_pure _
  · exact recolumns_pure _
  · exact recolumns_newTypedSettings _
  · refine recolumns_look_bind fun t => ?_
    dsimp only [id]
    split
    · exact recolumns_refuse _
    · exact recolumns_newTypedSettings _
  · split_ifs
    · exact recolumns_newObject _ _
    · exact recolumns_refuse _

/-- The calls that set a table. -/
def Sets : Call → Prop
  | .setColumnSettings _ | .replaceColumnSettings _ _ => True
  | _ => False

theorem recolumned_call (ha : s.kind? (.ref a) = some .table) {c : Call} (hc : Sets c) (notes : List Note) :
    s.Recolumned ((call (.ref a) c).runOn ⟨s, notes⟩).2.store a := by
  rw [call, runOn_bind_of_ok (runOn_look _ _), ha]
  cases c with
  | setColumnSettings x =>
    exact ((recolumns_toColumnSettings x).bind fun new => recolumns_setTo new) ⟨s, notes⟩
  | replaceColumnSettings column x => exact recolumns_replace column x ⟨s, notes⟩
  | _ => cases hc

/-- The stores that come about when one table is set time and again, each time with a fault or without one. New
values are made in between. -/
inductive Resettings (a : Ref) (s : Store) : Store → Prop
  | start : Resettings a s s
  | call {t : Store} (before : Resettings a s t) {c : Call} (sets : Sets c) (notes : List Note) :
      Resettings a s ((Change.call (.ref a) c).runOn ⟨t, notes⟩).2.store
  | make {t : Store} (before : Resettings a s t) (c : Cell) : Resettings a s (t.alloc c).1

theorem Resettings.recolumned (h : Resettings a s t) (ha : s.kind? (.ref a) = some .table) : s.Recolumned t a := by
  induction h with
  | start => exact .refl s a
  | call before sets notes ih => exact ih.trans (recolumned_call (ih.keeps_kind ha) sets notes)
  | make before c ih => exact ih.trans (.alloc _ c a)

/-- However one table is set, and whatever it shares with others: of every other table the stored settings are the
same, and so are all objects and lists, which the settings and what was given for them consist of. What the columns
of a table are set to is told as before, and so is their specification. -/
theorem settings_apart (hs : s.Whole) (ha : s.kind? (.ref a) = some .table) (h : Resettings a s t) :
    (∀ r c, r ≠ a → s.cell? r = some c → c.isIterator = false → t.cell? r = some c) ∧
      ∀ b, b ≠ a → s.kind? (.ref b) = some .table →
        t.field? (.ref b) "column_settings" = s.field? (.ref b) "column_settings" ∧
          (s.Readable b → ∀ notes more,
            t.settingsOf ((t.field? (.ref b) "column_settings").getD .none) =
                s.settingsOf ((s.field? (.ref b) "column_settings").getD .none) ∧
              ((effectiveColumns (.ref b)).runOn ⟨t, notes⟩).1 = ((effectiveColumns (.ref b)).runOn ⟨s, more⟩).1 ∧
              ((columnSpec (.ref b)).runOn ⟨t, notes⟩).1 = ((columnSpec (.ref b)).runOn ⟨s, more⟩).1) := by
  have hrecolumned := h.recolumned ha
  refine ⟨fun r c hr hc hplain => hrecolumned.others r c hc hr hplain, fun b hne hb => ⟨?_, fun hread notes more => ?_⟩⟩
  · exact hrecolumned.field_of_kind ha hb (by simpa using hne) _
  · exact ⟨hrecolumned.settingsOf ha hread hne, reads_same hrecolumned ha hs hread hne notes more⟩

/-- Two tables of one row with three columns, which share their settings. These hold a list that was given. -/
def sharedTables : Store :=
  ⟨#[.sequence .list [.text "x", .text "y", .text "z"],
    .object .tableRow [("cells", .ref ⟨0⟩), ("columns", .int 3), ("skip_terminator", .bool false)],
    .object .columnSettings [("alignment", .atom (.member (.alignment .left)))],
    .object .columnSettings [("alignment", .atom (.member (.alignment .right)))],
    .sequence .list [.ref ⟨2⟩, .ref ⟨3⟩], .object .typedSettings [("columns", .ref ⟨4⟩)],
    .sequence .list [.ref ⟨1⟩],
    .object .table [("rows", .ref ⟨6⟩), ("column_settings", .ref ⟨5⟩), ("default_column_settings", .ref ⟨2⟩)],
    .sequence .list [.ref ⟨1⟩],
    .object .table [("rows", .ref ⟨8⟩), ("column_settings", .ref ⟨5⟩), ("default_column_settings", .ref ⟨2⟩)]], 0⟩

theorem sharedTables_readable : sharedTables.Readable ⟨9⟩ where
  kind := rfl
  rows := ⟨[.ref ⟨1⟩], rfl, fun v hv columns hcolumns => by
    obtain rfl := List.mem_singleton.mp hv
    obtain rfl := Option.some.inj hcolumns
    exact ⟨.int 3, rfl⟩⟩
  settings := ⟨.ref ⟨5⟩, rfl, .inr ⟨rfl, .ref ⟨4⟩, [.ref ⟨2⟩, .ref ⟨3⟩], rfl, rfl⟩⟩

/-- One of two tables that share their settings gets others for its last column; then calls on it fail. -/
theorem settings_apart_shared : sharedTables.Whole ∧ sharedTables.kind? (.ref ⟨7⟩) = some .table ∧
    ∃ t, Resettings ⟨7⟩ sharedTables t ∧
      t.settingsOf ((t.field? (.ref ⟨7⟩) "column_settings").getD .none) =
        .typed [.ref ⟨2⟩, .ref ⟨3⟩, .ref ⟨2⟩] ∧
      t.cell? ⟨4⟩ = some (.sequence .list [.ref ⟨2⟩, .ref ⟨3⟩]) ∧
      t.field? (.ref ⟨9⟩) "column_settings" = some (.ref ⟨5⟩) ∧
      ((effectiveColumns (.ref ⟨9⟩)).runOn ⟨t, []⟩).1 = .ok [.ref ⟨2⟩, .ref ⟨3⟩, .ref ⟨3⟩] ∧
      ((columnSpec (.ref ⟨9⟩)).runOn ⟨t, []⟩).1 = .ok (.text "lrr") := by
  have hwhole : sharedTables.Whole := by decide
  have hset : Resettings ⟨7⟩ sharedTables _ :=
    .call (.call (.call .start (c := .replaceColumnSettings (.int 2) (.ref ⟨2⟩)) trivial [])
      (c := .replaceColumnSettings (.int 3) (.ref ⟨2⟩)) trivial []) (c := .setColumnSettings (.int 0)) trivial []
  obtain ⟨hcells, htables⟩ := settings_apart hwhole rfl hset
  obtain ⟨hstored, hread⟩ := htables ⟨9⟩ (by decide) rfl
  obtain ⟨-, heffective, hspec⟩ := hread sharedTables_readable [] []
  refine ⟨hwhole, rfl, _, hset, rfl, hcells ⟨4⟩ _ (by decide) rfl rfl, hstored, ?_, ?_⟩
  · exact heffective.trans rfl
  · exact hspec.trans rfl

end Change

end Manuscript
