import Manuscript.Proofs.Tables
import Manuscript.Proofs.Building
import Mathlib.Data.List.Induction
/-!
# Replaced columns

To replace the settings of a column gives a table new typed settings, in which the columns that had none of their own
are set to what they were written with. So only the replaced column changes, and after any number of replacements a
column is set to the last value that it was given.
-/
namespace Manuscript

namespace Columns

variable {α : Type} {given : List α} {standard x y : α} {n c e : Nat}

/-- The given settings, made to reach `n` columns, with one of them replaced. -/
def replaced (given : List α) (standard : α) (n : Nat) (r : Nat × α) : List α :=
  (padded given standard n).set r.1 r.2

/-- The given settings after some replacements in turn. -/
def overridden (given : List α) (standard : α) (n : Nat) (rs : List (Nat × α)) : List α :=
  rs.foldl (fun given r => replaced given standard n r) given

theorem padded_of_length_le (h : n ≤ given.length) : padded given standard n = given := by
  rw [padded, Nat.sub_eq_zero_of_le h, List.replicate_zero, List.append_nil]

theorem padded_replaced (r : Nat × α) :
    padded (replaced given standard n r) standard n = replaced given standard n r := by
  apply padded_of_length_le
  rw [replaced, List.length_set, length_padded]
  omega

/-- The padding is taken from the settings as they were, so it does not matter which of them is replaced. -/
theorem effective_replaced (r : Nat × α) :
    effective (replaced given standard n r) standard n = (effective given standard n).set r.1 r.2 := by
  rw [effective, padded_replaced, replaced, List.take_set, effective]

example : effective (replaced ["l", "r"] "l" 4 (1, "c")) "l" 4 = ["l", "c", "r", "r"] := by decide

theorem effective_overridden (rs : List (Nat × α)) :
    effective (overridden given standard n rs) standard n =
      rs.foldl (fun columns r => columns.set r.1 r.2) (effective given standard n) := by
  induction rs generalizing given with
  | nil => rfl
  | cons r rs ih =>
    calc effective (overridden given standard n (r :: rs)) standard n
        = effective (overridden (replaced given standard n r) standard n rs) standard n := rfl
      _ = rs.foldl (fun columns r => columns.set r.1 r.2) ((effective given standard n).set r.1 r.2) := by
        rw [ih, effective_replaced]

/-- Each place has the last value that it was given. -/
theorem getElem?_foldl_set (rs : List (Nat × α)) (columns : List α) (i : Nat) :
    (rs.foldl (fun columns r => columns.set r.1 r.2) columns)[i]? =
      columns[i]?.map fun old => (rs.reverse.lookup i).getD old := by
  induction rs using List.reverseRecOn with
  | nil => simp
  | append_singleton rs r ih =>
    rw [List.foldl_append, List.foldl_cons, List.foldl_nil, List.getElem?_set', ih, List.reverse_append,
      List.reverse_singleton, List.singleton_append, List.lookup_cons]
    by_cases h : r.1 = i
    · subst h
      cases columns[r.1]? <;> simp
    · have hne : (i == r.1) = false := by simpa using Ne.symm h
      simp [h, hne]

/-- Two columns can be replaced in any order. -/
theorem replaced_comm (h : c ≠ e) :
    replaced (replaced given standard n (c, x)) standard n (e, y) =
      replaced (replaced given standard n (e, y)) standard n (c, x) := by
  calc replaced (replaced given standard n (c, x)) standard n (e, y)
      = ((padded given standard n).set c x).set e y := by rw [replaced, padded_replaced, replaced]
    _ = ((padded given standard n).set e y).set c x := List.set_comm x y h
    _ = replaced (replaced given standard n (e, y)) standard n (c, x) := by rw [replaced, padded_replaced, replaced]

theorem overridden_append (rs qs : List (Nat × α)) :
    overridden given standard n (rs ++ qs) = overridden (overridden given standard n rs) standard n qs :=
  List.foldl_append

end Columns

namespace ColumnSettings

variable {α : Type}

/-- Raw settings can be replaced only if a list can have an entry for every column. -/
def Roomy (settings : ColumnSettings α) (n : Int) : Prop :=
  match settings with
  | raw _ => n < Int.pow 2 63
  | _ => True

/-- What a column is written with. Raw settings give way to the standard ones. -/
def setting (settings : ColumnSettings α) (standard : α) (i : Nat) : α :=
  match settings with
  | typed given => given[i]?.getD (Columns.beyond given standard)
  | _ => standard

/-- Settings after some replacements in turn: they are listed from the first one on. -/
def overridden (settings : ColumnSettings α) (standard : α) (n : Nat) : List (Nat × α) → ColumnSettings α
  | [] => settings
  | r :: rs => typed (Columns.overridden (settings.given?.getD []) standard n (r :: rs))

theorem overridden_cons (settings : ColumnSettings α) (standard : α) (n : Nat) (r : Nat × α) (rs : List (Nat × α)) :
    (settings.overridden standard n [r]).overridden standard n rs = settings.overridden standard n (r :: rs) := by
  cases rs <;> rfl

/-- Neighbours in a sequence of replacements can change places if they are of different columns. -/
theorem overridden_swap (settings : ColumnSettings α) (standard : α) (n : Nat) (before behind : List (Nat × α))
    {c e : Nat} (h : c ≠ e) (x y : α) :
    settings.overridden standard n (before ++ (c, x) :: (e, y) :: behind) =
      settings.overridden standard n (before ++ (e, y) :: (c, x) :: behind) := by
  have hpair (given : List α) : Columns.overridden given standard n ((c, x) :: (e, y) :: behind) =
      Columns.overridden given standard n ((e, y) :: (c, x) :: behind) :=
    congrArg (Columns.overridden · standard n behind) (Columns.replaced_comm h)
  cases before with
  | nil => exact congrArg typed (hpair _)
  | cons r before =>
    have hsplit (given : List α) (rest : List (Nat × α)) :
        Columns.overridden given standard n (r :: before ++ rest) =
          Columns.overridden (Columns.overridden given standard n (r :: before)) standard n rest :=
      Columns.overridden_append (r :: before) rest
    exact congrArg typed ((hsplit _ _).trans ((hpair _).trans (hsplit _ _).symm))

theorem effective_of_given? {settings : ColumnSettings α} {given : List α} (h : settings.given? = some given)
    (standard : α) (n : Nat) :
    Columns.effective given standard n = (List.range n).map (settings.setting standard) := by
  cases settings with
  | typed columns =>
    obtain rfl := Option.some.inj h
    exact Columns.effective_eq_map columns standard n
  | raw spec =>
    obtain rfl := Option.some.inj h
    exact Columns.effective_eq_map [] standard n
  | _ => cases h

/-- After some replacements each column is set to the last value that it was given, and else to what it was. -/
theorem effective_overridden {settings : ColumnSettings α} {given : List α} (h : settings.given? = some given)
    (standard : α) (n : Nat) (rs : List (Nat × α)) :
    Columns.effective (Columns.overridden given standard n rs) standard n =
      (List.range n).map fun i => (rs.reverse.lookup i).getD (settings.setting standard i) := by
  apply List.ext_getElem?
  intro i
  rw [Columns.effective_overridden, Columns.getElem?_foldl_set, effective_of_given? h, List.getElem?_map,
    List.getElem?_map]
  by_cases hi : i < n
  · rw [List.getElem?_range hi]
    rfl
  · rw [List.getElem?_eq_none (by simpa using hi)]
    rfl

end ColumnSettings

namespace Store

open Cell (fieldIn)

/-- The store after a table has got new typed settings. -/
def retyped (s : Store) (a : Ref) (columns : List Value) : Store :=
  let (t, list) := s.newList columns
  let (u, settings) := t.newObject .typedSettings [("columns", list)]
  u.setField (.ref a) "column_settings" settings

/-- One store comes from another one by new cells and by other column settings of one table. -/
structure Resets (s t : Store) (a : Ref) : Prop where
  size : s.cells.size ≤ t.cells.size
  cell : ∀ r, r ≠ a → r.index < s.cells.size → t.cell? r = s.cell? r
  kind : t.kind? (.ref a) = s.kind? (.ref a)
  field : ∀ name, name ≠ "column_settings" →
    (t.field? (.ref a) name).getD .none = (s.field? (.ref a) name).getD .none

variable {s t u : Store} {a : Ref} {rows : List Value} {settings : ColumnSettings Value} {standard v : Value}

namespace Resets

theorem refl (s : Store) (a : Ref) : s.Resets s a := ⟨Nat.le_refl _, fun _ _ _ => rfl, rfl, fun _ _ => rfl⟩

theorem trans (h : s.Resets t a) (h' : t.Resets u a) : s.Resets u a where
  size := Nat.le_trans h.size h'.size
  cell r hr hlt := (h'.cell r hr (Nat.lt_of_lt_of_le hlt h.size)).trans (h.cell r hr hlt)
  kind := h'.kind.trans h.kind
  field name hname := (h'.field name hname).trans (h.field name hname)

theorem target (h : s.Resets t a) {c : Cell} (hv : s.target? v = some c) (hne : v ≠ .ref a) :
    t.target? v = some c := by
  cases v with
  | atom d => cases hv
  | ref r =>
    have hcell : s.cell? r = some c := hv
    exact (h.cell r (fun heq => hne (heq ▸ rfl)) (index_lt hcell)).trans hcell

/-- Rows stay what they are, since none of them is a table. -/
theorem row (h : s.Resets t a) (hk : s.kind? (.ref a) = some .table) (hv : s.IsRow v) :
    t.IsRow v ∧ t.width v = s.width v := by
  obtain ⟨hrow, columns, hcolumns, hcount⟩ := hv
  obtain ⟨r, fields, rfl, hcell⟩ := kind?_eq_some.mp hrow
  have hne : Value.ref r ≠ .ref a := by
    intro heq
    rw [heq, hk] at hrow
    cases hrow
  have hold : s.target? (.ref r) = some (.object .tableRow fields) := hcell
  have htarget : t.target? (.ref r) = s.target? (.ref r) := (h.target hold hne).trans hold.symm
  have hfield : t.field? (.ref r) "columns" = s.field? (.ref r) "columns" := by
    rw [field?, htarget, field?]
  refine ⟨⟨?_, columns, hfield.trans hcolumns, hcount⟩, ?_⟩
  · rw [kind?, htarget, ← kind?, hrow]
  · rw [width, hfield, width]

/-- The table has the same rows as before, and the same number of columns. -/
theorem tabulates (h : s.Resets t a) (hs : s.Tabulates a rows settings standard) {new : ColumnSettings Value}
    (hnew : t.settingsOf ((t.field? (.ref a) "column_settings").getD .none) = new) :
    t.Tabulates a rows new standard where
  kind := h.kind.trans hs.kind
  listed := by
    obtain ⟨l, hl, hlist⟩ := list?_eq_some.mp hs.listed
    have hne : l ≠ a := by
      rintro rfl
      obtain ⟨r, fields, hr, hcell⟩ := kind?_eq_some.mp hs.kind
      obtain rfl := Value.ref.inj hr
      exact object_ne_list hcell hlist rfl
    rw [h.field "rows" (by decide), hl]
    exact list?_eq_some.mpr ⟨l, rfl, (h.cell l hne (index_lt hlist)).trans hlist⟩
  counted v hv := (h.row hs.kind (hs.counted v hv)).1
  settings := hnew
  standard := (h.field "default_column_settings" (by decide)).trans hs.standard

theorem columnCount (h : s.Resets t a) (hs : s.Tabulates a rows settings standard) :
    t.columnCount rows = s.columnCount rows := by
  rw [Store.columnCount, Store.columnCount]
  exact congrArg Rows.greatest (List.map_congr_left fun v hv => (h.row hs.kind (hs.counted v hv)).2)

end Resets

/-- A store after the table has got new typed settings: a list, an object around it, and the table with its other
fields as they were. -/
structure Retyped (s t : Store) (a : Ref) (columns : List Value) : Prop where
  size : t.cells.size = s.cells.size + 2
  cell : ∀ r, r ≠ a → r.index < s.cells.size → t.cell? r = s.cell? r
  list : t.cell? ⟨s.cells.size⟩ = some (.sequence .list columns)
  wrapper : t.cell? ⟨s.cells.size + 1⟩ = some (.object .typedSettings [("columns", .ref ⟨s.cells.size⟩)])
  kind : t.kind? (.ref a) = s.kind? (.ref a)
  field : ∀ name, (t.field? (.ref a) name).getD .none =
    if name = "column_settings" then .ref ⟨s.cells.size + 1⟩ else (s.field? (.ref a) name).getD .none

theorem retyped_spec (hk : s.kind? (.ref a) = some .table) (columns : List Value) :
    s.Retyped (s.retyped a columns) a columns := by
  obtain ⟨r, fields, hr, hcell⟩ := kind?_eq_some.mp hk
  obtain rfl := Value.ref.inj hr
  let t := (s.newList columns).1
  let u := (t.newObject .typedSettings [("columns", .ref ⟨s.cells.size⟩)]).1
  have hsize : t.cells.size = s.cells.size + 1 := by simp [t, newList, alloc]
  have hnew : u.cell? ⟨t.cells.size⟩ = some (.object .typedSettings [("columns", .ref ⟨s.cells.size⟩)]) :=
    cell?_alloc_new t _
  have hlist : u.cell? ⟨s.cells.size⟩ = some (.sequence .list columns) :=
    cell?_alloc_of_some (cell?_alloc_new s _) _
  have hold (q : Ref) (hq : q.index < s.cells.size) : u.cell? q = s.cell? q :=
    (cell?_alloc t _ q (by omega)).trans (cell?_alloc s _ q hq)
  have htable : u.cell? a = some (.object .table fields) := (hold a (index_lt hcell)).trans hcell
  obtain ⟨changed, hset, hchanged⟩ := exists_setField htable "column_settings" (.ref ⟨t.cells.size⟩)
  have hend : s.retyped a columns = u.put a (.object .table changed) := hset
  have hcell' : (s.retyped a columns).cell? a = some (.object .table changed) := by
    rw [hend]
    exact cell?_put_self u a _ (index_lt htable)
  have hother (q : Ref) (hq : q ≠ a) : (s.retyped a columns).cell? q = u.cell? q := by
    rw [hend]
    exact cell?_put_of_ne u a q _ hq
  have hfresh (n : Nat) (hn : s.cells.size ≤ n) : (⟨n⟩ : Ref) ≠ a := by
    rintro rfl
    exact absurd (index_lt hcell) (Nat.not_lt.mpr hn)
  rw [hsize] at hnew
  refine ⟨?_, fun q hne hq => (hother q hne).trans (hold q hq), (hother _ (hfresh _ (Nat.le_refl _))).trans hlist,
    (hother _ (hfresh _ (Nat.le_succ _))).trans hnew, ?_, fun name => ?_⟩
  · rw [hend]
    simp [u, t, put, newObject, newList, alloc]
  · rw [kind?_eq_some.mpr ⟨a, changed, rfl, hcell'⟩, hk]
  · rw [fieldIn_of_cell hcell', fieldIn_of_cell hcell, hchanged, hsize]

theorem Retyped.resets {columns : List Value} (h : s.Retyped t a columns) : s.Resets t a := by
  refine ⟨Nat.le.intro h.size.symm, h.cell, h.kind, fun name hname => ?_⟩
  rw [h.field, if_neg hname]

theorem Retyped.tabulates {columns : List Value} (h : s.Retyped t a columns)
    (hs : s.Tabulates a rows settings standard) : t.Tabulates a rows (.typed columns) standard := by
  refine h.resets.tabulates hs ?_
  rw [h.field, if_pos rfl]
  exact settingsOf_typedSettings h.wrapper rfl (list?_eq_some.mpr ⟨_, rfl, h.list⟩)

end Store

namespace Change

variable {s : Store} {a : Ref} {rows given : List Value} {settings : ColumnSettings Value} {standard x : Value}
  {c : Int}

/-- Replaces the settings of some columns in turn. -/
def replaceAll (table : Value) : List (Nat × Value) → Change Unit
  | [] => pure ()
  | r :: rs => do
    let _ ← call table (.replaceColumnSettings (.int r.1) r.2)
    replaceAll table rs

/-- The settings of a table that are listed are there to be gone through. -/
theorem exists_columns (h : s.Tabulates a rows (.typed given) standard) : ∃ columns,
    s.attribute? ((s.field? (.ref a) "column_settings").getD .none) "columns" = some columns ∧
      s.supply columns = (.listed, given) := by
  have hsettings := h.settings
  unfold Store.settingsOf at hsettings
  split at hsettings
  · cases hsettings
  · rename_i columns hcolumns _
    refine ⟨columns, hcolumns, ?_⟩
    unfold Store.columnsOf at hsettings
    split at hsettings
    · cases hsettings
    · split at hsettings <;> cases hsettings
    · split at hsettings
      · rename_i items hsupply
        obtain rfl : items = given := by simpa using hsettings
        exact hsupply
      · cases hsettings
  · cases hsettings

theorem runOn_replaceableColumns_typed (h : s.Tabulates a rows (.typed given) standard) {d : Datum}
    (hd : d.asInt? = some (s.columnCount rows)) (notes : List Note) :
    (replaceableColumns (.ref a) d).runOn ⟨s, notes⟩ =
      (.ok (Columns.padded given standard (s.columnCount rows).toNat), ⟨s, notes⟩) := by
  obtain ⟨columns, hattribute, hsupply⟩ := exists_columns h
  have hless : Datum.compared .less (.int given.length) d =
      .ok (decide ((given.length : Int) < s.columnCount rows)) := by
    rw [Datum.compared_of_asInt? rfl hd]
    exact Atom.compared_less_int _ _
  have hattributeOf : (attributeOf ((s.field? (.ref a) "column_settings").getD .none) "columns").runOn ⟨s, notes⟩ =
      (.ok columns, ⟨s, notes⟩) := by
    rw [attributeOf, runOn_bind_of_ok (runOn_look _ _), hattribute, runOn_pure]
  have hitems : (items columns).runOn ⟨s, notes⟩ = (.ok given, ⟨s, notes⟩) := by
    rw [items, runOn_bind_of_ok (runOn_look _ _), hsupply, runOn_pure]
  rw [replaceableColumns, runOn_bind_of_ok (runOn_columnSettings h notes)]
  dsimp only
  rw [field, runOn_bind_of_ok (runOn_look _ _), runOn_bind_of_ok hattributeOf, runOn_bind_of_ok hitems, hless,
    runOn_bind_of_ok (runOn_settle _ _)]
  by_cases hlt : (given.length : Int) < s.columnCount rows
  · have hle : given.length ≤ (s.columnCount rows).toNat := by omega
    simp only [hlt, decide_true, if_true]
    rw [runOn_bind_of_ok (runOn_effectiveColumns h notes), runOn_pure, Columns.append_drop_effective given standard hle]
  · have hle : (s.columnCount rows).toNat ≤ given.length := by omega
    simp only [hlt, decide_false, Bool.false_eq_true, if_false]
    rw [runOn_pure, Columns.padded_of_length_le hle]

/-- Raw settings give way to the standard ones for each column, as far as there is room for so many. -/
theorem runOn_replaceableColumns_raw {spec : Datum} (h : s.Tabulates a rows (.raw spec) standard) (d : Datum)
    (notes : List Note) : (replaceableColumns (.ref a) d).runOn ⟨s, notes⟩ =
      (Columns.repeated standard d, ⟨s, notes ++ [.replacingRawSettings spec.literal]⟩) := by
  rw [replaceableColumns, runOn_bind_of_ok (runOn_columnSettings h notes)]
  change (leave (.replacingRawSettings spec.literal) >>= fun _ =>
    field (.ref a) "default_column_settings" >>= fun usual => settle (Columns.repeated usual d)).runOn ⟨s, notes⟩ = _
  have hleave : (leave (.replacingRawSettings spec.literal)).runOn ⟨s, notes⟩ =
      (.ok (), ⟨s, notes ++ [.replacingRawSettings spec.literal]⟩) := rfl
  rw [runOn_bind_of_ok hleave, field, runOn_bind_of_ok (runOn_look _ _), runOn_settle, h.standard]

/-- The settings before a replacement reach all columns. -/
theorem runOn_replaceableColumns (h : s.Tabulates a rows settings standard) (hgiven : settings.given? = some given)
    (hroom : settings.Roomy (s.columnCount rows)) {d : Datum} (hd : d.asInt? = some (s.columnCount rows))
    (notes : List Note) : ∃ more, (replaceableColumns (.ref a) d).runOn ⟨s, notes⟩ =
      (.ok (Columns.padded given standard (s.columnCount rows).toNat), ⟨s, more⟩) := by
  cases settings with
  | typed columns =>
    obtain rfl := Option.some.inj hgiven
    exact ⟨notes, runOn_replaceableColumns_typed h hd notes⟩
  | raw spec =>
    obtain rfl := Option.some.inj hgiven
    refine ⟨notes ++ [.replacingRawSettings spec.literal], (runOn_replaceableColumns_raw h d notes).trans ?_⟩
    have hlt : s.columnCount rows < Int.pow 2 63 := hroom
    rw [Columns.repeated, hd]
    simp only [if_neg (Int.not_le.mpr hlt)]
    rfl
  | _ => cases hgiven

theorem runOn_call_replace (h : s.Tabulates a rows settings standard) (column x : Value) (notes : List Note) :
    (call (.ref a) (.replaceColumnSettings column x)).runOn ⟨s, notes⟩ =
      (replaceColumnSettings (.ref a) column x).runOn ⟨s, notes⟩ := by
  rw [call, runOn_bind_of_ok (runOn_look _ _), h.kind]

/-- A replacement finds out whether there is such a column, and only then gives the table new settings. -/
theorem exists_replace (h : s.Tabulates a rows settings standard) (c : Int) (x : Value) :
    ∃ d, d.asInt? = some (s.columnCount rows) ∧ ∀ notes,
      (call (.ref a) (.replaceColumnSettings (.int c) x)).runOn ⟨s, notes⟩ =
        if 0 ≤ c ∧ c < s.columnCount rows then
          match (replaceableColumns (.ref a) d).runOn ⟨s, notes⟩ with
          | (.ok columns, after) =>
            if columns.length ≤ c.toNat then (.error .noPlaceAssigned, after)
            else (.ok (.ref a), ⟨after.store.retyped a (columns.set c.toNat x), after.notes⟩)
          | (.error f, after) => (.error f, after)
        else (.error (.noSuchColumn (toString c) d.printed), ⟨s, notes⟩) := by
  obtain ⟨d, hd, hcount, _⟩ := exists_numberColumns h
  refine ⟨d, hcount, fun notes => ?_⟩
  have hdatum : s.datum (.int c) = .int c := Store.Carried.datumTo_atom s s.depth (.int c)
  rw [runOn_call_replace h, replaceColumnSettings, runOn_bind_of_ok (hd notes), runOn_bind_of_ok (runOn_look _ _),
    hdatum, Columns.has_of_asInt? hcount, runOn_bind_of_ok (runOn_settle _ _)]
  by_cases hc : 0 ≤ c ∧ c < s.columnCount rows
  · rw [if_pos hc, decide_eq_true hc]
    change (replaceableColumns (.ref a) d >>= _).runOn ⟨s, notes⟩ = _
    rw [runOn_bind]
    rcases (replaceableColumns (.ref a) d).runOn ⟨s, notes⟩ with ⟨_ | columns, after⟩
    · rfl
    · by_cases hlength : columns.length ≤ c.toNat
      · simp only [Value.int, Value.asInt?, Atom.asInt?, if_pos hlength]
        rfl
      · simp only [Value.int, Value.asInt?, Atom.asInt?, if_neg hlength]
        rfl
  · rw [if_neg hc, decide_eq_false hc]
    rfl

theorem runOn_replace (h : s.Tabulates a rows settings standard) (hgiven : settings.given? = some given)
    (hroom : settings.Roomy (s.columnCount rows)) (hc : 0 ≤ c ∧ c < s.columnCount rows) (x : Value)
    (notes : List Note) : ∃ more, (call (.ref a) (.replaceColumnSettings (.int c) x)).runOn ⟨s, notes⟩ =
      (.ok (.ref a),
        ⟨s.retyped a (Columns.replaced given standard (s.columnCount rows).toNat (c.toNat, x)), more⟩) := by
  obtain ⟨d, hd, hrun⟩ := exists_replace h c x
  obtain ⟨more, hcolumns⟩ := runOn_replaceableColumns h hgiven hroom hd notes
  have hlength : ¬ (Columns.padded given standard (s.columnCount rows).toNat).length ≤ c.toNat := by
    rw [Columns.length_padded]
    omega
  refine ⟨more, ?_⟩
  rw [hrun, if_pos hc, hcolumns]
  simp only [if_neg hlength]
  rfl

theorem runOn_replace_absent (h : s.Tabulates a rows settings standard) (hc : ¬(0 ≤ c ∧ c < s.columnCount rows))
    (x : Value) (notes : List Note) : ∃ columns,
      (call (.ref a) (.replaceColumnSettings (.int c) x)).runOn ⟨s, notes⟩ =
        (.error (.noSuchColumn (toString c) columns), ⟨s, notes⟩) := by
  obtain ⟨d, _, hrun⟩ := exists_replace h c x
  exact ⟨d.printed, by rw [hrun, if_neg hc]⟩

/-- No list of the standard settings can be made for too many columns. -/
theorem runOn_replace_crowded {spec : Datum} (h : s.Tabulates a rows (.raw spec) standard)
    (hcrowded : Int.pow 2 63 ≤ s.columnCount rows) (hc : 0 ≤ c ∧ c < s.columnCount rows) (x : Value)
    (notes : List Note) : ∃ more, (call (.ref a) (.replaceColumnSettings (.int c) x)).runOn ⟨s, notes⟩ =
      (.error .countTooLarge, ⟨s, more⟩) := by
  obtain ⟨d, hd, hrun⟩ := exists_replace h c x
  refine ⟨notes ++ [.replacingRawSettings spec.literal], ?_⟩
  rw [hrun, if_pos hc, runOn_replaceableColumns_raw h, Columns.repeated, hd]
  simp only [if_pos hcrowded]

end Change

/-- What replacements of columns leave of a table. Its rows and its standard settings are as before, and so is their
number of columns; each column has the last value that it was given, or else what it was written with. -/
structure Store.Overridden (s t : Store) (a : Ref) (rows : List Value) (settings : ColumnSettings Value)
    (standard : Value) (rs : List (Nat × Value)) : Prop where
  resets : s.Resets t a
  tabulates : t.Tabulates a rows (settings.overridden standard (s.columnCount rows).toNat rs) standard
  count : t.columnCount rows = s.columnCount rows
  effective : rs ≠ [] ∨ (∃ given, settings = .typed given) → ∀ notes,
    (Change.effectiveColumns (.ref a)).runOn ⟨t, notes⟩ =
      (.ok ((List.range (s.columnCount rows).toNat).map fun i =>
        (rs.reverse.lookup i).getD (settings.setting standard i)), ⟨t, notes⟩)

namespace Change

variable {s t : Store} {a : Ref} {rows given : List Value} {settings : ColumnSettings Value} {standard x : Value}

theorem overridden_of_resets (h : s.Tabulates a rows settings standard) (hgiven : settings.given? = some given)
    {rs : List (Nat × Value)} (hresets : s.Resets t a)
    (ht : t.Tabulates a rows (settings.overridden standard (s.columnCount rows).toNat rs) standard) :
    s.Overridden t a rows settings standard rs := by
  have hcount := hresets.columnCount h
  refine ⟨hresets, ht, hcount, fun hlisted notes => ?_⟩
  have htyped : settings.overridden standard (s.columnCount rows).toNat rs =
      .typed (Columns.overridden given standard (s.columnCount rows).toNat rs) := by
    cases rs with
    | nil =>
      obtain ⟨columns, rfl⟩ := hlisted.resolve_left (by simp)
      obtain rfl := Option.some.inj hgiven
      rfl
    | cons r rs => rw [ColumnSettings.overridden, hgiven, Option.getD_some]
  rw [htyped] at ht
  rw [runOn_effectiveColumns ht notes, hcount, ColumnSettings.effective_overridden hgiven]

/-- One replacement gives a table typed settings. -/
theorem exists_replaced (h : s.Tabulates a rows settings standard) (hgiven : settings.given? = some given)
    (hroom : settings.Roomy (s.columnCount rows)) {c : Int} (hc : 0 ≤ c ∧ c < s.columnCount rows) (x : Value)
    (notes : List Note) : ∃ t more,
      (call (.ref a) (.replaceColumnSettings (.int c) x)).runOn ⟨s, notes⟩ = (.ok (.ref a), ⟨t, more⟩) ∧
        s.Resets t a ∧
          t.Tabulates a rows (settings.overridden standard (s.columnCount rows).toNat [(c.toNat, x)]) standard := by
  obtain ⟨more, hrun⟩ := runOn_replace h hgiven hroom hc x notes
  have hretyped := Store.retyped_spec h.kind (Columns.replaced given standard (s.columnCount rows).toNat (c.toNat, x))
  refine ⟨_, more, hrun, hretyped.resets, ?_⟩
  rw [ColumnSettings.overridden, hgiven]
  exact hretyped.tabulates h

/-- Replacements in turn work on what the ones before have left. -/
theorem exists_replaceAll (h : s.Tabulates a rows settings standard) (hgiven : settings.given? = some given)
    {rs : List (Nat × Value)} (hrs : ∀ r ∈ rs, (r.1 : Int) < s.columnCount rows)
    (hroom : rs = [] ∨ settings.Roomy (s.columnCount rows)) (notes : List Note) : ∃ t more,
      (replaceAll (.ref a) rs).runOn ⟨s, notes⟩ = (.ok (), ⟨t, more⟩) ∧ s.Resets t a ∧
        t.Tabulates a rows (settings.overridden standard (s.columnCount rows).toNat rs) standard := by
  induction rs generalizing s settings given notes with
  | nil => exact ⟨s, notes, rfl, .refl s a, h⟩
  | cons r rs ih =>
    have hr : 0 ≤ (r.1 : Int) ∧ (r.1 : Int) < s.columnCount rows :=
      ⟨Int.natCast_nonneg r.1, hrs r List.mem_cons_self⟩
    obtain ⟨t, more, hrun, hst, ht⟩ := exists_replaced h hgiven (hroom.resolve_left (by simp)) hr r.2 notes
    have hcount := hst.columnCount h
    -- from here on the settings are listed, so there is room
    obtain ⟨u, last, hrest, htu, hu⟩ := ih ht rfl (fun q hq => hcount ▸ hrs q (List.mem_cons_of_mem r hq))
      (.inr trivial) more
    refine ⟨u, last, ?_, hst.trans htu, ?_⟩
    · rw [replaceAll, runOn_bind_of_ok hrun, hrest]
    · rw [hcount, ColumnSettings.overridden_cons] at hu
      exact hu

/-- To replace the settings of a column changes that column only. A column that a table does not have is refused, and
so are raw settings of more columns than a list can hold; a table is as it was then. -/
theorem columns_replaced (h : s.Tabulates a rows settings standard) (hgiven : settings.given? = some given) :
    (∀ (c : Int) (x : Value) (notes : List Note),
      (¬(0 ≤ c ∧ c < s.columnCount rows) → ∃ columns,
        (call (.ref a) (.replaceColumnSettings (.int c) x)).runOn ⟨s, notes⟩ =
          (.error (.noSuchColumn (toString c) columns), ⟨s, notes⟩)) ∧
      (0 ≤ c ∧ c < s.columnCount rows → settings.Roomy (s.columnCount rows) → ∃ t more,
        (call (.ref a) (.replaceColumnSettings (.int c) x)).runOn ⟨s, notes⟩ = (.ok (.ref a), ⟨t, more⟩) ∧
          s.Overridden t a rows settings standard [(c.toNat, x)]) ∧
      (0 ≤ c ∧ c < s.columnCount rows → ¬settings.Roomy (s.columnCount rows) → ∃ more,
        (call (.ref a) (.replaceColumnSettings (.int c) x)).runOn ⟨s, notes⟩ = (.error .countTooLarge, ⟨s, more⟩))) ∧
    (∀ (rs : List (Nat × Value)) (notes : List Note), (∀ r ∈ rs, (r.1 : Int) < s.columnCount rows) →
      rs = [] ∨ settings.Roomy (s.columnCount rows) → ∃ t more,
        (replaceAll (.ref a) rs).runOn ⟨s, notes⟩ = (.ok (), ⟨t, more⟩) ∧
          s.Overridden t a rows settings standard rs) ∧
    ∀ (before behind : List (Nat × Value)) (c e : Nat) (x y : Value), c ≠ e →
      settings.overridden standard (s.columnCount rows).toNat (before ++ (c, x) :: (e, y) :: behind) =
        settings.overridden standard (s.columnCount rows).toNat (before ++ (e, y) :: (c, x) :: behind) := by
  refine ⟨fun c x notes => ⟨fun hc => runOn_replace_absent h hc x notes, fun hc hroom => ?_, fun hc hroom => ?_⟩,
    fun rs notes hrs hroom => ?_, fun before behind c e x y hne =>
      settings.overridden_swap standard (s.columnCount rows).toNat before behind hne x y⟩
  · obtain ⟨t, more, hrun, hresets, ht⟩ := exists_replaced h hgiven hroom hc x notes
    exact ⟨t, more, hrun, overridden_of_resets h hgiven hresets ht⟩
  · cases settings with
    | raw spec => exact runOn_replace_crowded h (Int.not_lt.mp hroom) hc x notes
    | _ => exact absurd trivial hroom
  · obtain ⟨t, more, hrun, hresets, ht⟩ := exists_replaceAll h hgiven hrs hroom notes
    exact ⟨t, more, hrun, overridden_of_resets h hgiven hresets ht⟩

/-- A table, the last of these objects, of one row that records its columns, with raw settings. -/
def rawTable (columns : Value) : Store :=
  ⟨#[.sequence .list [.text "a", .text "b"],
    .object .tableRow [("cells", .ref ⟨0⟩), ("columns", columns), ("skip_terminator", .bool false)],
    .sequence .list [.ref ⟨1⟩], .object .rawSettings [("spec", .text "rr")],
    .object .columnSettings [("alignment", .atom (.member (.alignment .left)))],
    .object .table [("rows", .ref ⟨2⟩), ("column_settings", .ref ⟨3⟩), ("default_column_settings", .ref ⟨4⟩)]], 0⟩

theorem rawTable_tabulates (n : Int) :
    (rawTable (.int n)).Tabulates ⟨5⟩ [.ref ⟨1⟩] (.raw (.text "rr")) (.ref ⟨4⟩) where
  kind := rfl
  listed := rfl
  counted v hv := by
    obtain rfl := List.mem_singleton.mp hv
    exact ⟨rfl, .int n, rfl, .inr ⟨n, rfl⟩⟩
  settings := rfl
  standard := rfl

/-- Both columns of a table are replaced, and the second one of them again. -/
theorem columns_replaced_raw :
    (rawTable (.int 2)).Tabulates ⟨5⟩ [.ref ⟨1⟩] (.raw (.text "rr")) (.ref ⟨4⟩) ∧
      (ColumnSettings.raw (.text "rr") : ColumnSettings Value).given? = some [] ∧
      ∃ t more, (replaceAll (.ref ⟨5⟩) [(1, .int 7), (0, .int 8), (1, .int 9)]).runOn ⟨rawTable (.int 2), []⟩ =
          (.ok (), ⟨t, more⟩) ∧
        (rawTable (.int 2)).Overridden t ⟨5⟩ [.ref ⟨1⟩] (.raw (.text "rr")) (.ref ⟨4⟩)
          [(1, .int 7), (0, .int 8), (1, .int 9)] := by
  have htable := rawTable_tabulates 2
  have hroom : (2 : Int) < Int.pow 2 63 := by decide
  exact ⟨htable, rfl, (columns_replaced htable rfl).2.1 _ [] (by decide) (.inr hroom)⟩

/-- The first column of a table is there, but it has more columns than can be numbered. -/
theorem replace_raw_countTooLarge : (rawTable (.int (Int.pow 2 63))).columnCount [.ref ⟨1⟩] = Int.pow 2 63 ∧
    ∃ more, (call (.ref ⟨5⟩) (.replaceColumnSettings (.int 0) (.ref ⟨4⟩))).runOn ⟨rawTable (.int (Int.pow 2 63)), []⟩ =
      (.error .countTooLarge, ⟨rawTable (.int (Int.pow 2 63)), more⟩) := by
  have hcount : (rawTable (.int (Int.pow 2 63))).columnCount [.ref ⟨1⟩] = Int.pow 2 63 := rfl
  have hcrowded : Int.pow 2 63 ≤ (rawTable (.int (Int.pow 2 63))).columnCount [.ref ⟨1⟩] :=
    Int.le_of_eq hcount.symm
  have hcolumn : (0 : Int) ≤ 0 ∧ 0 < (rawTable (.int (Int.pow 2 63))).columnCount [.ref ⟨1⟩] := by
    rw [hcount]
    decide
  exact ⟨hcount, runOn_replace_crowded (rawTable_tabulates (Int.pow 2 63)) hcrowded hcolumn (.ref ⟨4⟩) []⟩

end Change

end Manuscript
