import Manuscript.Proofs.Tables
import Manuscript.Proofs.Starting
/-!
# Steps that change rows

What the edits of the rows of a table do to a store: they go through iterators, make rows, put rows into the list of
the table, and add a cell to a row. Each of these steps keeps the rows arranged, with their cells in lists of their
own apart from that of the table, and no step touches the settings of columns or has a row ask for fewer columns.
-/
namespace Manuscript

open Cell (fieldIn)

namespace Value

/-- What a row records when it gets one more cell. -/
def more (v : Value) : Value :=
  match v.asInt? with
  | some n => .int (n + 1)
  | Option.none => v

theorem IsCount.more {v : Value} (h : v.IsCount) : v.more.IsCount ∧ v.count ≤ v.more.count := by
  rcases h with rfl | ⟨n, hn⟩
  · exact ⟨.inl rfl, Int.le_refl _⟩
  · have hmore : v.more = .int (n + 1) := by rw [Value.more, hn]
    rw [hmore, Value.count, hn]
    exact ⟨.inr ⟨n + 1, rfl⟩, Int.le_add_of_nonneg_right (by decide)⟩

end Value

namespace Store

/-- The cells of a row are in a list. -/
def HasCells (s : Store) (r q : Ref) : Prop :=
  ∃ fields, s.cell? r = some (.object .tableRow fields) ∧ fieldIn fields "cells" = .ref q

/-- The cells of no row are in a list. -/
def NoCells (s : Store) (q : Ref) : Prop := ∀ r, ¬s.HasCells r q

/-- A row with its cells in a list, which records a whole number of columns or none. An exact one records as many as
it has cells if a terminator ends it, and else none. -/
structure RowAt (s : Store) (exact : Prop) (fields : List (String × Value)) (q : Ref) (items : List Value) : Prop where
  cells : fieldIn fields "cells" = .ref q
  list : s.cell? q = some (.sequence .list items)
  columns : ∃ columns, fields.lookup "columns" = some columns ∧ columns.IsCount
  exactly : exact → ∃ skip : Atom, fieldIn fields "skip_terminator" = .atom skip ∧
    fieldIn fields "columns" = if skip.isTrue then .none else .int items.length

/-- A table with its rows in a list. All rows there are have their cells in lists, each in one of its own that is not
the list of the table. -/
structure Arranged (s : Store) (exact : Prop) (a l : Ref) (rows : List Value) : Prop where
  table : s.kind? (.ref a) = some .table
  place : (s.field? (.ref a) "rows").getD .none = .ref l
  listed : s.cell? l = some (.sequence .list rows)
  members : ∀ v ∈ rows, s.kind? v = some .tableRow
  row : ∀ r fields, s.cell? r = some (.object .tableRow fields) → ∃ q items, s.RowAt exact fields q items
  own : ∀ p r q, s.HasCells p q → s.HasCells r q → p = r
  apart : s.NoCells l

/-- What edits of the rows in a list leave of a store: all objects but rows, and the lists apart from rows. No row
asks for fewer columns than before, and only new lists come to hold cells. -/
structure RowsEdited (s t : Store) (l : Ref) : Prop where
  size : s.cells.size ≤ t.cells.size
  objects : ∀ r kind fields, kind ≠ .tableRow → s.cell? r = some (.object kind fields) →
    t.cell? r = some (.object kind fields)
  rows : ∀ v, s.IsRow v → t.IsRow v ∧ s.width v ≤ t.width v
  lists : ∀ m items, m ≠ l → s.NoCells m → s.cell? m = some (.sequence .list items) →
    t.cell? m = some (.sequence .list items)
  holds : ∀ r q, t.HasCells r q → s.HasCells r q ∨ s.cells.size ≤ q.index

/-- One store comes from another one by new cells, with one row among them at most, whose cells are in a new list.
Iterators may have been gone through. -/
structure RowMade (s t : Store) (exact : Prop) (p : Ref) : Prop where
  size : s.cells.size ≤ t.cells.size
  keeps : s.Keeps t
  row : ∀ r fields, t.cell? r = some (.object .tableRow fields) → s.cell? r = some (.object .tableRow fields) ∨
    r = p ∧ ∃ q items, t.RowAt exact fields q items ∧ s.cells.size ≤ q.index

/-- The settings of a column with this alignment. -/
def AlignedAs (s : Store) (v : Value) (alignment : Alignment) : Prop :=
  ∃ r fields, v = .ref r ∧ s.cell? r = some (.object .columnSettings fields) ∧
    fields.lookup "alignment" = some (.atom (.member (.alignment alignment)))

/-- Column settings that are raw, or in a list that is neither that of the rows nor one of cells. -/
inductive Lists (s : Store) (l : Ref) : Value → ColumnSettings Alignment → Prop
  | typed {p m : Ref} {fields : List (String × Value)} {given : List Value} {alignments : List Alignment}
      (cell : s.cell? p = some (.object .typedSettings fields)) (columns : fields.lookup "columns" = some (.ref m))
      (list : s.cell? m = some (.sequence .list given)) (other : m ≠ l) (apart : s.NoCells m)
      (aligned : List.Forall₂ s.AlignedAs given alignments) : Lists s l (.ref p) (.typed alignments)
  | raw {p : Ref} {fields : List (String × Value)} {spec : Atom}
      (cell : s.cell? p = some (.object .rawSettings fields)) (text : fieldIn fields "spec" = .atom spec) :
      Lists s l (.ref p) (.raw (.atom spec))

/-- The column settings and the standard settings of a table. -/
structure Aligns (s : Store) (a l : Ref) (settings : ColumnSettings Alignment) (usual : Alignment) : Prop where
  columns : s.Lists l ((s.field? (.ref a) "column_settings").getD .none) settings
  standard : s.AlignedAs ((s.field? (.ref a) "default_column_settings").getD .none) usual

variable {s t u : Store} {exact : Prop} {a l p q r : Ref} {rows items : List Value} {v w : Value}
  {fields : List (String × Value)} {settings : ColumnSettings Alignment} {usual : Alignment}

/-! ## Reading -/

theorem AlignedAs.column {alignment : Alignment} (h : s.AlignedAs v alignment) : s.column v = .aligned alignment := by
  obtain ⟨r, fields, rfl, hcell, halignment⟩ := h
  have hattribute : s.attribute? (.ref r) "alignment" = some (.atom (.member (.alignment alignment))) := by
    simp [attribute?, field?, target?, Value.ref?, hcell, halignment]
  rw [Store.column, hattribute]

theorem map_column {given : List Value} {alignments : List Alignment}
    (h : List.Forall₂ s.AlignedAs given alignments) : given.map s.column = alignments.map .aligned := by
  induction h with
  | nil => rfl
  | cons hv _ ih => rw [List.map_cons, List.map_cons, hv.column, ih]

theorem field?_of_cell {kind : Kind} (h : s.cell? r = some (.object kind fields)) (name : String) :
    s.field? (.ref r) name = fields.lookup name := by
  simp [field?, target?, Value.ref?, h]

/-- A row with the same fields in another store asks for the same columns. -/
theorem IsRow.of_cell (h : s.IsRow (.ref r)) (hs : s.cell? r = some (.object .tableRow fields))
    (ht : t.cell? r = some (.object .tableRow fields)) : t.IsRow (.ref r) ∧ s.width (.ref r) ≤ t.width (.ref r) := by
  obtain ⟨_, columns, hcolumns, hcount⟩ := h
  rw [field?_of_cell hs] at hcolumns
  have hwidth : s.width (.ref r) = t.width (.ref r) := by
    rw [width, width, field?_of_cell hs, field?_of_cell ht]
  exact ⟨⟨kind?_eq_some.mpr ⟨r, fields, rfl, ht⟩, columns, by rw [field?_of_cell ht, hcolumns], hcount⟩,
    Int.le_of_eq hwidth⟩

theorem Arranged.isRow (h : s.Arranged exact a l rows) (hv : s.kind? v = some .tableRow) : s.IsRow v := by
  obtain ⟨r, fields, rfl, hcell⟩ := kind?_eq_some.mp hv
  obtain ⟨q, items, hrow⟩ := h.row r fields hcell
  refine ⟨hv, ?_⟩
  rw [field?_of_cell hcell]
  exact hrow.columns

theorem Arranged.list? (h : s.Arranged exact a l rows) :
    s.list? ((s.field? (.ref a) "rows").getD .none) = some rows := by
  rw [h.place]
  exact list?_eq_some.mpr ⟨l, rfl, h.listed⟩

theorem Arranged.tabulates (h : s.Arranged exact a l rows) {settings : ColumnSettings Value}
    (hsettings : s.settingsOf ((s.field? (.ref a) "column_settings").getD .none) = settings) :
    s.Tabulates a rows settings ((s.field? (.ref a) "default_column_settings").getD .none) :=
  ⟨h.table, h.list?, fun v hv => h.isRow (h.members v hv), hsettings, rfl⟩

theorem Arranged.exists_tabulates (h : s.Arranged exact a l rows) (hset : s.Aligns a l settings usual) :
    ∃ columns, s.Tabulates a rows columns ((s.field? (.ref a) "default_column_settings").getD .none) ∧
      ((∃ given alignments, columns = .typed given ∧ settings = .typed alignments ∧
          List.Forall₂ s.AlignedAs given alignments) ∨
        ∃ spec : Atom, columns = .raw (.atom spec) ∧ settings = .raw (.atom spec)) := by
  have hcolumns := hset.columns
  generalize hv : (s.field? (.ref a) "column_settings").getD .none = v at hcolumns
  cases hcolumns with
  | @typed p m fields given alignments cell columns list other apart aligned =>
    have hsettings : s.settingsOf (.ref p) = .typed given :=
      settingsOf_typedSettings cell columns (list?_eq_some.mpr ⟨m, rfl, list⟩)
    exact ⟨_, h.tabulates (hv ▸ hsettings), .inl ⟨given, alignments, rfl, rfl, aligned⟩⟩
  | @raw p fields spec cell text =>
    have hsettings : s.settingsOf (.ref p) = .raw (.atom spec) := by
      rw [settingsOf_rawSettings cell, ← fieldIn, text]
      exact congrArg ColumnSettings.raw (Carried.datumTo_atom s s.depth spec)
    exact ⟨_, h.tabulates (hv ▸ hsettings), .inr ⟨spec, rfl, rfl⟩⟩

end Store

/-- What a table of `n` columns is headed by. -/
def Columns.heading (settings : ColumnSettings Alignment) (usual : Alignment) (n : Nat) : Datum :=
  match settings with
  | .typed alignments => .text (letters alignments usual n)
  | .raw spec => spec
  | _ => .none

/-- The specification of a table is told from its settings and from the columns that its rows ask for. -/
theorem Change.runOn_columnSpec {s : Store} {exact : Prop} {a l : Ref} {rows : List Value}
    {settings : ColumnSettings Alignment} {usual : Alignment} (h : s.Arranged exact a l rows)
    (hset : s.Aligns a l settings usual) (notes : List Note) : (columnSpec (.ref a)).runOn ⟨s, notes⟩ =
      (.ok (Columns.heading settings usual (s.columnCount rows).toNat), ⟨s, notes⟩) := by
  obtain ⟨columns, htable, ⟨given, alignments, rfl, rfl, haligned⟩ | ⟨spec, rfl, rfl⟩⟩ := h.exists_tabulates hset
  · exact runOn_columnSpec_typed htable (Store.map_column haligned) hset.standard.column notes
  · exact runOn_columnSpec_raw htable notes

namespace Store

variable {s t u : Store} {exact : Prop} {a l p q r : Ref} {rows items : List Value} {v w : Value}
  {fields : List (String × Value)} {settings : ColumnSettings Alignment} {usual : Alignment}

/-! ## Steps -/

theorem NoCells.edited (h : s.NoCells q) (ht : s.RowsEdited t l) (hq : q.index < s.cells.size) : t.NoCells q := by
  intro r hr
  rcases ht.holds r q hr with hold | hnew
  · exact h r hold
  · omega

namespace RowsEdited

theorem refl (s : Store) (l : Ref) : s.RowsEdited s l :=
  ⟨Nat.le_refl _, fun _ _ _ _ hc => hc, fun _ hv => ⟨hv, Int.le_refl _⟩, fun _ _ _ _ hc => hc, fun _ _ hr => .inl hr⟩

theorem trans (h : s.RowsEdited t l) (h' : t.RowsEdited u l) : s.RowsEdited u l where
  size := Nat.le_trans h.size h'.size
  objects r kind fields hrow hc := h'.objects r kind fields hrow (h.objects r kind fields hrow hc)
  rows v hv := by
    obtain ⟨ht, hle⟩ := h.rows v hv
    obtain ⟨hu, hle'⟩ := h'.rows v ht
    exact ⟨hu, Int.le_trans hle hle'⟩
  lists m items hm hapart hlist :=
    h'.lists m items hm (hapart.edited h (index_lt hlist)) (h.lists m items hm hapart hlist)
  holds r q hr := by
    rcases h'.holds r q hr with ht | hnew
    · exact h.holds r q ht
    · exact .inr (Nat.le_trans h.size hnew)

theorem field? {kind : Kind} (ht : s.RowsEdited t l) (hk : s.kind? v = some kind) (hrow : kind ≠ .tableRow)
    (name : String) : t.kind? v = some kind ∧ t.field? v name = s.field? v name := by
  obtain ⟨r, fields, rfl, hcell⟩ := kind?_eq_some.mp hk
  have hcell' := ht.objects r kind fields hrow hcell
  exact ⟨kind?_eq_some.mpr ⟨r, fields, rfl, hcell'⟩, by rw [field?_of_cell hcell', field?_of_cell hcell]⟩

end RowsEdited

theorem Lists.edited (h : s.Lists l v settings) (ht : s.RowsEdited t l) : t.Lists l v settings := by
  cases h with
  | typed cell columns list other apart aligned =>
    refine .typed (ht.objects _ _ _ (by decide) cell) columns (ht.lists _ _ other apart list) other
      (apart.edited ht (index_lt list)) (aligned.imp ?_)
    rintro x alignment ⟨r, fields, rfl, hcell, halignment⟩
    exact ⟨r, fields, rfl, ht.objects _ _ _ (by decide) hcell, halignment⟩
  | raw cell text => exact .raw (ht.objects _ _ _ (by decide) cell) text

/-- No edit of rows touches the settings of columns. -/
theorem Aligns.edited (h : s.Aligns a l settings usual) (hk : s.kind? (.ref a) = some .table) (ht : s.RowsEdited t l) :
    t.Aligns a l settings usual where
  columns := by
    rw [(ht.field? hk (by decide) "column_settings").2]
    exact h.columns.edited ht
  standard := by
    rw [(ht.field? hk (by decide) "default_column_settings").2]
    obtain ⟨r, fields, hr, hcell, halignment⟩ := h.standard
    exact ⟨r, fields, hr, ht.objects _ _ _ (by decide) hcell, halignment⟩

theorem Arranged.edited {new : List Value} (h : s.Arranged exact a l rows) (ht : s.RowsEdited t l)
    (listed : t.cell? l = some (.sequence .list new)) (members : ∀ v ∈ new, t.kind? v = some .tableRow)
    (row : ∀ r fields, t.cell? r = some (.object .tableRow fields) → ∃ q items, t.RowAt exact fields q items)
    (own : ∀ p r q, t.HasCells p q → t.HasCells r q → p = r) : t.Arranged exact a l new where
  table := (ht.field? h.table (by decide) "rows").1
  place := by
    rw [(ht.field? h.table (by decide) "rows").2]
    exact h.place
  listed := listed
  members := members
  row := row
  own := own
  apart := h.apart.edited ht (index_lt h.listed)

theorem RowAt.keeps (h : s.RowAt exact fields q items) (ht : s.Keeps t) : t.RowAt exact fields q items :=
  ⟨h.cells, ht q _ h.list rfl, h.columns, h.exactly⟩

/-- A row that gets one more cell is exact if it was. -/
theorem RowAt.more {changed : List (String × Value)} {columns : Value} (h : s.RowAt exact fields q items)
    (hcolumns : fields.lookup "columns" = some columns) (hmore : changed.lookup "columns" = some columns.more)
    (hsame : ∀ name, name ≠ "columns" → fieldIn changed name = fieldIn fields name)
    (hlist : t.cell? q = some (.sequence .list (items ++ [w]))) : t.RowAt exact changed q (items ++ [w]) where
  cells := (hsame "cells" (by decide)).trans h.cells
  list := hlist
  columns := by
    obtain ⟨found, hfound, hcount⟩ := h.columns
    obtain rfl := Option.some.inj (hcolumns.symm.trans hfound)
    exact ⟨columns.more, hmore, hcount.more.1⟩
  exactly hexact := by
    obtain ⟨skip, hskip, hcount⟩ := h.exactly hexact
    refine ⟨skip, (hsame "skip_terminator" (by decide)).trans hskip, ?_⟩
    rw [fieldIn, hcolumns, Option.getD_some] at hcount
    rw [fieldIn, hmore, Option.getD_some, hcount, List.length_append, List.length_singleton]
    cases skip.isTrue <;> rfl

theorem Arranged.list_of_hasCells (h : s.Arranged exact a l rows) (hr : s.HasCells r q) :
    ∃ items, s.cell? q = some (.sequence .list items) := by
  obtain ⟨fields, hcell, hq⟩ := hr
  obtain ⟨p, items, hrow⟩ := h.row r fields hcell
  obtain rfl := Value.ref.inj (hrow.cells.symm.trans hq)
  exact ⟨items, hrow.list⟩

theorem RowMade.hasCells (h : s.RowMade t exact p) (hr : t.HasCells r q) :
    s.HasCells r q ∨ r = p ∧ s.cells.size ≤ q.index := by
  obtain ⟨fields, hcell, hq⟩ := hr
  rcases h.row r fields hcell with hold | ⟨rfl, m, items, hrow, hnew⟩
  · exact .inl ⟨fields, hold, hq⟩
  · obtain rfl := Value.ref.inj (hrow.cells.symm.trans hq)
    exact .inr ⟨rfl, hnew⟩

theorem RowMade.edited (h : s.RowMade t exact p) (l : Ref) : s.RowsEdited t l where
  size := h.size
  objects r kind fields _ hcell := h.keeps r _ hcell rfl
  rows v hv := by
    obtain ⟨r, fields, rfl, hcell⟩ := kind?_eq_some.mp hv.1
    exact hv.of_cell hcell (h.keeps r _ hcell rfl)
  lists m items _ _ hm := h.keeps m _ hm rfl
  holds r q hr := (h.hasCells hr).imp_right And.right

/-- A new row leaves the other ones as they are. -/
theorem Arranged.rowMade (h : s.Arranged exact a l rows) (ht : s.RowMade t exact p) : t.Arranged exact a l rows := by
  have hold {r q : Ref} (hr : s.HasCells r q) : q.index < s.cells.size := by
    obtain ⟨items, hlist⟩ := h.list_of_hasCells hr
    exact index_lt hlist
  apply h.edited (ht.edited l) (ht.keeps l _ h.listed rfl) fun v hv => ht.keeps.kind? v _ (h.members v hv)
  · intro r fields hcell
    rcases ht.row r fields hcell with hbefore | ⟨_, q, items, hrow, _⟩
    · obtain ⟨q, items, hrow⟩ := h.row r fields hbefore
      exact ⟨q, items, hrow.keeps ht.keeps⟩
    · exact ⟨q, items, hrow⟩
  · intro x y q hx hy
    rcases ht.hasCells hx with hx | ⟨rfl, hx⟩ <;> rcases ht.hasCells hy with hy | ⟨rfl, hy⟩
    · exact h.own x y q hx hy
    · exact absurd (hold hx) (Nat.not_lt.mpr hy)
    · exact absurd (hold hy) (Nat.not_lt.mpr hx)
    · rfl

/-! ## Rows in the list of a table -/

theorem cell?_put_list_object {old new : List Value} {kind : Kind} (h : s.cell? l = some (.sequence .list old)) :
    (s.put l (.sequence .list new)).cell? r = some (.object kind fields) ↔ s.cell? r = some (.object kind fields) := by
  by_cases hr : r = l
  · subst hr
    rw [cell?_put_self s r _ (index_lt h), h]
    simp
  · rw [cell?_put_of_ne s l r _ hr]

theorem hasCells_put_list {old new : List Value} (h : s.cell? l = some (.sequence .list old)) :
    (s.put l (.sequence .list new)).HasCells r q ↔ s.HasCells r q :=
  exists_congr fun _ => and_congr_left fun _ => cell?_put_list_object h

theorem edited_put_list {old new : List Value} (h : s.cell? l = some (.sequence .list old)) :
    s.RowsEdited (s.put l (.sequence .list new)) l where
  size := by simp [put]
  objects r kind fields _ hcell := (cell?_put_list_object h).mpr hcell
  rows v hv := by
    obtain ⟨r, fields, rfl, hcell⟩ := kind?_eq_some.mp hv.1
    exact hv.of_cell hcell ((cell?_put_list_object h).mpr hcell)
  lists m items hm _ hlist := (cell?_put_of_ne s l m _ hm).trans hlist
  holds r q hr := .inl ((hasCells_put_list h).mp hr)

/-- Other rows are put into the list of the table. -/
theorem Arranged.setRows {new : List Value} (h : s.Arranged exact a l rows)
    (members : ∀ v ∈ new, s.kind? v = some .tableRow) : (s.put l (.sequence .list new)).Arranged exact a l new := by
  have hedited : s.RowsEdited (s.put l (.sequence .list new)) l := edited_put_list h.listed
  apply h.edited hedited (cell?_put_self s l _ (index_lt h.listed)) fun v hv =>
    (hedited.rows v (h.isRow (members v hv))).1.1
  · intro r fields hcell
    have hold : s.cell? r = some (.object .tableRow fields) := (cell?_put_list_object h.listed).mp hcell
    obtain ⟨q, items, hrow⟩ := h.row r fields hold
    have hne : q ≠ l := by
      rintro rfl
      exact h.apart r ⟨fields, hold, hrow.cells⟩
    exact ⟨q, items, hrow.cells, (cell?_put_of_ne s l q _ hne).trans hrow.list, hrow.columns, hrow.exactly⟩
  · intro x y q hx hy
    exact h.own x y q ((hasCells_put_list h.listed).mp hx) ((hasCells_put_list h.listed).mp hy)

/-! ## Cells in a row -/

/-- One store comes from another one by a change of one row with its list of cells, which asks for no fewer columns
then. -/
structure RowGrown (s t : Store) (exact : Prop) (r q : Ref) (fields changed : List (String × Value)) : Prop where
  size : t.cells.size = s.cells.size
  before : s.cell? r = some (.object .tableRow fields)
  cells : fieldIn fields "cells" = .ref q
  list : ∃ old, s.cell? q = some (.sequence .list old)
  after : t.cell? r = some (.object .tableRow changed)
  row : ∃ items, t.RowAt exact changed q items
  width : s.width (.ref r) ≤ t.width (.ref r)
  same : ∀ x, x ≠ r → x ≠ q → t.cell? x = s.cell? x

namespace RowGrown

variable {changed : List (String × Value)}

theorem object (h : s.RowGrown t exact r q fields changed) {x : Ref} {kind : Kind} {given : List (String × Value)}
    (hx : x ≠ r) : t.cell? x = some (.object kind given) ↔ s.cell? x = some (.object kind given) := by
  by_cases hxq : x = q
  · subst hxq
    obtain ⟨old, hold⟩ := h.list
    obtain ⟨items, hrow⟩ := h.row
    rw [hrow.list, hold]
    simp
  · rw [h.same x hx hxq]

theorem hasCells (h : s.RowGrown t exact r q fields changed) {x m : Ref} (hx : t.HasCells x m) : s.HasCells x m := by
  obtain ⟨given, hgiven, hm⟩ := hx
  by_cases hxr : x = r
  · subst hxr
    obtain ⟨items, hrow⟩ := h.row
    obtain ⟨-, rfl⟩ := Cell.object.inj (Option.some.inj (h.after.symm.trans hgiven))
    exact ⟨fields, h.before, h.cells.trans (hrow.cells.symm.trans hm)⟩
  · exact ⟨given, (h.object hxr).mp hgiven, hm⟩

theorem other_list (h : s.RowGrown t exact r q fields changed) {m : Ref} {found : List Value} (hm : m ≠ q)
    (hfound : s.cell? m = some (.sequence .list found)) : t.cell? m = some (.sequence .list found) :=
  (h.same m (object_ne_list h.before hfound).symm hm).trans hfound

theorem ne_of_noCells (h : s.RowGrown t exact r q fields changed) {m : Ref} (hm : s.NoCells m) : m ≠ q := by
  rintro rfl
  exact hm r ⟨fields, h.before, h.cells⟩

theorem edited (h : s.RowGrown t exact r q fields changed) (l : Ref) : s.RowsEdited t l where
  size := Nat.le_of_eq h.size.symm
  objects x kind given hkind hx := by
    have hxr : x ≠ r := by
      rintro rfl
      rw [h.before] at hx
      exact hkind (Cell.object.inj (Option.some.inj hx)).1.symm
    exact (h.object hxr).mpr hx
  rows v hv := by
    obtain ⟨x, given, rfl, hx⟩ := kind?_eq_some.mp hv.1
    by_cases hxr : x = r
    · subst hxr
      obtain ⟨items, hrow⟩ := h.row
      refine ⟨⟨kind?_eq_some.mpr ⟨x, changed, rfl, h.after⟩, ?_⟩, h.width⟩
      rw [field?_of_cell h.after]
      exact hrow.columns
    · exact hv.of_cell hx ((h.object hxr).mpr hx)
  lists m found _ hm hfound := h.other_list (h.ne_of_noCells hm) hfound
  holds x m hx := .inl (h.hasCells hx)

end RowGrown

/-- No other row has its cells in the list that gets one more. -/
theorem Arranged.rowGrown {changed : List (String × Value)} (h : s.Arranged exact a l rows)
    (ht : s.RowGrown t exact r q fields changed) : t.Arranged exact a l rows := by
  apply h.edited (ht.edited l) (ht.other_list (ht.ne_of_noCells h.apart) h.listed) fun v hv =>
    ((ht.edited l).rows v (h.isRow (h.members v hv))).1.1
  · intro x given hx
    by_cases hxr : x = r
    · subst hxr
      obtain ⟨-, rfl⟩ := Cell.object.inj (Option.some.inj (ht.after.symm.trans hx))
      exact ⟨q, ht.row⟩
    · have hold : s.cell? x = some (.object .tableRow given) := (ht.object hxr).mp hx
      obtain ⟨m, found, hfound⟩ := h.row x given hold
      have hmq : m ≠ q := by
        rintro rfl
        exact hxr (h.own x r m ⟨given, hold, hfound.cells⟩ ⟨fields, ht.before, ht.cells⟩)
      exact ⟨m, found, hfound.cells, ht.other_list hmq hfound.list, hfound.columns, hfound.exactly⟩
  · intro x y m hx hy
    exact h.own x y m (ht.hasCells hx) (ht.hasCells hy)

end Store

end Manuscript
