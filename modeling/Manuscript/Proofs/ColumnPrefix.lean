import Manuscript.Proofs.ColumnReplacement
import Manuscript.Proofs.RowEdits
import Mathlib.Order.Nat
/-!
# Columns keep their letters

The specification of a table has a letter for each column, and edits of the rows change how many columns there are but
not how one of them is aligned. So of the specifications before and after some edits one is the beginning of the other.
This is as true of a table whose columns were replaced before.
-/
namespace Manuscript

namespace Columns

variable {α : Type} {given : List α} {standard x v : α} {n c : Nat}

theorem mem_replaced (h : v ∈ replaced given standard n (c, x)) : v = x ∨ v ∈ given ∨ v = standard := by
  rcases List.mem_or_eq_of_mem_set h with hpadded | hnew
  · rcases List.mem_append.mp hpadded with hgiven | hbeyond
    · exact .inr (.inl hgiven)
    · obtain rfl := List.eq_of_mem_replicate hbeyond
      rw [beyond]
      cases hlast : given.getLast? with
      | none => exact .inr (.inr rfl)
      | some last => exact .inr (.inl (List.mem_of_getLast? hlast))
  · exact .inl hnew

end Columns

namespace Store

variable {s t : Store} {exact : Prop} {a l r : Ref} {rows columns : List Value} {v : Value}
  {fields : List (String × Value)} {settings : ColumnSettings Alignment} {usual : Alignment}

/-- With all its rows and more, of which none asks for less than before, a table has no fewer columns. -/
theorem Arranged.columnCount_le {new : List Value} (h : s.Arranged exact a l rows) (ht : s.RowsEdited t l)
    (hsub : ∀ v ∈ rows, v ∈ new) : (s.columnCount rows).toNat ≤ (t.columnCount new).toNat := by
  rw [columnCount, columnCount, Rows.toNat_greatest, Rows.toNat_greatest]
  apply List.max_le_of_forall_le
  intro n hn
  obtain ⟨m, hm, rfl⟩ := List.mem_map.mp hn
  obtain ⟨v, hv, rfl⟩ := List.mem_map.mp hm
  have hle : s.width v ≤ t.width v := (ht.rows v (h.isRow (h.members v hv))).2
  have hmem : (t.width v).toNat ∈ (new.map t.width).map Int.toNat :=
    List.mem_map_of_mem (List.mem_map_of_mem (hsub v hv))
  exact List.le_max_of_le' 0 hmem (Int.toNat_le_toNat hle)

/-! ## New settings -/

theorem Retyped.tableRow_iff (h : s.Retyped t a columns) (hk : s.kind? (.ref a) = some .table) :
    t.cell? r = some (.object .tableRow fields) ↔ s.cell? r = some (.object .tableRow fields) := by
  constructor
  · intro hcell
    have hne : r ≠ a := by
      rintro rfl
      have hrow := kind?_eq_some.mpr ⟨r, fields, rfl, hcell⟩
      rw [h.kind, hk] at hrow
      cases hrow
    by_cases hold : r.index < s.cells.size
    · exact (h.cell r hne hold).symm.trans hcell
    · have hlt : r.index < s.cells.size + 2 := h.size ▸ index_lt hcell
      obtain rfl | rfl : r = ⟨s.cells.size⟩ ∨ r = ⟨s.cells.size + 1⟩ := by
        cases r
        simp only [Ref.mk.injEq] at *
        omega
      · rw [h.list] at hcell
        cases hcell
      · rw [h.wrapper] at hcell
        cases hcell
  · intro hcell
    have hne : r ≠ a := by
      rintro rfl
      have hrow := kind?_eq_some.mpr ⟨r, fields, rfl, hcell⟩
      rw [hk] at hrow
      cases hrow
    exact (h.cell r hne (index_lt hcell)).trans hcell

theorem Retyped.hasCells_iff (h : s.Retyped t a columns) (hk : s.kind? (.ref a) = some .table) (r q : Ref) :
    t.HasCells r q ↔ s.HasCells r q :=
  exists_congr fun _ => and_congr_left fun _ => h.tableRow_iff hk

theorem Retyped.keeps_list (h : s.Retyped t a columns) (hk : s.kind? (.ref a) = some .table) {q : Ref}
    {items : List Value} (hq : s.cell? q = some (.sequence .list items)) :
    t.cell? q = some (.sequence .list items) := by
  obtain ⟨p, given, hp, hcell⟩ := kind?_eq_some.mp hk
  obtain rfl := Value.ref.inj hp
  exact (h.cell q (object_ne_list hcell hq).symm (index_lt hq)).trans hq

/-- New settings of columns leave the rows arranged. -/
theorem Arranged.retyped (h : s.Arranged exact a l rows) (ht : s.Retyped t a columns) : t.Arranged exact a l rows where
  table := ht.kind.trans h.table
  place := by
    rw [ht.field, if_neg (by decide), h.place]
  listed := ht.keeps_list h.table h.listed
  members v hv := by
    obtain ⟨r, fields, rfl, hcell⟩ := kind?_eq_some.mp (h.members v hv)
    exact kind?_eq_some.mpr ⟨r, fields, rfl, (ht.tableRow_iff h.table).mpr hcell⟩
  row r fields hcell := by
    obtain ⟨q, items, hrow⟩ := h.row r fields ((ht.tableRow_iff h.table).mp hcell)
    exact ⟨q, items, hrow.cells, ht.keeps_list h.table hrow.list, hrow.columns, hrow.exactly⟩
  own p r q hp hr := h.own p r q ((ht.hasCells_iff h.table p q).mp hp) ((ht.hasCells_iff h.table r q).mp hr)
  apart r hr := h.apart r ((ht.hasCells_iff h.table r l).mp hr)

theorem exists_alignments {given : List Value} (h : ∀ v ∈ given, ∃ alignment, s.AlignedAs v alignment) :
    ∃ alignments, List.Forall₂ s.AlignedAs given alignments := by
  induction given with
  | nil => exact ⟨[], .nil⟩
  | cons v given ih =>
    obtain ⟨alignment, hv⟩ := h v List.mem_cons_self
    obtain ⟨alignments, hrest⟩ := ih fun w hw => h w (List.mem_cons_of_mem v hw)
    exact ⟨alignment :: alignments, .cons hv hrest⟩

theorem exists_alignment_of_mem {given : List Value} {alignments : List Alignment}
    (h : List.Forall₂ s.AlignedAs given alignments) : ∀ v ∈ given, ∃ alignment, s.AlignedAs v alignment := by
  induction h with
  | nil => simp
  | cons hv _ ih => exact List.forall_mem_cons.mpr ⟨⟨_, hv⟩, ih⟩

theorem Retyped.alignedAs (h : s.Retyped t a columns) (hk : s.kind? (.ref a) = some .table) {alignment : Alignment}
    (hv : s.AlignedAs v alignment) : t.AlignedAs v alignment := by
  obtain ⟨r, fields, rfl, hcell, halignment⟩ := hv
  have hne : r ≠ a := by
    rintro rfl
    have hcolumn := kind?_eq_some.mpr ⟨r, fields, rfl, hcell⟩
    rw [hk] at hcolumn
    cases hcolumn
  exact ⟨r, fields, rfl, (h.cell r hne (index_lt hcell)).trans hcell, halignment⟩

/-- New settings are in a list of their own. -/
theorem Aligns.retyped (hset : s.Aligns a l settings usual) (h : s.Arranged exact a l rows) (ht : s.Retyped t a columns)
    (haligned : ∀ v ∈ columns, ∃ alignment, s.AlignedAs v alignment) :
    ∃ alignments, t.Aligns a l (.typed alignments) usual := by
  obtain ⟨alignments, hcolumns⟩ := exists_alignments haligned
  refine ⟨alignments, ?_, ?_⟩
  · rw [ht.field, if_pos rfl]
    refine .typed ht.wrapper rfl ht.list ?_ (fun r hr => ?_) (hcolumns.imp fun _ _ => ht.alignedAs h.table)
    · rintro rfl
      exact absurd (index_lt h.listed) (Nat.lt_irrefl _)
    · obtain ⟨items, hlist⟩ := h.list_of_hasCells ((ht.hasCells_iff h.table r _).mp hr)
      exact absurd (index_lt hlist) (Nat.lt_irrefl _)
  · rw [ht.field, if_neg (by decide)]
    exact ht.alignedAs h.table hset.standard

end Store

namespace Change

variable {s : Store} {exact : Prop} {a l : Ref} {rows : List Value} {settings : ColumnSettings Alignment}
  {usual : Alignment}

/-- To replace a column leaves the rows arranged, and the settings apart from them, even if it is refused. -/
theorem exists_aligns_replace (h : s.Arranged exact a l rows) (hset : s.Aligns a l settings usual) (c : Int) {x : Value}
    {alignment : Alignment} (hx : s.AlignedAs x alignment) (notes : List Note) :
    ((call (.ref a) (.replaceColumnSettings (.int c) x)).runOn ⟨s, notes⟩).2.store.Arranged exact a l rows ∧
      ∃ now, ((call (.ref a) (.replaceColumnSettings (.int c) x)).runOn ⟨s, notes⟩).2.store.Aligns a l now usual := by
  obtain ⟨columns, htable, hcolumns⟩ := h.exists_tabulates hset
  by_cases hc : 0 ≤ c ∧ c < s.columnCount rows
  · obtain ⟨given, hgiven, haligned⟩ : ∃ given, columns.given? = some given ∧
        ∀ v ∈ given, ∃ alignment, s.AlignedAs v alignment := by
      rcases hcolumns with ⟨given, alignments, rfl, _, haligned⟩ | ⟨spec, rfl, _⟩
      · exact ⟨given, rfl, Store.exists_alignment_of_mem haligned⟩
      · exact ⟨[], rfl, by simp⟩
    by_cases hroom : columns.Roomy (s.columnCount rows)
    · obtain ⟨more, hrun⟩ := runOn_replace htable hgiven hroom hc x notes
      have hretyped := Store.retyped_spec h.table
        (Columns.replaced given ((s.field? (.ref a) "default_column_settings").getD .none) (s.columnCount rows).toNat
          (c.toNat, x))
      rw [hrun]
      refine ⟨h.retyped hretyped, ?_⟩
      obtain ⟨alignments, hnow⟩ := hset.retyped h hretyped fun v hv => by
        rcases Columns.mem_replaced hv with rfl | hold | rfl
        · exact ⟨alignment, hx⟩
        · exact haligned v hold
        · exact ⟨usual, hset.standard⟩
      exact ⟨.typed alignments, hnow⟩
    · rcases hcolumns with ⟨given, alignments, rfl, _, _⟩ | ⟨spec, rfl, _⟩
      · exact absurd trivial hroom
      · obtain ⟨more, hrun⟩ := runOn_replace_crowded htable (Int.not_lt.mp hroom) hc x notes
        rw [hrun]
        exact ⟨h, settings, hset⟩
  · obtain ⟨text, hrun⟩ := runOn_replace_absent htable hc x notes
    rw [hrun]
    exact ⟨h, settings, hset⟩

end Change

/-- Edits of the rows of a table among which columns are replaced by columns with an alignment. -/
inductive ColumnRun (a : Ref) (s : Store) (start : List Value) : Store → List Value → Prop
  | start : ColumnRun a s start s start
  | rows {t u : Store} {rows new : List Value} (run : ColumnRun a s start t rows)
      (edits : RowRun False a t rows u new) : ColumnRun a s start u new
  | column {t : Store} {rows : List Value} (run : ColumnRun a s start t rows) (c : Int) (x : Value)
      (alignment : Alignment) (aligned : t.AlignedAs x alignment) (notes : List Note) :
      ColumnRun a s start ((Change.call (.ref a) (.replaceColumnSettings (.int c) x)).runOn ⟨t, notes⟩).2.store rows

theorem ColumnRun.arranged {s t : Store} {a l : Ref} {start rows : List Value} {settings : ColumnSettings Alignment}
    {usual : Alignment} (run : ColumnRun a s start t rows) (h : s.Arranged False a l start)
    (hset : s.Aligns a l settings usual) : t.Arranged False a l rows ∧ ∃ now, t.Aligns a l now usual := by
  induction run with
  | start => exact ⟨h, settings, hset⟩
  | rows run edits ih =>
    obtain ⟨ht, now, hnow⟩ := ih
    obtain ⟨hu, hedited⟩ := edits.arranged ht
    exact ⟨hu, now, hnow.edited ht.table hedited⟩
  | column run c x alignment aligned notes ih =>
    obtain ⟨ht, now, hnow⟩ := ih
    exact Change.exists_aligns_replace ht hnow c aligned notes

/-- Only to replace a row can take one away. -/
theorem RowEdit.mem_result {e : RowEdit} (h : ∀ i row, e ≠ .replace i row) (s : Store) {rows : List Value} {v : Value}
    (hv : v ∈ rows) : v ∈ e.result s rows := by
  rw [RowEdit.result]
  split_ifs with hadmits
  · split
    · cases e with
      | push row => exact List.mem_append_left _ hv
      | insert i row => exact (List.mem_insertIdx (Int.toNat_le.mpr hadmits.2)).mpr (.inr hv)
      | replace i row => exact absurd rfl (h i row)
    · exact hv
  · exact hv

namespace Change

variable {s p q : Store} {a l : Ref} {start rows new : List Value} {settings : ColumnSettings Alignment}
  {usual : Alignment}

/-- Edits of rows change no letter of a column. Of the specifications before and after some of them one is the
beginning of the other, which goes on only as rows are added or get more cells, and raw ones are the same. -/
theorem columns_kept (h : s.Arranged False a l start) (hset : s.Aligns a l settings usual)
    (prior : ColumnRun a s start p rows) (run : RowRun False a p rows q new) :
    (∃ spec, p.Aligns a l (.raw spec) usual ∧
      (∀ notes, (columnSpec (.ref a)).runOn ⟨p, notes⟩ = (.ok spec, ⟨p, notes⟩)) ∧
      ∀ notes, (columnSpec (.ref a)).runOn ⟨q, notes⟩ = (.ok spec, ⟨q, notes⟩)) ∨
    ∃ alignments before after, p.Aligns a l (.typed alignments) usual ∧
      (∀ notes, (columnSpec (.ref a)).runOn ⟨p, notes⟩ = (.ok (.text before), ⟨p, notes⟩)) ∧
      (∀ notes, (columnSpec (.ref a)).runOn ⟨q, notes⟩ = (.ok (.text after), ⟨q, notes⟩)) ∧
      (before.toList <+: after.toList ∨ after.toList <+: before.toList) ∧
      (∀ (e : RowEdit), (∀ i row, e ≠ .replace i row) → ∀ notes, ∃ later, after.toList <+: later.toList ∧
        ∀ more, ((columnSpec (.ref a)).runOn ⟨((call (.ref a) e.call).runOn ⟨q, notes⟩).2.store, more⟩).1 =
          .ok (.text later)) ∧
      ∀ (v x : Value) notes, ∃ later, after.toList <+: later.toList ∧
        ∀ more, ((columnSpec (.ref a)).runOn ⟨((call v (.pushItem x)).runOn ⟨q, notes⟩).2.store, more⟩).1 =
          .ok (.text later) := by
  obtain ⟨hp, now, hnow⟩ := prior.arranged h hset
  obtain ⟨hq, hedited⟩ := run.arranged hp
  have hsame := hnow.edited hp.table hedited
  have hbefore := runOn_columnSpec hp hnow
  have hafter := runOn_columnSpec hq hsame
  obtain ⟨_, _, ⟨_, alignments, _, rfl, _⟩ | ⟨spec, _, rfl⟩⟩ := hp.exists_tabulates hnow
  · -- the letters depend on the number of columns only, and that is no smaller if all rows are there, none narrower
    have hlater {t : Store} {others : List Value} (ht : t.Arranged False a l others) (hqt : q.RowsEdited t l)
        (hsub : ∀ v ∈ new, v ∈ others) : ∃ later : String,
        (Columns.letters alignments usual (q.columnCount new).toNat).toList <+: later.toList ∧
          ∀ more, ((columnSpec (.ref a)).runOn ⟨t, more⟩).1 = .ok (.text later) := by
      refine ⟨_, Columns.letters_prefix alignments usual (hq.columnCount_le hqt hsub), fun more => ?_⟩
      rw [runOn_columnSpec ht (hsame.edited hq.table hqt) more]
      rfl
    refine .inr ⟨alignments, _, _, hnow, hbefore, hafter, ?_, fun e he notes => ?_, fun v x notes => ?_⟩
    · rcases Nat.le_total (p.columnCount rows).toNat (q.columnCount new).toNat with hle | hle
      · exact .inl (Columns.letters_prefix alignments usual hle)
      · exact .inr (Columns.letters_prefix alignments usual hle)
    · obtain ⟨ht, hqt⟩ := arranged_edit hq e notes
      exact hlater ht hqt fun v hv => RowEdit.mem_result he q hv
    · obtain ⟨ht, hqt⟩ := arranged_pushItem hq v x notes
      exact hlater ht hqt fun w hw => hw
  · exact .inl ⟨.atom spec, hnow, hbefore, hafter⟩

/-- The first of two columns is centred before a row of one cell takes the place of the only row. -/
theorem columns_kept_narrower : emptyTable.Arranged False ⟨4⟩ ⟨0⟩ [] ∧
    emptyTable.Aligns ⟨4⟩ ⟨0⟩ (.typed []) .left ∧
    ∃ p rows q new, ColumnRun ⟨4⟩ emptyTable [] p rows ∧ RowRun False ⟨4⟩ p rows q new ∧
      (columnSpec (.ref ⟨4⟩)).runOn ⟨p, []⟩ = (.ok (.text "cl"), ⟨p, []⟩) ∧
      (columnSpec (.ref ⟨4⟩)).runOn ⟨q, []⟩ = (.ok (.text "c"), ⟨q, []⟩) ∧
      ((∃ spec, p.Aligns ⟨4⟩ ⟨0⟩ (.raw spec) .left) ∨ ∃ before after : String,
        (columnSpec (.ref ⟨4⟩)).runOn ⟨p, []⟩ = (.ok (.text before), ⟨p, []⟩) ∧
        (columnSpec (.ref ⟨4⟩)).runOn ⟨q, []⟩ = (.ok (.text after), ⟨q, []⟩) ∧
        (before.toList <+: after.toList ∨ after.toList <+: before.toList)) := by
  have wide : RowRun False ⟨4⟩ emptyTable [] _ _ := .edit
    (.value .start (.object .columnSettings [("alignment", .atom (.member (.alignment .center)))])
      fun _ h => Kind.noConfusion (Cell.object.inj h).1)
    (.push (.ref ⟨5⟩)) []
  have prior : ColumnRun ⟨4⟩ emptyTable [] _ _ :=
    .column (.rows .start wide) 0 (.ref ⟨6⟩) .center ⟨⟨6⟩, _, rfl, rfl, rfl⟩ []
  have narrower {s : Store} {rows : List Value} :=
    RowRun.edit (.value (.start : RowRun False ⟨4⟩ s rows s rows) (.sequence .list [.text "x"]) nofun)
      (.replace 0 (.ref ⟨11⟩)) []
  refine ⟨emptyTable_arranged False, emptyTable_aligns, _, _, _, _, prior, narrower, rfl, rfl, ?_⟩
  rcases columns_kept (emptyTable_arranged False) emptyTable_aligns prior narrower with
    ⟨spec, hraw, _⟩ | ⟨_, before, after, _, hbefore, hafter, hprefix, _⟩
  · exact .inl ⟨spec, hraw⟩
  · exact .inr ⟨before, after, hbefore [], hafter [], hprefix⟩

/-- Before a row comes into the list of the settings the table has no column, and after that no specification. -/
theorem columnSpec_lost : (columnSpec (.ref ⟨3⟩)).runOn ⟨sharedList, []⟩ = (.ok (.text ""), ⟨sharedList, []⟩) ∧
    ∃ t, (call (.ref ⟨3⟩) (.pushRow (.ref ⟨4⟩))).runOn ⟨sharedList, []⟩ = (.ok (.ref ⟨3⟩), ⟨t, []⟩) ∧
      ∀ spec, ((columnSpec (.ref ⟨3⟩)).runOn ⟨t, []⟩).1 ≠ .ok spec :=
  ⟨rfl, _, rfl, nofun⟩

end Change

end Manuscript
