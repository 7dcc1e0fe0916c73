import Manuscript.Proofs.RowSteps
/-!
# Rows that are made

What becomes a row of a table, and how rows come to be. A row can be made of a rule and of all that can be gone
through but texts and bytes, or made by hand from its cells. A row that gets one more cell counts it, unless it counts
none.
-/
namespace Manuscript

open Cell (fieldIn)

/-- The faults of values that cannot be made rows. -/
def Fault.isRowRefusal : Fault → Bool
  | .cellsAreText | .unconvertible _ .row | .notIterable _ => true
  | _ => false

theorem Cell.lookup_of_fieldIn {fields : List (String × Value)} {name : String} {v : Value}
    (h : fieldIn fields name = v) (hv : v ≠ .none) : fields.lookup name = some v := by
  rw [fieldIn] at h
  cases hlookup : fields.lookup name with
  | none =>
    rw [hlookup] at h
    exact absurd h.symm hv
  | some found =>
    rw [hlookup] at h
    exact congrArg some h

namespace Store

/-- A value that can stand in the place of a row: a row, a rule, or what gives items and is no text. -/
def Convertible (s : Store) (v : Value) : Prop :=
  s.kind? v = some .tableRow ∨ s.kind? v = some .horizontalRule ∨
    Change.isTextOrBytes v = false ∧ ∀ typeName innermost truth, (s.supply v).1 ≠ .missing typeName innermost truth

/-- One store comes from another one by new cells that are no rows. Iterators may have been gone through. -/
structure Quiet (s t : Store) : Prop where
  size : s.cells.size ≤ t.cells.size
  keeps : s.Keeps t
  row : ∀ r fields, t.cell? r = some (.object .tableRow fields) → s.cell? r = some (.object .tableRow fields)

variable {s t u : Store} {exact : Prop} {p r : Ref} {c : Cell} {v : Value}

theorem Quiet.refl (s : Store) : s.Quiet s := ⟨Nat.le_refl _, fun _ _ h _ => h, fun _ _ h => h⟩

theorem Quiet.rowMade (h : s.Quiet t) (p : Ref) : s.RowMade t exact p :=
  ⟨h.size, h.keeps, fun r fields hr => .inl (h.row r fields hr)⟩

theorem quiet_alloc (s : Store) (h : ∀ fields, c ≠ .object .tableRow fields) : s.Quiet (s.alloc c).1 := by
  refine ⟨by simp [alloc], keeps_alloc s c, fun r fields hr => ?_⟩
  rcases cell?_alloc_cases hr with hold | ⟨-, hc⟩
  · exact hold
  · exact absurd hc.symm (h fields)

theorem quiet_newList (s : Store) (items : List Value) : s.Quiet (s.newList items).1 :=
  quiet_alloc s nofun

theorem quiet_put_iterator {items : List Value} (h : s.cell? r = some (.iterator items)) (rest : List Value) :
    s.Quiet (s.put r (.iterator rest)) :=
  ⟨(growsTo_put_iterator h).size, (growsTo_put_iterator h).keeps, fun _ _ hq => cell?_put_iterator h hq rfl⟩

theorem RowMade.of_quiet (h : s.Quiet t) (h' : t.RowMade u exact p) : s.RowMade u exact p where
  size := Nat.le_trans h.size h'.size
  keeps r c hr hc := h'.keeps r c (h.keeps r c hr hc) hc
  row r fields hr := by
    rcases h'.row r fields hr with hold | ⟨hp, q, items, hrow, hnew⟩
    · exact .inl (h.row r fields hold)
    · exact .inr ⟨hp, q, items, hrow, Nat.le_trans h.size hnew⟩

/-- A new row around a new list of cells. -/
theorem rowMade_newObject (s : Store) {items : List Value} {fields : List (String × Value)}
    (cells : fieldIn fields "cells" = (s.newList items).2)
    (columns : ∃ columns, fields.lookup "columns" = some columns ∧ columns.IsCount)
    (exactly : exact → ∃ skip : Atom, fieldIn fields "skip_terminator" = .atom skip ∧
      fieldIn fields "columns" = if skip.isTrue then .none else .int items.length) :
    s.RowMade ((s.newList items).1.newObject .tableRow fields).1 exact ⟨(s.newList items).1.cells.size⟩ := by
  have hquiet : s.Quiet (s.newList items).1 := quiet_newList s items
  have hlist : (s.newList items).1.cell? ⟨s.cells.size⟩ = some (.sequence .list items) := cell?_alloc_new s _
  refine ⟨by simp [newObject, newList, alloc]; omega,
    fun r c hr hc => cell?_alloc_of_some (hquiet.keeps r c hr hc) _, fun r given hr => ?_⟩
  rcases cell?_alloc_cases hr with hold | ⟨rfl, hc⟩
  · exact .inl (hquiet.row r given hold)
  · obtain ⟨-, rfl⟩ := Cell.object.inj hc
    refine .inr ⟨rfl, ⟨s.cells.size⟩, items, ⟨cells, ?_, columns, exactly⟩, Nat.le_refl _⟩
    exact cell?_alloc_of_some hlist _

end Store

namespace Change

open Store (Convertible Quiet RowMade)

variable {s : Store} {exact : Prop} {v : Value}

theorem isIterable_of_supply (h : ∀ typeName innermost truth, (s.supply v).1 ≠ .missing typeName innermost truth) :
    isIterable s v = true := by
  unfold isIterable
  split
  · rename_i kind hkind
    obtain ⟨r, fields, rfl, hcell⟩ := Store.kind?_eq_some.mp hkind
    obtain ⟨depth, hdepth⟩ := Nat.exists_eq_add_one_of_ne_zero (Nat.ne_zero_of_lt (Store.index_lt hcell))
    have hsupply : s.supply (.ref r) = s.supplyTo (depth + 1) (.ref r) := by rw [Store.supply, Store.depth, hdepth]
    rw [hsupply] at h
    simp only [Store.supplyTo, hcell] at h
    cases hfield : kind.itemField? with
    | none => simp [hfield] at h
    | some name => rfl
  · rename_i hsupply
    exact absurd hsupply (h _ _ _)
  · rfl

/-- To go through a value makes nothing. What has no items is refused. -/
theorem runOn_items (s : Store) (v : Value) :
    (∃ typeName innermost truth, (s.supply v).1 = .missing typeName innermost truth ∧
      ∀ notes, (items v).runOn ⟨s, notes⟩ = (.error (.notIterable innermost), ⟨s, notes⟩)) ∨
    ((∀ typeName innermost truth, (s.supply v).1 ≠ .missing typeName innermost truth) ∧
      ∃ t, s.Quiet t ∧ ∀ notes, (items v).runOn ⟨s, notes⟩ = (.ok (s.supply v).2, ⟨t, notes⟩)) := by
  rcases hsupply : s.supply v with ⟨_ | ⟨name, _ | source⟩ | ⟨name, innermost, truth⟩, found⟩
  · exact .inr ⟨by simp, s, .refl s, fun notes => by rw [items, runOn_bind_of_ok (runOn_look _ _), hsupply]; rfl⟩
  · exact .inr ⟨by simp, s, .refl s, fun notes => by rw [items, runOn_bind_of_ok (runOn_look _ _), hsupply]; rfl⟩
  · obtain ⟨rest, hcell⟩ := Store.source_of_supplyTo s.depth (congrArg Prod.fst hsupply)
    refine .inr ⟨by simp, _, Store.quiet_put_iterator hcell [], fun notes => ?_⟩
    rw [items, runOn_bind_of_ok (runOn_look _ _), hsupply]
    rfl
  · refine .inl ⟨name, innermost, truth, rfl, fun notes => ?_⟩
    rw [items, runOn_bind_of_ok (runOn_look _ _), hsupply]
    rfl

/-- A new row takes up its cells, or nothing if no terminator ends it. -/
theorem exists_newRow (s : Store) (exact : Prop) (row : Row)
    (h : row.columns = if row.skipTerminator then none else some (row.cells.length : Int)) :
    ∃ p t, (∀ notes, (newRow row).runOn ⟨s, notes⟩ = (.ok (.ref p), ⟨t, notes⟩)) ∧ s.RowMade t exact p ∧
      t.kind? (.ref p) = some .tableRow ∧ s.cells.size ≤ p.index := by
  let columns : Value := if row.skipTerminator then .none else .int (row.cells.map Value.text).length
  have hcount : columns.IsCount := by
    simp only [columns]
    split_ifs
    · exact .inl rfl
    · exact .inr ⟨_, rfl⟩
  let fields (cells : Value) : List (String × Value) :=
    [("cells", cells), ("columns", columns), ("skip_terminator", .bool row.skipTerminator)]
  let t := (s.newList (row.cells.map .text)).1
  let list := (s.newList (row.cells.map .text)).2
  have hrun (notes : List Note) : (newRow row).runOn ⟨s, notes⟩ =
      (.ok (.ref ⟨t.cells.size⟩), ⟨(t.newObject .tableRow (fields list)).1, notes⟩) := by
    simp only [newRow, h, fields, columns, List.length_map]
    cases row.skipTerminator <;> rfl
  have hmade : s.RowMade (t.newObject .tableRow (fields list)).1 exact ⟨t.cells.size⟩ :=
    Store.rowMade_newObject s rfl ⟨columns, rfl, hcount⟩ fun _ => ⟨.bool row.skipTerminator, rfl, rfl⟩
  exact ⟨⟨t.cells.size⟩, (t.newObject .tableRow (fields list)).1, hrun, hmade,
    kind?_newObject t .tableRow (fields list), by simp [t, Store.newList, Store.alloc]⟩

theorem runOn_toRow (s : Store) (v : Value) (notes : List Note) :
    (toRow v).runOn ⟨s, notes⟩ =
      (if s.kind? v = some .tableRow then pure v
        else if s.kind? v = some .horizontalRule then newRow .hline
        else if isTextOrBytes v then refuse .cellsAreText
        else if !isIterable s v then refuse (.unconvertible (s.typeName v) .row)
        else itemTexts v >>= fun texts => newRow (Row.make texts none false)).runOn ⟨s, notes⟩ := rfl

/-- What can stand in the place of a row becomes one: a row itself, and else a new row. -/
theorem exists_toRow (exact : Prop) (h : s.Convertible v) :
    ∃ new p t, (∀ notes, (toRow v).runOn ⟨s, notes⟩ = (.ok new, ⟨t, notes⟩)) ∧ s.RowMade t exact p ∧
      t.kind? new = some .tableRow ∧
      (s.kind? v = some .tableRow ∧ new = v ∨ s.kind? v ≠ some .tableRow ∧ new = .ref p ∧ s.cells.size ≤ p.index) := by
  by_cases hrow : s.kind? v = some .tableRow
  · refine ⟨v, ⟨0⟩, s, fun notes => ?_, (Quiet.refl s).rowMade _, hrow, .inl ⟨hrow, rfl⟩⟩
    rw [runOn_toRow, if_pos hrow, runOn_pure]
  by_cases hrule : s.kind? v = some .horizontalRule
  · obtain ⟨p, t, hrun, hmade, hkind, hnew⟩ := exists_newRow s exact .hline rfl
    refine ⟨.ref p, p, t, fun notes => ?_, hmade, hkind, .inr ⟨hrow, rfl, hnew⟩⟩
    rw [runOn_toRow, if_neg hrow, if_pos hrule, hrun]
  obtain ⟨htext, hsupply⟩ := (h.resolve_left hrow).resolve_left hrule
  obtain ⟨-, t, hquiet, hitems⟩ := (runOn_items s v).resolve_left
    fun ⟨name, innermost, truth, hmissing, _⟩ => hsupply name innermost truth hmissing
  let texts := (s.supply v).2.map t.printed
  have htexts (notes : List Note) : (itemTexts v).runOn ⟨s, notes⟩ = (.ok texts, ⟨t, notes⟩) := by
    rw [itemTexts, runOn_bind_of_ok (hitems notes), runOn_look]
  obtain ⟨p, u, hrun, hmade, hkind, hnew⟩ := exists_newRow t exact (.make texts none false) rfl
  refine ⟨.ref p, p, u, fun notes => ?_, hmade.of_quiet hquiet, hkind,
    .inr ⟨hrow, rfl, Nat.le_trans hquiet.size hnew⟩⟩
  rw [runOn_toRow, if_neg hrow, if_neg hrule, htext, isIterable_of_supply hsupply]
  exact (runOn_bind_of_ok (htexts notes) _).trans (hrun notes)

/-- What cannot stand in the place of a row is refused. -/
theorem exists_refusal (h : ¬s.Convertible v) :
    ∃ f : Fault, f.isRowRefusal = true ∧ ∀ notes, (toRow v).runOn ⟨s, notes⟩ = (.error f, ⟨s, notes⟩) := by
  obtain ⟨hrow, hrest⟩ := not_or.mp h
  obtain ⟨hrule, hitems⟩ := not_or.mp hrest
  by_cases htext : isTextOrBytes v = true
  · refine ⟨.cellsAreText, rfl, fun notes => ?_⟩
    rw [runOn_toRow, if_neg hrow, if_neg hrule, if_pos htext, runOn_refuse]
  by_cases hiterable : isIterable s v = true
  · obtain ⟨_, innermost, _, _, hrefused⟩ := (runOn_items s v).resolve_right
      fun ⟨hsupply, _⟩ => hitems ⟨Bool.eq_false_iff.mpr htext, hsupply⟩
    refine ⟨.notIterable innermost, rfl, fun notes => ?_⟩
    rw [runOn_toRow, if_neg hrow, if_neg hrule, if_neg htext, hiterable]
    change (itemTexts v >>= _).runOn ⟨s, notes⟩ = _
    rw [itemTexts, bind_assoc, runOn_bind, hrefused]
  · refine ⟨.unconvertible (s.typeName v) .row, rfl, fun notes => ?_⟩
    rw [runOn_toRow, if_neg hrow, if_neg hrule, if_neg htext, Bool.eq_false_iff.mpr hiterable]
    rfl

/-- How a row made by hand is ended: its cells are counted unless a number of columns is given or no terminator ends
it. -/
def countedRow (columns skip : Value) (texts : List String) : Change Value := do
  let list ← newList (texts.map .text)
  let skipped ← look (·.isTrue skip)
  newObject .tableRow [("cells", list),
    ("columns", if columns = .none ∧ !skipped then .int texts.length else columns), ("skip_terminator", skip)]

theorem rowMade_countedRow (s : Store) (texts : List String) {columns skip : Value} (hcolumns : columns.IsCount)
    (hexact : exact → columns = .none ∧ ∃ d : Atom, skip = .atom d) (notes : List Note) :
    s.RowMade ((countedRow columns skip texts).runOn ⟨s, notes⟩).2.store exact
      ⟨(s.newList (texts.map .text)).1.cells.size⟩ := by
  let t := (s.newList (texts.map .text)).1
  let counted : Value := if columns = .none ∧ !t.isTrue skip then .int texts.length else columns
  have hcounted : counted.IsCount := by
    simp only [counted]
    split_ifs
    · exact .inr ⟨texts.length, rfl⟩
    · exact hcolumns
  have hmade : s.RowMade (t.newObject .tableRow [("cells", (s.newList (texts.map .text)).2), ("columns", counted),
      ("skip_terminator", skip)]).1 exact ⟨t.cells.size⟩ := by
    refine Store.rowMade_newObject s rfl ⟨counted, rfl, hcounted⟩ fun hex => ?_
    obtain ⟨rfl, d, rfl⟩ := hexact hex
    have htrue : t.isTrue (.atom d) = d.isTrue := congrArg Datum.isTrue (Store.Carried.datumTo_atom t t.depth d)
    refine ⟨d, rfl, ?_⟩
    change counted = _
    simp only [counted, htrue, List.length_map]
    cases d.isTrue <;> rfl
  exact hmade

/-- A row made by hand takes up its cells unless they cannot be gone through. -/
theorem exists_constructRow (s : Store) (cells : Value) {columns skip : Value} (hcolumns : columns.IsCount)
    (hexact : exact → columns = .none ∧ ∃ d : Atom, skip = .atom d) (notes : List Note) : ∃ p,
      s.RowMade ((construct .tableRow
        [("cells", cells), ("columns", columns), ("skip_terminator", skip)]).runOn ⟨s, notes⟩).2.store exact p := by
  have hconstruct : construct .tableRow [("cells", cells), ("columns", columns), ("skip_terminator", skip)] =
      itemTexts cells >>= countedRow columns skip := rfl
  rw [hconstruct]
  rcases runOn_items s cells with ⟨_, innermost, _, _, hrefused⟩ | ⟨_, t, hquiet, hitems⟩
  · refine ⟨⟨0⟩, ?_⟩
    rw [itemTexts, bind_assoc, runOn_bind, hrefused]
    exact (Quiet.refl s).rowMade _
  · have htexts : (itemTexts cells).runOn ⟨s, notes⟩ = (.ok ((s.supply cells).2.map t.printed), ⟨t, notes⟩) := by
      rw [itemTexts, runOn_bind_of_ok (hitems notes), runOn_look]
    rw [runOn_bind_of_ok htexts]
    exact ⟨_, (rowMade_countedRow t _ hcolumns hexact notes).of_quiet hquiet⟩

/-- To make a row by hand makes one row at most. -/
theorem exists_instantiateRow (s : Store) {given : List (String × Value)}
    (hcolumns : ((given.lookup "columns").getD .none).IsCount)
    (hexact : exact → (given.lookup "columns").getD .none = .none ∧
      ∃ d : Atom, (given.lookup "skip_terminator").getD (.bool false) = .atom d) (notes : List Note) : ∃ p,
      s.RowMade ((instantiate .tableRow given).runOn ⟨s, notes⟩).2.store exact p := by
  rw [instantiate, withStandardFields_tableRow, bind_assoc]
  cases given.lookup "cells" with
  | some cells => exact exists_constructRow s cells hcolumns hexact notes
  | none =>
    have hquiet : s.Quiet (s.newList []).1 := Store.quiet_newList s []
    obtain ⟨p, hmade⟩ := exists_constructRow (s.newList []).1 (s.newList []).2 hcolumns hexact notes
    exact ⟨p, hmade.of_quiet hquiet⟩

theorem runOn_callOnOther_pushItem (s : Store) (v x : Value) (notes : List Note) :
    ((callOnOther v (.pushItem x)).runOn ⟨s, notes⟩).2 = ⟨s, notes⟩ := by
  unfold callOnOther
  split
  · rename_i h
    cases h
  · rfl

/-- Only a row gets a cell. -/
theorem runOn_call_pushItem (s : Store) (v x : Value) (notes : List Note) :
    s.kind? v = some .tableRow ∧
        (call v (.pushItem x)).runOn ⟨s, notes⟩ = (pushItem v x).runOn ⟨s, notes⟩ ∨
      s.kind? v ≠ some .tableRow ∧ ((call v (.pushItem x)).runOn ⟨s, notes⟩).2 = ⟨s, notes⟩ := by
  rw [call, runOn_bind_of_ok (runOn_look _ _)]
  cases s.kind? v with
  | none => exact .inr ⟨by simp, runOn_callOnOther_pushItem s v x notes⟩
  | some kind =>
    cases kind with
    | tableRow => exact .inl ⟨rfl, rfl⟩
    | _ => exact .inr ⟨by simp, rfl⟩

/-- What a row records goes up by one, unless it records nothing. -/
theorem exists_recordMore {r : Ref} {fields : List (String × Value)} {columns : Value}
    (hcell : s.cell? r = some (.object .tableRow fields)) (hcolumns : fields.lookup "columns" = some columns)
    (hcount : columns.IsCount) : ∃ t changed,
      (∀ notes, (if columns = .none then pure (.ref r) else do
          let more ← onePlus columns
          alter (·.setField (.ref r) "columns" more)
          return .ref r : Change Value).runOn ⟨s, notes⟩ = (.ok (.ref r), ⟨t, notes⟩)) ∧
      t.cell? r = some (.object .tableRow changed) ∧ changed.lookup "columns" = some columns.more ∧
      (∀ name, name ≠ "columns" → fieldIn changed name = fieldIn fields name) ∧ t.cells.size = s.cells.size ∧
      ∀ y, y ≠ r → t.cell? y = s.cell? y := by
  rcases hcount with rfl | ⟨n, hn⟩
  · exact ⟨s, fields, fun notes => by rw [if_pos rfl, runOn_pure], hcell, hcolumns, fun _ _ => rfl, rfl, fun _ _ => rfl⟩
  · have hnone : columns ≠ .none := by
      rintro rfl
      cases hn
    have hmore : columns.more = .int (n + 1) := by rw [Value.more, hn]
    have hnumber : columns.more ≠ .none := by
      rw [hmore]
      intro h
      cases h
    have honePlus : onePlus columns = pure columns.more := by
      rw [hmore]
      simp only [onePlus, hn]
    obtain ⟨changed, hset, hchanged⟩ := Store.exists_setField hcell "columns" columns.more
    refine ⟨s.put r (.object .tableRow changed), changed, fun notes => ?_,
      Store.cell?_put_self s r _ (Store.index_lt hcell), ?_, fun name hname => ?_, by simp [Store.put],
      fun y hy => Store.cell?_put_of_ne s r y _ hy⟩
    · rw [if_neg hnone, honePlus, pure_bind, runOn_bind_of_ok (runOn_alter _ _), hset, runOn_pure]
    · exact Cell.lookup_of_fieldIn ((hchanged "columns").trans (if_pos rfl)) hnumber
    · rw [hchanged, if_neg hname]

/-- To add a cell to a row changes its list of cells and what it records, and nothing else. -/
theorem exists_pushItem {r q : Ref} {fields : List (String × Value)} {items : List Value}
    (hcell : s.cell? r = some (.object .tableRow fields)) (hrow : s.RowAt exact fields q items) (x : Value) :
    ∃ t changed, (∀ notes, (pushItem (.ref r) x).runOn ⟨s, notes⟩ = (.ok (.ref r), ⟨t, notes⟩)) ∧
      s.RowGrown t exact r q fields changed := by
  obtain ⟨columns, hcolumns, hcount⟩ := hrow.columns
  let u := s.put q (.sequence .list (items ++ [.text (s.printed x)]))
  have hne : r ≠ q := Store.object_ne_list hcell hrow.list
  have hitems : u.cell? q = some (.sequence .list (items ++ [.text (s.printed x)])) :=
    Store.cell?_put_self s q _ (Store.index_lt hrow.list)
  have hcell' : u.cell? r = some (.object .tableRow fields) := (Store.cell?_put_of_ne s q r _ hne).trans hcell
  have hfield : fieldIn fields "columns" = columns := by rw [fieldIn, hcolumns, Option.getD_some]
  obtain ⟨t, changed, hrest, hafter, hmore, hsame, hsize, hother⟩ := exists_recordMore hcell' hcolumns hcount
  have hrow' : t.RowAt exact changed q (items ++ [.text (s.printed x)]) :=
    hrow.more hcolumns hmore hsame ((hother q hne.symm).trans hitems)
  refine ⟨t, changed, fun notes => ?_, hsize.trans (by simp [u, Store.put]), hcell, hrow.cells, ⟨items, hrow.list⟩,
    hafter, ⟨_, hrow'⟩, ?_, fun y hyr hyq => (hother y hyr).trans (Store.cell?_put_of_ne s q y _ hyq)⟩
  · rw [pushItem, runOn_bind_of_ok (runOn_look _ _), runOn_bind_of_ok (runOn_pushTo hcell hrow.cells hrow.list _ notes),
      field, runOn_bind_of_ok (runOn_look _ _), Store.fieldIn_of_cell hcell', hfield]
    exact hrest notes
  · rw [Store.width, Store.width, Store.field?_of_cell hcell, Store.field?_of_cell hafter, hcolumns, hmore]
    exact hcount.more.2

/-- Rows stay arranged when any value is told to add a cell. -/
theorem arranged_pushItem {a l : Ref} {rows : List Value} (h : s.Arranged exact a l rows) (v x : Value)
    (notes : List Note) :
    ((call v (.pushItem x)).runOn ⟨s, notes⟩).2.store.Arranged exact a l rows ∧
      s.RowsEdited ((call v (.pushItem x)).runOn ⟨s, notes⟩).2.store l := by
  rcases runOn_call_pushItem s v x notes with ⟨hk, hrun⟩ | ⟨_, hrun⟩
  · obtain ⟨r, fields, rfl, hcell⟩ := Store.kind?_eq_some.mp hk
    obtain ⟨q, items, hrow⟩ := h.row r fields hcell
    obtain ⟨t, changed, hpush, hgrown⟩ := exists_pushItem hcell hrow x
    rw [hrun, hpush]
    exact ⟨h.rowGrown hgrown, hgrown.edited l⟩
  · rw [hrun]
    exact ⟨h, .refl s l⟩

end Change

end Manuscript
