import Manuscript.Proofs.ChangedObjects
import Manuscript.Proofs.Conversions
/-!
# Builders keep a store sound

A builder call leaves a sound store sound, and one that ends in a fault leaves all old cells as they were:
what can be refused is refused before anything that was there is changed.
-/
namespace Manuscript

open Cell (fieldIn)

namespace Change

variable {α β : Type} {s : Store} {v : Value} {kind : Kind} {name : String}

/-- From a store a change leaves a sound one, and all old cells as they were if it ends in a fault. -/
def Builds (s : Store) (change : Change α) : Prop :=
  ∀ notes, (change.runOn ⟨s, notes⟩).2.store.Sound ∧
    ∀ f, (change.runOn ⟨s, notes⟩).1 = .error f → s.Keeps (change.runOn ⟨s, notes⟩).2.store

theorem Grows.builds {change : Change α} {post : Store → α → Prop} (h : Grows s change post) :
    Builds s change := fun notes => ⟨(h notes).2.1, fun _ _ => (h notes).1.keeps⟩

theorem Grows.bind_builds {change : Change α} {next : α → Change β} {mid : Store → α → Prop}
    (h : Grows s change mid)
    (hnext : ∀ t a, s.GrowsTo t → t.Sound → mid t a → Builds t (next a)) :
    Builds s (change >>= next) := by
  intro notes
  obtain ⟨hgrows, hsound, hmid⟩ := h notes
  rw [runOn_bind]
  rcases hrun : change.runOn ⟨s, notes⟩ with ⟨_ | a, t, more⟩ <;> rw [hrun] at hgrows hsound hmid
  · exact ⟨hsound, fun _ _ => hgrows.keeps⟩
  · obtain ⟨hend, hkeeps⟩ := hnext t a hgrows hsound (hmid a rfl) more
    exact ⟨hend, fun f hf r c hr hc => hkeeps f hf r c (hgrows.keeps r c hr hc) hc⟩

theorem builds_look_bind {f : Store → α} {next : α → Change β} (h : Builds s (next (f s))) :
    Builds s (look f >>= next) := h

theorem builds_refuse (hs : s.Sound) (f : Fault) : Builds s (refuse f : Change α) :=
  fun _ => ⟨hs, fun _ _ _ _ h _ => h⟩

/-- The last step of a builder changes what was there and gives back the object. -/
theorem builds_alter {f : Store → Store} (h : (f s).Sound) (v : Value) :
    Builds s (alter f >>= fun _ => pure v) := fun _ => ⟨h, fun _ hf => nomatch hf⟩

theorem builds_setItems {r : Ref} {fields : List (String × Value)} (hs : s.Sound)
    (hcell : s.cell? r = some (.object kind fields)) (hname : kind.listField? = some name) (hrow : kind ≠ .tableRow)
    {f : List Value → List Value}
    (may : ∀ items, (∀ x ∈ items, s.mayHold kind x = true) → ∀ x ∈ f items, s.mayHold kind x = true) (v : Value) :
    Builds s (alter (·.setItems (fieldIn fields name) f) >>= fun _ => pure v) := by
  obtain ⟨items, hitems, hmay⟩ := (hs.fits r kind fields hcell).listed name hname
  exact builds_alter (hs.setItems hcell hname hrow hitems (may items hmay)) v

theorem grows_requireList (hs : s.Sound) (v : Value) (name : String) :
    Grows s (requireList v name) fun t _ => t = s := by
  refine grows_look_bind ?_
  split
  · exact grows_pure hs rfl
  · exact grows_look_bind (grows_refuse hs _)

theorem builds_setTo (hs : s.Sound) (hk : s.kind? v = some kind) (h : name ∉ kind.bearing) (new : Value) :
    Builds s (setTo v name new) := builds_alter (hs.setField hk h new) v

theorem builds_pushTo (hs : s.Sound) (hk : s.kind? v = some kind) (hname : kind.listField? = some name)
    (hrow : kind ≠ .tableRow) {made : Change Value}
    (h : Grows s made fun t w => t.mayHold kind w = true) : Builds s (pushTo v name made) := by
  obtain ⟨r, fields, rfl, hcell⟩ := Store.kind?_eq_some.mp hk
  refine builds_look_bind ?_
  rw [Store.fieldIn_of_cell hcell]
  refine (grows_requireList hs _ _).bind_builds fun t _ _ ht hts => ?_
  subst hts
  refine h.bind_builds fun u w hgrows hu hw =>
    builds_setItems hu (hgrows.keeps r _ hcell rfl) hname hrow (fun items hmay x hx => ?_) _
  rcases List.mem_append.mp hx with hx | hx
  · exact hmay x hx
  · obtain rfl := List.mem_singleton.mp hx
    exact hw

theorem builds_pushMade (hk : s.kind? v = some kind) (hname : kind.listField? = some name)
    (hrow : kind ≠ .tableRow) {made : Change Value}
    (h : Grows s made fun t w => t.mayHold kind w = true) : Builds s (pushMade v name made) :=
  h.bind_builds fun _ _ hgrows ht hw =>
    builds_pushTo ht (hgrows.keeps.kind? v kind hk) hname hrow (grows_pure ht hw)

theorem runOn_requireList {items : List Value} (h : s.list? v = some items) (name : String)
    (notes : List Note) : (requireList v name).runOn ⟨s, notes⟩ = (.ok (), ⟨s, notes⟩) := by
  obtain ⟨l, rfl, hlist⟩ := Store.list?_eq_some.mp h
  have htarget : s.target? (.ref l) = some (.sequence .list items) := hlist
  rw [requireList, runOn_bind_of_ok (runOn_look _ _), htarget]
  rfl

theorem runOn_pushTo {r l : Ref} {fields : List (String × Value)} {items : List Value}
    (hcell : s.cell? r = some (.object kind fields)) (hl : fieldIn fields name = .ref l)
    (hlist : s.cell? l = some (.sequence .list items)) (w : Value) (notes : List Note) :
    (pushTo (.ref r) name (pure w)).runOn ⟨s, notes⟩ =
      (.ok (.ref r), ⟨s.put l (.sequence .list (items ++ [w])), notes⟩) := by
  have hitems : s.list? (fieldIn fields name) = some items := Store.list?_eq_some.mpr ⟨l, hl, hlist⟩
  rw [pushTo, field, runOn_bind_of_ok (runOn_look _ _), Store.fieldIn_of_cell hcell,
    runOn_bind_of_ok (runOn_requireList hitems _ _), hl, runOn_bind_of_ok (runOn_pure _ _), extend,
    runOn_bind_of_ok (runOn_alter _ _), Store.extend, Store.setItems_of_cell hlist]
  rfl

theorem builds_pushItem (hs : s.Sound) (hk : s.kind? v = some .tableRow) (item : Value) :
    Builds s (pushItem v item) := by
  obtain ⟨r, fields, rfl, hcell⟩ := Store.kind?_eq_some.mp hk
  obtain ⟨items, hitems, hmay⟩ := (hs.fits r .tableRow fields hcell).listed "cells" rfl
  obtain ⟨l, hl, hlist⟩ := Store.list?_eq_some.mp hitems
  have hcolumns := (hs.fits r .tableRow fields hcell).counted rfl items hitems
  let text : Value := .text (s.printed item)
  let new := items ++ [text]
  let t := s.put l (.sequence .list new)
  have hnew : t.cell? l = some (.sequence .list new) := Store.cell?_put_self s l _ (Store.index_lt hlist)
  have hother : ∀ q, q ≠ l → t.cell? q = s.cell? q := fun q hq => Store.cell?_put_of_ne s l q _ hq
  have hne : r ≠ l := Store.object_ne_list hcell hlist
  have hrow : t.cell? r = some (.object .tableRow fields) := (hother r hne).trans hcell
  have htexts : ∀ w ∈ new, ∃ text, w = .text text := by
    intro w hw
    rcases List.mem_append.mp hw with hw | hw
    · exact Store.mayHold_tableRow.mp (hmay w hw)
    · exact ⟨_, List.mem_singleton.mp hw⟩
  intro notes
  rw [pushItem, runOn_bind_of_ok (runOn_look _ _), runOn_bind_of_ok (runOn_pushTo hcell hl hlist text notes), field,
    runOn_bind_of_ok (runOn_look _ _), Store.fieldIn_of_cell hrow]
  split_ifs with hnone
  · exact ⟨hs.setCells hcell hl hrow hl hnew (fun q _ hq => hother q hq) htexts (.inl hnone), nofun⟩
  · obtain ⟨n, hn, hle⟩ := hcolumns.resolve_left hnone
    have hmore : onePlus (fieldIn fields "columns") = pure (.int (n + 1)) := by
      simp only [onePlus, hn]
    obtain ⟨changed, hset, hchanged⟩ := Store.exists_setField hrow "columns" (.int (n + 1))
    rw [hmore, pure_bind, runOn_bind_of_ok (runOn_alter _ _), hset]
    refine ⟨hs.setCells hcell hl (Store.cell?_put_self t r _ (Store.index_lt hrow)) ?_ ?_ (fun q hq hql => ?_)
      htexts (.inr ⟨n + 1, ?_, ?_⟩), nofun⟩
    · exact (hchanged "cells").trans hl
    · exact (Store.cell?_put_of_ne t r l _ hne.symm).trans hnew
    · exact (Store.cell?_put_of_ne t r q _ hq).trans (hother q hql)
    · rw [hchanged]
      rfl
    · simpa [new] using hle

theorem grows_length (hs : s.Sound) (v : Value) : Grows s (length v) fun t _ => t = s :=
  grows_look_bind (grows_settle hs fun _ _ => rfl)

theorem grows_checkRowPosition (hs : s.Sound) (table index : Value) (relation : Relation) :
    Grows s (checkRowPosition table index relation) fun t _ => t = s := by
  refine grows_look_bind (grows_settle_bind hs fun notBelow _ => grows_look_bind ?_)
  refine (grows_length hs _).bind fun t n _ ht hts => ?_
  subst hts
  have hdecide (inside : Bool) : Grows t (if inside then pure () else
      refuse (.rowOutOfRange (t.datum index).printed n)) fun u _ => u = t := by
    split_ifs
    · exact grows_pure ht rfl
    · exact grows_refuse ht _
  dsimp only
  split_ifs
  · exact grows_settle_bind ht fun inside _ => hdecide inside
  · rw [pure_bind]
    exact hdecide false

theorem builds_insertRow (hs : s.Sound) (hk : s.kind? v = some .table) (index row : Value) :
    Builds s (insertRow v index row) := by
  obtain ⟨r, fields, rfl, hcell⟩ := Store.kind?_eq_some.mp hk
  refine (grows_checkRowPosition hs _ index _).bind_builds fun t _ _ ht hts => ?_
  subst hts
  refine builds_look_bind ?_
  rw [Store.fieldIn_of_cell hcell]
  refine (grows_requireList ht _ _).bind_builds fun t _ _ ht hts => ?_
  subst hts
  refine (grows_toRow ht row).bind_builds fun u new hgrows hu hnew => ?_
  split
  · refine builds_setItems hu (hgrows.keeps r _ hcell rfl) rfl (by decide) (fun items hmay x hx => ?_) _
    rcases List.mem_append.mp hx with hx | hx
    · exact hmay x (List.mem_of_mem_take hx)
    · rcases List.mem_cons.mp hx with rfl | hx
      · exact hnew
      · exact hmay x (List.mem_of_mem_drop hx)
  · exact builds_look_bind (builds_refuse hu _)

theorem builds_replaceRow (hs : s.Sound) (hk : s.kind? v = some .table) (index row : Value) :
    Builds s (replaceRow v index row) := by
  obtain ⟨r, fields, rfl, hcell⟩ := Store.kind?_eq_some.mp hk
  refine (grows_checkRowPosition hs _ index _).bind_builds fun t _ _ ht hts => ?_
  subst hts
  refine (grows_toRow ht row).bind_builds fun u new hgrows hu hnew => ?_
  have hcell' := hgrows.keeps r _ hcell rfl
  obtain ⟨items, hitems, hmay⟩ := (hu.fits r .table fields hcell').listed "rows" rfl
  obtain ⟨l, hl, hlist⟩ := Store.list?_eq_some.mp hitems
  refine builds_look_bind (builds_look_bind ?_)
  rw [Store.fieldIn_of_cell hcell']
  have htarget : u.target? (fieldIn fields "rows") = some (.sequence .list items) := by
    rw [hl]
    exact hlist
  rw [htarget]
  cases index.asInt? with
  | some i =>
    refine builds_alter (hu.setItems hcell' rfl (by decide) hitems fun x hx => ?_) _
    rcases List.mem_or_eq_of_mem_set hx with hx | rfl
    · exact hmay x hx
    · exact hnew
  | none => exact builds_look_bind (builds_refuse hu _)

theorem grows_numberColumns (hs : s.Sound) (table : Value) :
    Grows s (numberColumns table) fun _ _ => True := by
  refine grows_look_bind (grows_look_bind (grows_look_bind ?_))
  split
  split
  · exact grows_refuse hs _
  · refine (grows_alter hs fun h => Store.growsTo_takingAll h _).bind fun t _ _ ht _ => ?_
    exact grows_settle ht fun _ _ => trivial
  · exact grows_settle hs fun _ _ => trivial
  · exact grows_settle hs fun _ _ => trivial

theorem grows_columnSettings (hs : s.Sound) (table : Value) :
    Grows s (columnSettings table) fun _ _ => True := grows_look_bind (grows_look hs trivial)

theorem grows_effectiveColumns (hs : s.Sound) (table : Value) :
    Grows s (effectiveColumns table) fun _ _ => True := by
  refine (grows_columnSettings hs table).bind fun t settings _ ht _ => ?_
  split
  · exact grows_refuse ht _
  · exact grows_refuse ht _
  · refine (grows_numberColumns ht table).bind fun u n _ hu _ => ?_
    refine grows_settle_bind hu fun count _ => grows_look_bind ?_
    exact grows_settle hu fun _ _ => trivial

theorem grows_attributeOf (hs : s.Sound) (v : Value) (name : String) :
    Grows s (attributeOf v name) fun t w => t = s ∧ s.attribute? v name = some w := by
  refine grows_look_bind ?_
  split
  · rename_i w hw
    exact grows_pure hs ⟨rfl, hw⟩
  · exact grows_look_bind (grows_refuse hs _)

theorem grows_leave (hs : s.Sound) (note : Note) : Grows s (leave note) fun _ _ => True :=
  fun _ => ⟨.refl s, hs, fun _ _ => trivial⟩

theorem grows_replaceableColumns (hs : s.Sound) (table : Value) (n : Datum) :
    Grows s (replaceableColumns table n) fun _ _ => True := by
  refine (grows_columnSettings hs table).bind fun t settings _ ht _ => ?_
  split
  · refine (grows_leave ht _).bind fun u _ _ hu _ => grows_look_bind ?_
    exact grows_settle hu fun _ _ => trivial
  · refine grows_look_bind ((grows_attributeOf ht _ _).bind fun u columns _ hu _ => ?_)
    refine (grows_items hu columns).bind fun w given _ hw _ => grows_settle_bind hw fun less _ => ?_
    split_ifs
    · exact (grows_effectiveColumns hw table).bind fun _ _ _ hx _ => grows_pure hx trivial
    · exact grows_pure hw trivial

theorem builds_replaceColumnSettings (hs : s.Sound) (hk : s.kind? v = some .table) (column settings : Value) :
    Builds s (replaceColumnSettings v column settings) := by
  refine (grows_numberColumns hs v).bind_builds fun t n hst ht _ => builds_look_bind ?_
  have hhas : Grows t (settle (Columns.has n (t.datum column))) fun u _ => u = t :=
    grows_settle ht fun _ _ => rfl
  refine hhas.bind_builds fun u has _ hu hut => ?_
  subst hut
  split_ifs
  · refine (grows_replaceableColumns hu v n).bind_builds fun w columns huw hw _ => ?_
    split
    · exact builds_refuse hw _
    · dsimp only
      split_ifs
      · exact builds_refuse hw _
      · refine (grows_newTypedSettings hw _).bind_builds fun x new hwx hx _ => builds_alter ?_ v
        have hk' := ((hst.trans huw).trans hwx).keeps.kind? v _ hk
        exact hx.setField hk' (by decide) new
  · exact builds_refuse hu _

end Change

end Manuscript
