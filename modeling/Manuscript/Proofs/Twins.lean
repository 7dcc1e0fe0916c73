import Manuscript.Proofs.Fitting
/-!
# Copies fit

The twin of an object that fits fits among the twins, and no twin holds an old list. Twins hold one list only if their
originals do. So a copy leaves a sound store sound.
-/
namespace Manuscript.Store

open Cell (fieldIn)

variable {s : Store} {v : Value} {kind : Kind} {p r : Ref} {c : Cell}

theorem keeps_copy (s : Store) (v : Value) : s.Keeps (s.copy v).1 :=
  fun r _ h _ => (cell?_copy s v r (index_lt h)).trans h

theorem twinIn_of_not_ref {a : Atom} (h : ∀ i name message, a ≠ .failure i name message) (s : Store)
    (v : Value) : s.twinIn v (.atom a) = .atom a := by
  cases a <;> first | rfl | exact absurd rfl (h _ _ _)

theorem fieldIn_mapValues (f : Value → Value) (hf : f .none = .none) (fields : List (String × Value))
    (name : String) : fieldIn (fields.map fun e => (e.1, f e.2)) name = f (fieldIn fields name) := by
  induction fields with
  | nil => exact hf.symm
  | cons e fields ih =>
    obtain ⟨key, w⟩ := e
    rw [List.map_cons, Cell.fieldIn_cons, Cell.fieldIn_cons, ih]
    split <;> rfl

theorem mem_refs_of_fieldIn {fields : List (String × Value)} {name : String}
    (h : fieldIn fields name = .ref r) : r ∈ (Cell.object kind fields).refs := by
  have hlookup : fields.lookup name = some (.ref r) := by
    simp only [fieldIn] at h
    cases hl : fields.lookup name with
    | none => simp [hl, Value.none] at h
    | some w => simpa [hl] using h
  obtain ⟨before, after, rfl, _⟩ := List.lookup_eq_some_iff.mp hlookup
  simp [Cell.refs, Cell.values, Value.ref?]

/-- A value is within reach of another one if its cell, if it has one, can be reached from that. -/
def Within (s : Store) (v w : Value) : Prop := ∀ q c, w = .ref q → s.cell? q = some c → q ∈ s.reachable v

theorem within_of_mem_refs {w : Value} (hr : r ∈ s.reachable v) (h : s.cell? r = some c)
    (hw : ∀ q, w = .ref q → q ∈ c.refs) : s.Within v w :=
  fun q d hq hd => closed_reachable s v r hr c h q (hw q hq) d hd

theorem kind?_twinIn {w : Value} (hw : s.Within v w) (h : s.kind? w = some kind) :
    (s.copy v).1.kind? (s.twinIn v w) = some kind := by
  obtain ⟨q, fields, rfl, hq⟩ := kind?_eq_some.mp h
  obtain ⟨p, hp, _, hcell⟩ := cell?_twinIn (hw q _ rfl hq) hq
  exact kind?_eq_some.mpr ⟨p, _, hp, hcell⟩

/-- The twin of an object is of its kind. -/
theorem kind?_copy_add {i : Nat} (hi : (s.reachable v)[i]? = some r) (h : s.kind? (.ref r) = some kind) :
    (s.copy v).1.kind? (.ref ⟨s.cells.size + i⟩) = some kind := by
  obtain ⟨q, fields, hq, hcell⟩ := kind?_eq_some.mp h
  obtain rfl := Value.ref.inj hq
  exact kind?_eq_some.mpr ⟨_, _, rfl, cell?_copy_add hi hcell⟩

theorem list?_twinIn {w : Value} {items : List Value} (hw : s.Within v w) (h : s.list? w = some items) :
    (s.copy v).1.list? (s.twinIn v w) = some (items.map (s.twinIn v)) := by
  obtain ⟨q, rfl, hq⟩ := list?_eq_some.mp h
  obtain ⟨p, hp, _, hcell⟩ := cell?_twinIn (hw q _ rfl hq) hq
  exact list?_eq_some.mpr ⟨p, hp, hcell⟩

theorem mayHold_twinIn {w : Value} (hw : s.Within v w) (h : s.mayHold kind w = true) :
    (s.copy v).1.mayHold kind (s.twinIn v w) = true := by
  by_cases hrow : kind = .tableRow
  · subst hrow
    obtain ⟨text, rfl⟩ := mayHold_tableRow.mp h
    rfl
  · rw [mayHold_eq_any hrow] at h ⊢
    exact any_kind?_mono (fun _ => kind?_twinIn hw) h

/-- The twin of an object that fits fits in the copy. -/
theorem Fits.twinIn {fields : List (String × Value)} (hr : r ∈ s.reachable v)
    (h : s.cell? r = some (.object kind fields)) (fits : s.Fits kind (fieldIn fields)) :
    (s.copy v).1.Fits kind (fieldIn (fields.map fun e => (e.1, s.twinIn v e.2))) := by
  have hfield (name : String) :
      fieldIn (fields.map fun e => (e.1, s.twinIn v e.2)) name = s.twinIn v (fieldIn fields name) :=
    fieldIn_mapValues _ rfl fields name
  have hwithin (name : String) : s.Within v (fieldIn fields name) :=
    within_of_mem_refs hr h fun _ => mem_refs_of_fieldIn
  refine ⟨fun name hname => ?_, fun hkind => ?_, fun hkind => ?_, fun hkind items hitems => ?_⟩
  · obtain ⟨items, hitems, hmay⟩ := fits.listed name hname
    rw [hfield]
    refine ⟨_, list?_twinIn (hwithin name) hitems, fun w hw => ?_⟩
    obtain ⟨x, hx, rfl⟩ := List.mem_map.mp hw
    obtain ⟨l, hl, hlist⟩ := list?_eq_some.mp hitems
    have hreach := hwithin name l _ hl hlist
    refine mayHold_twinIn (within_of_mem_refs hreach hlist fun q hq => ?_) (hmay x hx)
    exact List.mem_filterMap.mpr ⟨x, hx, by simp [hq, Value.ref?]⟩
  · rw [hfield]
    exact any_kind?_mono (fun _ => kind?_twinIn (hwithin _)) (fits.wrapped hkind)
  · rw [hfield]
    exact kind?_twinIn (hwithin _) (fits.front hkind)
  · subst hkind
    obtain ⟨given, hgiven, _⟩ := fits.listed "cells" rfl
    rw [hfield, list?_twinIn (hwithin _) hgiven] at hitems
    obtain rfl := Option.some.inj hitems
    rw [hfield, List.length_map]
    rcases fits.counted rfl given hgiven with hnone | ⟨n, hn, hle⟩
    · exact .inl (by rw [hnone]; rfl)
    · refine .inr ⟨n, ?_, hle⟩
      cases hcolumns : fieldIn fields "columns" with
      | ref q => simp [hcolumns, Value.asInt?] at hn
      | atom a =>
        rw [hcolumns] at hn
        rw [twinIn_of_not_ref _ s v]
        · exact hn
        · rintro i name message rfl
          cases hn

/-- In a copy an object holds a list as before, or it is a twin and holds the twin of a list. -/
theorem holds_copy_cases {w : Value} (h : (s.copy v).1.Holds p w) :
    s.Holds p w ∨ ∃ i r x, p = ⟨s.cells.size + i⟩ ∧ (s.reachable v)[i]? = some r ∧ s.Holds r x ∧
      s.Within v x ∧ w = s.twinIn v x := by
  obtain ⟨c, hcell, kind, fields, name, rfl, hname, rfl⟩ := h
  rcases cell?_copy_cases hcell with hold | ⟨i, r, d, rfl, hi, hd, hc⟩
  · exact .inl ⟨_, hold, kind, fields, name, rfl, hname, rfl⟩
  · cases d with
    | object k given =>
      obtain ⟨rfl, rfl⟩ : kind = k ∧ fields = _ := by simpa [Cell.mapValues] using hc
      refine .inr ⟨i, r, fieldIn given name, rfl, hi, ⟨_, hd, kind, given, name, rfl, hname, rfl⟩, ?_, ?_⟩
      · exact within_of_mem_refs (List.mem_of_getElem? hi) hd fun _ => mem_refs_of_fieldIn
      · exact fieldIn_mapValues _ rfl given name
    | _ => cases hc

/-- The twin of a list is a new reference, and no other list has the same one. -/
theorem Sound.twinIn_of_holds (hs : s.Sound) {w : Value} (h : s.Holds r w) (hw : s.Within v w) :
    ∃ i l, w = .ref l ∧ (s.reachable v)[i]? = some l ∧ s.twinIn v w = .ref ⟨s.cells.size + i⟩ := by
  obtain ⟨l, items, rfl, hlist⟩ := hs.list_of_holds h
  obtain ⟨i, hi, htwin⟩ := exists_twinIn_ref (hw l _ rfl hlist)
  exact ⟨i, l, rfl, hi, htwin⟩

theorem Sound.growsTo_copy (hs : s.Sound) (v : Value) : s.GrowsTo (s.copy v).1 where
  size := size_le_copy s v
  keeps := keeps_copy s v
  holds p r hr hp := by
    rcases holds_copy_cases hp with hold | ⟨i, q, x, rfl, hi, hholds, hwithin, hx⟩
    · exact hold
    · obtain ⟨j, l, rfl, hj, htwin⟩ := hs.twinIn_of_holds hholds hwithin
      rw [htwin] at hx
      obtain rfl := Value.ref.inj hx
      exact absurd hr (by simp)

/-- A copy of a value leaves a sound store sound. -/
theorem Sound.copy (hs : s.Sound) (v : Value) : (s.copy v).1.Sound := by
  refine (keeps_copy s v).sound hs (fun r kind fields h => ?_) fun p q w hp hq => ?_
  · rcases cell?_copy_cases h with hold | ⟨i, r, d, rfl, hi, hd, hc⟩
    · exact .inl hold
    · cases d with
      | object k given =>
        obtain ⟨rfl, rfl⟩ : kind = k ∧ fields = _ := by simpa [Cell.mapValues] using hc
        exact .inr ((hs.fits r kind given hd).twinIn (List.mem_of_getElem? hi) hd)
      | _ => cases hc
  · have hmixed {p : Ref} {x : Value} (hold : s.Holds p w) {r : Ref} (hx : s.Holds r x)
        (hwithin : s.Within v x) (heq : w = s.twinIn v x) : False := by
      obtain ⟨l, items, rfl, hlist⟩ := hs.list_of_holds hold
      obtain ⟨j, m, rfl, hj, htwin⟩ := hs.twinIn_of_holds hx hwithin
      rw [htwin] at heq
      obtain rfl := Value.ref.inj heq
      exact absurd (index_lt hlist) (by simp)
    rcases holds_copy_cases hp with hp | ⟨i, r, x, rfl, hi, hx, hxw, hpx⟩ <;>
      rcases holds_copy_cases hq with hq | ⟨j, r', y, rfl, hj, hy, hyw, hqy⟩
    · exact (hs.shared p q w hp hq).imp_right (·.mono (keeps_copy s v).kind?)
    · exact (hmixed hp hy hyw hqy).elim
    · exact (hmixed hq hx hxw hpx).elim
    · obtain ⟨m, l, rfl, hm, htwin⟩ := hs.twinIn_of_holds hx hxw
      obtain ⟨m', l', rfl, hm', htwin'⟩ := hs.twinIn_of_holds hy hyw
      have hindex : m = m' := by
        have := htwin.symm.trans (hpx.symm.trans (hqy.trans htwin'))
        simpa using this
      subst hindex
      obtain rfl := Option.some.inj (hm.symm.trans hm')
      rcases hs.shared r r' _ hx hy with rfl | ⟨k, other, hk, hother, hlike⟩
      · have hnodup := nodup_reachable s v
        obtain ⟨hlt, hget⟩ := List.getElem?_eq_some_iff.mp hi
        obtain ⟨hlt', hget'⟩ := List.getElem?_eq_some_iff.mp hj
        exact .inl (by rw [hnodup.getElem_inj_iff.mp (hget.trans hget'.symm)])
      · exact .inr ⟨k, other, kind?_copy_add hi hk, kind?_copy_add hj hother, hlike⟩

end Manuscript.Store
