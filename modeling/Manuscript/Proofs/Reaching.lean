import Manuscript.Proofs.Alike
/-!
# What can be reached

What can be reached from a value depends on the cells on the way alone. Where all chains of references end, no
cell is reached from what it holds, and a chain is no longer than the store has cells.
-/
namespace Manuscript.Store

variable {s t : Store} {d : Nat} {v w : Value} {r q : Ref} {c : Cell} {P : Ref → Prop}

theorem reach_subset (work seen : List Ref) (hwork : ∀ r ∈ work, P r) (hseen : ∀ r ∈ seen, P r)
    (closed : ∀ r c, P r → s.cell? r = some c → ∀ q ∈ c.refs, P q) : ∀ r ∈ s.reach work seen, P r := by
  fun_induction reach with
  | case1 => exact hseen
  | case2 r work seen hin ih => exact ih (fun q hq => hwork q (List.mem_cons_of_mem r hq)) hseen
  | case3 r work seen hin hcell ih => exact ih (fun q hq => hwork q (List.mem_cons_of_mem r hq)) hseen
  | case4 r work seen hin c hcell ih =>
    have hr : P r := hwork r List.mem_cons_self
    refine ih (fun q hq => ?_) (fun q hq => ?_)
    · rcases List.mem_append.mp hq with hq | hq
      · exact closed r c hr hcell q hq
      · exact hwork q (List.mem_cons_of_mem r hq)
    · rcases List.mem_append.mp hq with hq | hq
      · exact hseen q hq
      · exact List.mem_singleton.mp hq ▸ hr

/-- What holds of a value's reference, and goes over from each cell to what it refers to, holds of all that can
be reached. -/
theorem reachable_subset (start : ∀ r, v = .ref r → P r)
    (closed : ∀ r c, P r → s.cell? r = some c → ∀ q ∈ c.refs, P q) : ∀ r ∈ s.reachable v, P r := by
  refine reach_subset _ _ (fun r hr => start r ?_) (by simp) closed
  cases v with
  | atom a => cases hr
  | ref q => rw [List.mem_singleton.mp hr]

theorem mem_refs : q ∈ c.refs ↔ Value.ref q ∈ c.values := by
  rw [Cell.refs, List.mem_filterMap]
  constructor
  · rintro ⟨w, hw, hq⟩
    cases w with
    | atom a => cases hq
    | ref p =>
      obtain rfl := Option.some.inj hq
      exact hw
  · exact fun h => ⟨_, h, rfl⟩

theorem EndsWithin.exists_cell (h : s.EndsWithin d (.ref r)) : ∃ c, s.cell? r = some c := by
  cases h with
  | ref cell inner => exact ⟨_, cell⟩

theorem EndsWithin.of_mem_values (h : s.EndsWithin (d + 1) (.ref r)) (hcell : s.cell? r = some c)
    (hw : w ∈ c.values) : s.EndsWithin d w := by
  cases h with
  | ref cell inner =>
    obtain rfl := Option.some.inj (hcell.symm.trans cell)
    exact inner w hw

theorem EndsWithin.of_mem_reachable (h : s.EndsWithin d v) (hr : r ∈ s.reachable v) :
    s.EndsWithin d (.ref r) := by
  refine reachable_subset (P := fun r => s.EndsWithin d (.ref r)) (fun r hr => hr ▸ h) ?_ r hr
  intro p c hp hcell q hq
  cases hp with
  | ref cell inner =>
    obtain rfl := Option.some.inj (hcell.symm.trans cell)
    exact (inner _ (mem_refs.mp hq)).mono (Nat.le_succ _)

/-- Where chains end, what can be reached is closed. -/
theorem EndsWithin.closed (h : s.EndsWithin d v) (hr : r ∈ s.reachable v) (hcell : s.cell? r = some c)
    (hq : q ∈ c.refs) : q ∈ s.reachable v := by
  obtain ⟨e, hqcell⟩ : ∃ e, s.cell? q = some e := by
    cases h.of_mem_reachable hr with
    | ref cell inner =>
      obtain rfl := Option.some.inj (hcell.symm.trans cell)
      exact (inner _ (mem_refs.mp hq)).exists_cell
  exact closed_reachable s v r hr c hcell q hq e hqcell

theorem EndsWithin.self_mem (h : s.EndsWithin d (.ref r)) : r ∈ s.reachable (.ref r) := by
  obtain ⟨c, hcell⟩ := h.exists_cell
  exact mem_reachable_self hcell

/-- All that can be reached from a value in a cell can be reached from the cell. -/
theorem EndsWithin.reachable_subset_of_mem_values (h : s.EndsWithin d (.ref r)) (hcell : s.cell? r = some c)
    (hw : w ∈ c.values) : ∀ q ∈ s.reachable w, q ∈ s.reachable (.ref r) :=
  reachable_subset (fun _ hq => h.closed h.self_mem hcell (mem_refs.mpr (hq ▸ hw)))
    fun _ _ hp hpcell _ hq => h.closed hp hpcell hq

/-- Where chains end, no cell is reached from what it holds. -/
theorem EndsWithin.not_mem_reachable (h : s.EndsWithin d (.ref r)) (hcell : s.cell? r = some c)
    (hw : w ∈ c.values) : r ∉ s.reachable w := by
  intro hr
  induction d with
  | zero => cases h
  | succ d ih => exact ih ((h.of_mem_values hcell hw).of_mem_reachable hr)

/-- Each step on a chain leaves a cell behind, so the cells that can be reached bound its length. -/
theorem EndsWithin.length (h : s.EndsWithin d v) : s.EndsWithin (s.reachable v).length v := by
  induction h with
  | atom d a => exact .atom _ a
  | @ref d r c cell inner ih =>
    have hself : s.EndsWithin (d + 1) (.ref r) := .ref cell inner
    have hshorter (w : Value) (hw : w ∈ c.values) :
        (s.reachable w).length + 1 ≤ (s.reachable (.ref r)).length := by
      have hnodup : (r :: s.reachable w).Nodup :=
        List.nodup_cons.mpr ⟨hself.not_mem_reachable cell hw, nodup_reachable s w⟩
      refine (List.subperm_of_subset hnodup fun q hq => ?_).length_le
      rcases List.mem_cons.mp hq with rfl | hq
      · exact hself.self_mem
      · exact hself.reachable_subset_of_mem_values cell hw q hq
    obtain ⟨n, hn⟩ := Nat.exists_eq_add_one_of_ne_zero
      (Nat.ne_zero_of_lt (List.length_pos_of_mem hself.self_mem))
    rw [hn]
    refine .ref cell fun w hw => (ih w hw).mono ?_
    have := hshorter w hw
    omega

/-- Where chains end, they end within as many steps as the store has cells. -/
theorem EndsWithin.depth (h : s.EndsWithin d v) : s.EndsWithin s.depth v := by
  refine h.length.mono (length_le_of_nodup (nodup_reachable s v) fun r hr => ?_)
  obtain ⟨c, hcell⟩ := cell?_of_mem_reachable hr
  exact index_lt hcell

/-- All chains of references from a value end. -/
def Ends (s : Store) (v : Value) : Prop := ∃ d, s.EndsWithin d v

theorem mapValues_id (c : Cell) : c.mapValues id = c := by
  cases c <;> simp [Cell.mapValues]

theorem keepsAtoms_id : KeepsAtoms id := fun _ _ => rfl

/-- Cells that are as before on all chains from a value carry it over. -/
theorem EndsWithin.carried (h : s.EndsWithin d v) (same : ∀ r ∈ s.reachable v, t.cell? r = s.cell? r) :
    s.Carried t id d v := by
  induction h with
  | atom d a => exact .atom d rfl
  | @ref d r c cell inner ih =>
    have hself : s.EndsWithin (d + 1) (.ref r) := .ref cell inner
    refine .ref cell rfl ?_ (fun _ => rfl) fun w hw =>
      ih w hw fun q hq => same q (hself.reachable_subset_of_mem_values cell hw q hq)
    rw [mapValues_id, same r hself.self_mem, cell]

/-- The tree of a value is as before if all cells on the chains from it are. -/
theorem EndsWithin.tree (h : s.EndsWithin d v) (same : ∀ r ∈ s.reachable v, t.cell? r = s.cell? r)
    (size : s.cells.size ≤ t.cells.size) : t.tree v = s.tree v :=
  (h.depth.carried same).tree keepsAtoms_id (Nat.le_refl _) size

theorem EndsWithin.datum (h : s.EndsWithin d v) (same : ∀ r ∈ s.reachable v, t.cell? r = s.cell? r)
    (size : s.cells.size ≤ t.cells.size) : t.datum v = s.datum v :=
  (h.depth.carried same).datum (Nat.le_refl _) size

/-- What can be reached is as before, too. -/
theorem EndsWithin.mem_reachable_congr (h : s.EndsWithin d v) (same : ∀ r ∈ s.reachable v, t.cell? r = s.cell? r) :
    r ∈ t.reachable v ↔ r ∈ s.reachable v := by
  constructor
  · refine reachable_subset (P := (· ∈ s.reachable v)) (fun q hq => ?_) (fun p c hp hcell q hq => ?_) r
    · subst hq
      exact h.self_mem
    · exact h.closed hp ((same p hp).symm.trans hcell) hq
  · intro hr
    have hclosed := closed_reachable t v
    suffices hboth : r ∈ s.reachable v ∧ r ∈ t.reachable v from hboth.2
    refine reachable_subset (P := fun r => r ∈ s.reachable v ∧ r ∈ t.reachable v) (fun q hq => ?_)
      (fun p c hp hcell q hq => ?_) r hr
    · subst hq
      obtain ⟨c, hcell⟩ := h.exists_cell
      exact ⟨h.self_mem, mem_reachable_self ((same q h.self_mem).trans hcell)⟩
    · have hin := h.closed hp.1 hcell hq
      obtain ⟨e, hqcell⟩ := (h.of_mem_reachable hin).exists_cell
      exact ⟨hin, hclosed p hp.2 c ((same p hp.1).trans hcell) q hq e ((same q hin).trans hqcell)⟩

theorem EndsWithin.transport (h : s.EndsWithin d v) (same : ∀ r ∈ s.reachable v, t.cell? r = s.cell? r) :
    t.EndsWithin d v := by
  induction h with
  | atom d a => exact .atom d a
  | @ref d r c cell inner ih =>
    have hself : s.EndsWithin (d + 1) (.ref r) := .ref cell inner
    exact .ref ((same r hself.self_mem).trans cell) fun w hw =>
      ih w hw fun q hq => same q (hself.reachable_subset_of_mem_values cell hw q hq)

/-! ## Copies -/

/-- A value from which neither an iterator nor a failure can be reached. A copy of one of these is told apart
from it. -/
def Lasting (s : Store) (v : Value) : Prop :=
  (∀ identity className message, v ≠ .atom (.failure identity className message)) ∧
    ∀ r ∈ s.reachable v, ∀ c, s.cell? r = some c → c.isIterator = false ∧
      ∀ identity className message, Value.atom (.failure identity className message) ∉ c.values

theorem lasting_of_cells (hv : ∀ identity className message, v ≠ .atom (.failure identity className message))
    (h : ∀ c ∈ s.cells.toList, c.isIterator = false ∧
      ∀ identity className message, Value.atom (.failure identity className message) ∉ c.values) : s.Lasting v :=
  ⟨hv, fun _ _ c hc => h c (Array.mem_toList_iff.mpr (Array.mem_of_getElem? hc))⟩

theorem Lasting.of_mem_values (h : s.Lasting (.ref r)) (hcell : s.cell? r = some c) (hr : r ∈ s.reachable (.ref r))
    (hsub : ∀ q ∈ s.reachable w, q ∈ s.reachable (.ref r)) (hw : w ∈ c.values) : s.Lasting w :=
  ⟨fun i name message heq => (h.2 r hr c hcell).2 i name message (heq ▸ hw), fun q hq => h.2 q (hsub q hq)⟩

theorem keepsAtoms_twinIn (s : Store) (v : Value) : KeepsAtoms (s.twinIn v) :=
  fun _ h => twinIn_of_not_ref h s v

/-- A copy carries over what can be reached from the value that is copied. -/
theorem EndsWithin.carried_twin (h : s.EndsWithin d w) (within : ∀ r ∈ s.reachable w, r ∈ s.reachable v)
    (lasting : s.Lasting w) : s.Carried (s.copy v).1 (s.twinIn v) d w := by
  induction h with
  | atom d a =>
    exact .atom d (keepsAtoms_twinIn s v a fun i name message ha => lasting.1 i name message (ha ▸ rfl))
  | @ref d r c cell inner ih =>
    have hself : s.EndsWithin (d + 1) (.ref r) := .ref cell inner
    obtain ⟨hiterator, hfailure⟩ := lasting.2 r hself.self_mem c cell
    obtain ⟨q, image, -, there⟩ := cell?_twinIn (within r hself.self_mem) cell
    refine .ref cell image there (fun hc => ?_) fun w hw => ?_
    · rw [hiterator] at hc
      cases hc
    · have hsub := hself.reachable_subset_of_mem_values cell hw
      exact ih w hw (fun p hp => within p (hsub p hp))
        ⟨fun i name message hw' => hfailure i name message (hw' ▸ hw), fun p hp => lasting.2 p (hsub p hp)⟩

/-- The tree of a copy is that of the value. -/
theorem EndsWithin.tree_twin (h : s.EndsWithin d w) (within : ∀ r ∈ s.reachable w, r ∈ s.reachable v)
    (lasting : s.Lasting w) : (s.copy v).1.tree (s.twinIn v w) = s.tree w :=
  (h.depth.carried_twin within lasting).tree (keepsAtoms_twinIn s v) (Nat.le_refl _) (size_le_copy s v)

theorem EndsWithin.datum_twin (h : s.EndsWithin d w) (within : ∀ r ∈ s.reachable w, r ∈ s.reachable v)
    (lasting : s.Lasting w) : (s.copy v).1.datum (s.twinIn v w) = s.datum w :=
  (h.depth.carried_twin within lasting).datum (Nat.le_refl _) (size_le_copy s v)

theorem exists_ref_of_twinIn (h : s.twinIn v w = .ref q) : ∃ r, w = .ref r := by
  cases w with
  | atom a => cases a <;> cases h
  | ref r => exact ⟨r, rfl⟩

theorem size_le_of_twinIn (h : s.twinIn v (.ref r) = .ref q) (hr : r ∈ s.reachable v) :
    s.cells.size ≤ q.index := by
  obtain ⟨i, -, htwin⟩ := exists_twinIn_ref hr
  obtain rfl := Value.ref.inj (h.symm.trans htwin)
  simp

/-- All that can be reached from a copy is new. -/
theorem EndsWithin.size_le_of_mem_reachable_twin (h : s.EndsWithin d v)
    (hw : ∀ r, w = .ref r → r ∈ s.reachable v) :
    ∀ r ∈ (s.copy v).1.reachable (s.twinIn v w), s.cells.size ≤ r.index := by
  refine reachable_subset (P := fun r => s.cells.size ≤ r.index) (fun q hq => ?_) fun p c hp hcell q hq => ?_
  · obtain ⟨r, rfl⟩ := exists_ref_of_twinIn hq
    exact size_le_of_twinIn hq (hw r rfl)
  · rcases cell?_copy_cases hcell with hold | ⟨i, r, e, rfl, hi, he, rfl⟩
    · exact absurd (index_lt hold) (Nat.not_lt.mpr hp)
    · rw [mem_refs, Cell.values_mapValues] at hq
      obtain ⟨x, hx, htwin⟩ := List.mem_map.mp hq
      obtain ⟨p, rfl⟩ := exists_ref_of_twinIn htwin
      exact size_le_of_twinIn htwin (h.closed (List.mem_of_getElem? hi) he (mem_refs.mpr hx))

theorem EndsWithin.twin (h : s.EndsWithin d w) (within : ∀ r ∈ s.reachable w, r ∈ s.reachable v) :
    (s.copy v).1.EndsWithin d (s.twinIn v w) := by
  induction h with
  | atom d a => cases a <;> exact .atom d _
  | @ref d r c cell inner ih =>
    have hself : s.EndsWithin (d + 1) (.ref r) := .ref cell inner
    obtain ⟨q, image, -, there⟩ := cell?_twinIn (within r hself.self_mem) cell
    rw [image]
    refine .ref there fun w hw => ?_
    rw [Cell.values_mapValues] at hw
    obtain ⟨x, hx, rfl⟩ := List.mem_map.mp hw
    exact ih x hx fun p hp => within p (hself.reachable_subset_of_mem_values cell hx p hp)

end Manuscript.Store
