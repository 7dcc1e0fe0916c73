import Mathlib.Data.List.Nodup
import Mathlib.Data.List.Perm.Subperm
import Manuscript.Store.Copy
/-!
# Twins of cells

What can be reached from a value is closed under the references in its cells. A copy of the value leaves all
cells as they are and adds a twin of each cell that can be reached, which refers to the twins of what the
cell refers to.
-/
namespace Manuscript.Store

variable {s : Store} {r q : Ref} {c : Cell} {v : Value}

theorem index_lt (h : s.cell? r = some c) : r.index < s.cells.size :=
  (Array.getElem?_eq_some_iff.mp h).1

theorem subset_reach (work seen : List Ref) : seen ⊆ s.reach work seen := by
  fun_induction reach with
  | case1 => exact List.Subset.refl _
  | case2 r work seen hseen ih => exact ih
  | case3 r work seen hseen hcell ih => exact ih
  | case4 r work seen hseen c hcell ih => exact List.Subset.trans (List.subset_append_left seen [r]) ih

theorem mem_reach (work seen : List Ref) (hr : r ∈ work) (h : s.cell? r = some c) :
    r ∈ s.reach work seen := by
  fun_induction reach with
  | case1 => cases hr
  | case2 q work seen hseen ih =>
    rcases List.mem_cons.mp hr with rfl | hr
    · exact subset_reach work seen (List.contains_iff_mem.mp hseen)
    · exact ih hr
  | case3 q work seen hseen hcell ih =>
    rcases List.mem_cons.mp hr with rfl | hr
    · simp [h] at hcell
    · exact ih hr
  | case4 q work seen hseen d hcell ih =>
    rcases List.mem_cons.mp hr with rfl | hr
    · exact subset_reach _ _ (by simp)
    · exact ih (List.mem_append_right _ hr)

theorem cell?_of_mem_reach (work seen : List Ref) (h : ∀ r ∈ seen, ∃ c, s.cell? r = some c) :
    ∀ r ∈ s.reach work seen, ∃ c, s.cell? r = some c := by
  fun_induction reach with
  | case1 => exact h
  | case2 r work seen hseen ih => exact ih h
  | case3 r work seen hseen hcell ih => exact ih h
  | case4 r work seen hseen c hcell ih =>
    refine ih fun q hq => ?_
    rcases List.mem_append.mp hq with hq | hq
    · exact h q hq
    · obtain rfl := List.mem_singleton.mp hq
      exact ⟨c, hcell⟩

theorem nodup_reach (work seen : List Ref) (h : seen.Nodup) : (s.reach work seen).Nodup := by
  fun_induction reach with
  | case1 => exact h
  | case2 r work seen hseen ih => exact ih h
  | case3 r work seen hseen hcell ih => exact ih h
  | case4 r work seen hseen c hcell ih =>
    refine ih (List.Nodup.append h (List.nodup_singleton r) ?_)
    simpa using hseen

/-- A list of references is closed if it has all that the cells of its references refer to. -/
def Closed (s : Store) (listed : List Ref) : Prop :=
  ∀ r ∈ listed, ∀ c, s.cell? r = some c → ∀ q ∈ c.refs, ∀ d, s.cell? q = some d → q ∈ listed

/-- While references are followed, what those seen refer to has been seen or is still to be followed. -/
theorem reach_closed (work seen : List Ref)
    (h : ∀ r ∈ seen, ∀ c, s.cell? r = some c → ∀ q ∈ c.refs, ∀ d, s.cell? q = some d →
      q ∈ seen ∨ q ∈ work) :
    s.Closed (s.reach work seen) := by
  fun_induction reach with
  | case1 seen => exact fun r hr c hc q hq d hd => (h r hr c hc q hq d hd).resolve_right List.not_mem_nil
  | case2 p work seen hseen ih =>
    refine ih fun r hr c hc q hq d hd => ?_
    rcases h r hr c hc q hq d hd with hin | hin
    · exact .inl hin
    · rcases List.mem_cons.mp hin with rfl | hin
      · exact .inl (List.contains_iff_mem.mp hseen)
      · exact .inr hin
  | case3 p work seen hseen hcell ih =>
    refine ih fun r hr c hc q hq d hd => ?_
    rcases h r hr c hc q hq d hd with hin | hin
    · exact .inl hin
    · rcases List.mem_cons.mp hin with rfl | hin
      · simp [hd] at hcell
      · exact .inr hin
  | case4 p work seen hseen e hcell ih =>
    refine ih fun r hr c hc q hq d hd => ?_
    rcases List.mem_append.mp hr with hr | hr
    · rcases h r hr c hc q hq d hd with hin | hin
      · exact .inl (List.mem_append_left _ hin)
      · rcases List.mem_cons.mp hin with rfl | hin
        · exact .inl (by simp)
        · exact .inr (List.mem_append_right _ hin)
    · obtain rfl := List.mem_singleton.mp hr
      obtain rfl := Option.some.inj (hcell.symm.trans hc)
      exact .inr (List.mem_append_left _ hq)

theorem closed_reachable (s : Store) (v : Value) : s.Closed (s.reachable v) :=
  reach_closed _ _ (by simp)

theorem nodup_reachable (s : Store) (v : Value) : (s.reachable v).Nodup := nodup_reach _ _ List.nodup_nil

theorem cell?_of_mem_reachable (h : r ∈ s.reachable v) : ∃ c, s.cell? r = some c :=
  cell?_of_mem_reach _ _ (by simp) r h

theorem length_le_of_nodup {refs : List Ref} (nodup : refs.Nodup) (h : ∀ r ∈ refs, r.index < s.cells.size) :
    refs.length ≤ s.cells.size := by
  have hinjective : Function.Injective Ref.index := fun ⟨i⟩ ⟨j⟩ hij => congrArg Ref.mk hij
  have hsub : refs.map Ref.index ⊆ List.range s.cells.size := by
    intro i hi
    obtain ⟨r, hr, rfl⟩ := List.mem_map.mp hi
    exact List.mem_range.mpr (h r hr)
  have hle := (List.subperm_of_subset (nodup.map hinjective) hsub).length_le
  rwa [List.length_map, List.length_range] at hle

theorem mem_reachable_self (h : s.cell? r = some c) : r ∈ s.reachable (.ref r) :=
  mem_reach _ _ (by simp [Value.ref?]) h

/-- The value that stands for another one in a copy. -/
def twinIn (s : Store) (v : Value) : Value → Value := twin (s.reachable v) s.cells.size s.identities

theorem twinIn_getElem {i : Nat} (h : (s.reachable v)[i]? = some r) :
    s.twinIn v (.ref r) = .ref ⟨s.cells.size + i⟩ := by
  obtain ⟨hi, rfl⟩ := List.getElem?_eq_some_iff.mp h
  have hidx : (s.reachable v).idxOf? (s.reachable v)[i] = some i := by
    refine List.idxOf?_eq_some_iff.mpr ⟨hi, rfl, fun j hj heq => ?_⟩
    exact absurd ((nodup_reachable s v).getElem_inj_iff.mp heq) (Nat.ne_of_lt hj)
  simp [twinIn, twin, hidx]

/-- The twins of different references that can be reached are different new references. -/
theorem exists_twinIn_ref (h : r ∈ s.reachable v) :
    ∃ i, (s.reachable v)[i]? = some r ∧ s.twinIn v (.ref r) = .ref ⟨s.cells.size + i⟩ := by
  obtain ⟨i, hi, rfl⟩ := List.getElem_of_mem h
  have hget : (s.reachable v)[i]? = some (s.reachable v)[i] := List.getElem?_eq_getElem hi
  exact ⟨i, hget, twinIn_getElem hget⟩

/-- The cells of a copy: the old ones, and behind them a twin for each that can be reached. -/
theorem cells_copy (s : Store) (v : Value) :
    (s.copy v).1.cells =
      s.cells ++
        ((s.reachable v).map fun r =>
          ((s.cell? r).getD (.iterator [])).mapValues (s.twinIn v)).toArray := by
  have hsome : (s.reachable v).filterMap (fun r => (s.cell? r).map (Cell.mapValues (s.twinIn v))) =
      (s.reachable v).map fun r => ((s.cell? r).getD (.iterator [])).mapValues (s.twinIn v) := by
    rw [List.filterMap_eq_map_iff_forall_eq_some]
    intro r hr
    obtain ⟨c, hc⟩ := cell?_of_mem_reachable hr
    simp [hc]
  rw [← hsome]
  rfl

theorem size_le_copy (s : Store) (v : Value) : s.cells.size ≤ (s.copy v).1.cells.size := by
  simp [cells_copy]

theorem cell?_copy_add {i : Nat} (hi : (s.reachable v)[i]? = some r) (h : s.cell? r = some c) :
    (s.copy v).1.cell? ⟨s.cells.size + i⟩ = some (c.mapValues (s.twinIn v)) := by
  have hget : (s.copy v).1.cell? ⟨s.cells.size + i⟩ =
      ((s.reachable v).map fun r => ((s.cell? r).getD (.iterator [])).mapValues (s.twinIn v))[i]? := by
    rw [cell?, cells_copy, Array.getElem?_append_right (Nat.le_add_right _ _)]
    simp
  rw [hget, List.getElem?_map, hi, Option.map_some, h]
  rfl

theorem cell?_copy_cases (h : (s.copy v).1.cell? q = some c) :
    s.cell? q = some c ∨
      ∃ i r d, q = ⟨s.cells.size + i⟩ ∧ (s.reachable v)[i]? = some r ∧ s.cell? r = some d ∧
        c = d.mapValues (s.twinIn v) := by
  by_cases hold : q.index < s.cells.size
  · exact .inl ((cell?_copy s v q hold).symm.trans h)
  · obtain ⟨i, hi⟩ := Nat.exists_eq_add_of_le (Nat.le_of_not_lt hold)
    have hq : q = ⟨s.cells.size + i⟩ := by
      cases q
      simpa using hi
    have hlength : i < (s.reachable v).length := by
      have := index_lt h
      simp only [cells_copy, Array.size_append, List.size_toArray, List.length_map] at this
      omega
    have hget := List.getElem?_eq_getElem hlength
    obtain ⟨d, hd⟩ := cell?_of_mem_reachable (List.getElem_mem hlength)
    have hcopy := cell?_copy_add hget hd
    rw [← hq, h] at hcopy
    exact .inr ⟨i, _, d, hq, hget, hd, Option.some.inj hcopy⟩

/-- In a copy a value that refers to a cell refers to its twin. -/
theorem cell?_twinIn (hr : r ∈ s.reachable v) (h : s.cell? r = some c) :
    ∃ q : Ref, s.twinIn v (.ref r) = .ref q ∧ s.cells.size ≤ q.index ∧
      (s.copy v).1.cell? q = some (c.mapValues (s.twinIn v)) := by
  obtain ⟨i, hi, htwin⟩ := exists_twinIn_ref hr
  exact ⟨_, htwin, by simp, cell?_copy_add hi h⟩

end Manuscript.Store
