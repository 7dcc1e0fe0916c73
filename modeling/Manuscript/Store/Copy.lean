import Manuscript.Store
/-!
# Copies

A deep copy of a value gives every cell that can be reached from it a twin with a new reference. The twins
refer to one another as the cells do, so what was shared stays shared in the copy, and the copy shares
nothing with the value.
-/
namespace Manuscript.Store

/-- The references of a store that are not among those seen. -/
def unseen (s : Store) (seen : List Ref) : Nat :=
  ((List.range s.cells.size).filter fun i => !seen.contains ⟨i⟩).length

theorem unseen_lt (s : Store) {seen : List Ref} {r : Ref} {c : Cell} (h : s.cell? r = some c)
    (hs : seen.contains r = false) : s.unseen (seen ++ [r]) < s.unseen seen := by
  have hr : r.index < s.cells.size := by
    have := h
    simp only [cell?] at this
    exact (Array.getElem?_eq_some_iff.mp this).1
  unfold unseen
  rw [← List.countP_eq_length_filter, ← List.countP_eq_length_filter]
  have hle : ∀ l : List Nat,
      List.countP (fun i => !(seen ++ [r]).contains ⟨i⟩) l ≤
        List.countP (fun i => !seen.contains ⟨i⟩) l := fun l =>
    List.countP_mono_left fun i _ hi => by
      simp only [List.contains_eq_mem, List.mem_append, Bool.not_eq_true', decide_eq_false_iff_not,
        not_or] at *
      exact hi.1
  obtain ⟨l₁, l₂, hl⟩ := List.append_of_mem (List.mem_range.mpr hr)
  rw [hl, List.countP_append, List.countP_append, List.countP_cons, List.countP_cons]
  have h1 := hle l₁
  have h2 := hle l₂
  have e1 : (!(seen ++ [r]).contains ⟨r.index⟩) = false := by simp
  have e2 : (!seen.contains ⟨r.index⟩) = true := by simpa using hs
  rw [e1, e2]
  simp only [Bool.false_eq_true, if_false, if_true]
  omega

/-- The references that can be reached from those to be followed, after those seen. -/
def reach (s : Store) : List Ref → List Ref → List Ref
  | [], seen => seen
  | r :: work, seen =>
    if seen.contains r then s.reach work seen
    else
      match _h : s.cell? r with
      | none => s.reach work seen
      | some c => s.reach (c.refs ++ work) (seen ++ [r])
  termination_by work seen => (s.unseen seen, work.length)
  decreasing_by
  · exact Prod.Lex.right _ (by simp)
  · exact Prod.Lex.right _ (by simp)
  · exact Prod.Lex.left _ _ (s.unseen_lt ‹_› (by simp_all))

/-- The references that can be reached from a value, each once. -/
def reachable (s : Store) (v : Value) : List Ref := s.reach v.ref?.toList []

/-- The twin of a value, when the twins of the listed references are given out from `base` on. A failure has
a twin too, whose identity is `offset` higher. -/
def twin (listed : List Ref) (base offset : Nat) (v : Value) : Value :=
  match v with
  | .atom (.failure identity className message) => .atom (.failure (identity + offset) className message)
  | .atom a => .atom a
  | .ref r =>
    match listed.idxOf? r with
    | some i => .ref ⟨base + i⟩
    | none => .ref r

/-- A deep copy of a value. -/
def copy (s : Store) (v : Value) : Store × Value :=
  let listed := s.reachable v
  let rename := twin listed s.cells.size s.identities
  let copies := (listed.filterMap fun r => (s.cell? r).map (Cell.mapValues rename)).toArray
  ({ s with cells := s.cells ++ copies, identities := 2 * s.identities }, rename v)

theorem cell?_copy (s : Store) (v : Value) (r : Ref) (h : r.index < s.cells.size) :
    (s.copy v).1.cell? r = s.cell? r := by
  simp [copy, cell?, Array.getElem?_append, h]

end Manuscript.Store
