import Manuscript.Proofs.Composition
import Manuscript.Proofs.Run
/-!
# The first report

A strict validation is the first step of one that collects its reports: it ends with the first report that
the other one makes, and if there is none the two do the same.
-/
namespace Manuscript

variable {p : Progress (List Violation)}

/-- Keeps a report, and makes a fault of it in a strict walk. -/
def noted (strict : Bool) (found : List Violation) (v : Violation) : List Violation × Option Fault :=
  (found ++ [v], if strict then some (.violation v) else none)

/-- How a strict run, the second one, ends compared with one that collects. -/
inductive StopsFirst (p : Progress (List Violation)) : Progress (List Violation) → Prop
  | alike (clean : p.state = []) : StopsFirst p p
  | stopped {q : Progress (List Violation)} (v : Violation) (more : List Violation)
      (found : p.state = v :: more) (first : q.state = [v]) (fault : q.fault = some (.violation v)) :
      StopsFirst p q

theorem runAll_keeps (v : Violation) (steps : Reports) (h : ∃ more, p.state = v :: more) :
    ∃ more, (Step.runAll (noted false) steps p).state = v :: more := by
  refine Step.runAll_preserves (P := fun found => ∃ more, found = v :: more) ?_ steps p h
  rintro _ w ⟨more, rfl⟩
  exact ⟨more ++ [w], rfl⟩

mutual
theorem Step.stopsFirst : ∀ (step : Step Violation) (p : Progress (List Violation)), p.state = [] →
    StopsFirst (step.run (noted false) p) (step.run (noted true) p)
  | .act v, p, clean => by
    refine .stopped v [] ?_ ?_ rfl <;> simp [Step.run, noted, clean]
  | .halt f, p, clean => .alike clean
  | .take source, p, clean => .alike clean
  | .once source first again, p, clean => by
    rw [Step.run, Step.run]
    split
    · exact Step.runAll_stopsFirst again p clean
    · exact Step.runAll_stopsFirst first p clean

theorem Step.runAll_stopsFirst : ∀ (steps : Reports) (p : Progress (List Violation)), p.state = [] →
    StopsFirst (Step.runAll (noted false) steps p) (Step.runAll (noted true) steps p)
  | [], p, clean => .alike clean
  | step :: rest, p, clean => by
    rw [Step.runAll, Step.runAll]
    split
    · exact .alike clean
    · have hstep := Step.stopsFirst step p clean
      generalize step.run (noted false) p = collected at hstep ⊢
      generalize step.run (noted true) p = strict at hstep ⊢
      cases hstep with
      | alike clean => exact Step.runAll_stopsFirst rest collected clean
      | stopped v more found first fault =>
        obtain ⟨all, hall⟩ := runAll_keeps v rest ⟨more, found⟩
        rw [Step.runAll_of_fault (noted true) rest (by simp [fault])]
        exact .stopped v all hall first fault
end

namespace Tree

variable {t : Tree}

/-- Of every tree, whatever stands in it. -/
theorem validate_stopsFirst (t : Tree) : StopsFirst (t.validate false) (t.validate true) :=
  Step.runAll_stopsFirst t.check (.start []) rfl

/-- A strict validation does the same as one that collects its reports if there are none. Otherwise the first
report that is collected is its fault and its only report. Nothing else stops a validation of nodes. -/
theorem validate_strict (t : Tree) :
    (match (t.validate false).state with
      | [] => t.validate true = t.validate false
      | v :: _ =>
        (t.validate true).state = [v] ∧ (t.validate true).fault = some (.violation v) ∧
          (Fault.violation v).message = v.message) ∧
      (t.kind? ≠ none → (∀ s ∈ t.occurrences, s.Walkable) → (t.validate false).fault = none) := by
  constructor
  · have hstops := validate_stopsFirst t
    generalize t.validate true = strict at hstops ⊢
    cases hstops with
    | alike clean =>
      rw [clean]
    | stopped v more collected first fault =>
      rw [collected]
      exact ⟨first, fault, rfl⟩
  · intro root walkable
    obtain ⟨found, hfound, _⟩ := check_performs walkable root
    rw [validate_of_acts hfound]
    rfl

theorem validate_strict_two_rows :
    let t := table .listed [tableRow ⟨["a", "b"], some 1, false⟩, item "c"] (.typed []) .standard
    t.kind? ≠ none ∧ (∀ s ∈ t.occurrences, s.Walkable) ∧
      (t.validate false).state = [.tooManyCells 0 2 "1", .notRow 1 "Item"] ∧
      (t.validate true).state = [.tooManyCells 0 2 "1"] ∧
      (t.validate true).fault = some (.violation (.tooManyCells 0 2 "1")) ∧
      (t.validate false).fault = none := by
  intro t
  have hroot : t.kind? ≠ none := by decide
  have hwalkable : ∀ s ∈ t.occurrences, s.Walkable := by
    refine (forall_occurrences_iff t).mpr ⟨rfl, List.forall_mem_cons.mpr ⟨?_, ?_⟩⟩
    · exact forall_occurrences_leaf rfl rfl
    · exact List.forall_mem_singleton.mpr (forall_occurrences_leaf rfl rfl)
  have hfound : (t.validate false).state = [.tooManyCells 0 2 "1", .notRow 1 "Item"] := by decide
  obtain ⟨hstrict, hends⟩ := validate_strict t
  rw [hfound] at hstrict
  exact ⟨hroot, hwalkable, hfound, hstrict.1, hstrict.2.1, hends hroot hwalkable⟩

end Tree

end Manuscript
