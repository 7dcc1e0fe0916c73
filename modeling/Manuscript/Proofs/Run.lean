import Manuscript.Script
/-!
# Runs of scripts

What every act of a script preserves is preserved by its run, wherever that ends. So are relations between two runs.
To watch a run, keeping something that is seen of each act, changes nothing about it.
-/
namespace Manuscript

variable {α β σ τ : Type}

namespace Progress

def map (f : σ → τ) (p : Progress σ) : Progress τ := ⟨f p.state, p.taken, p.fault⟩

@[simp] theorem map_fault (f : σ → τ) (p : Progress σ) : (p.map f).fault = p.fault := rfl

@[simp] theorem map_taken (f : σ → τ) (p : Progress σ) : (p.map f).taken = p.taken := rfl

end Progress

section

variable {P : σ → Prop} {perform : σ → α → σ × Option Fault}

mutual
theorem Step.run_preserves (h : ∀ s a, P s → P (perform s a).1) :
    ∀ (step : Step α) (p : Progress σ), P p.state → P (step.run perform p).state
  | .act a, p, hp => h p.state a hp
  | .halt _, _, hp => hp
  | .take _, _, hp => hp
  | .once source first again, p, hp => by
    rw [Step.run]
    split
    · exact Step.runAll_preserves h again p hp
    · exact Step.runAll_preserves h first p hp

theorem Step.runAll_preserves (h : ∀ s a, P s → P (perform s a).1) :
    ∀ (steps : List (Step α)) (p : Progress σ), P p.state → P (Step.runAll perform steps p).state
  | [], _, hp => hp
  | step :: rest, p, hp => by
    rw [Step.runAll]
    split
    · exact hp
    · exact Step.runAll_preserves h rest _ (Step.run_preserves h step p hp)
end

/-- What every act preserves holds at the end of a run that it held at the start of. -/
theorem Script.run_preserves (h : ∀ s a, P s → P (perform s a).1) (script : Script α) {s : σ}
    (hs : P s) : P (script.run perform s).state :=
  Step.runAll_preserves h script (.start s) hs

end

/-- How far two runs have got: to related states, with the same items taken, and with the same fault or none. -/
structure Progress.Related (R : σ → τ → Prop) (p : Progress σ) (q : Progress τ) : Prop where
  state : R p.state q.state
  taken : p.taken = q.taken
  fault : p.fault = q.fault

section

variable {R : σ → τ → Prop} {perform : σ → α → σ × Option Fault} {other : τ → α → τ × Option Fault}

mutual
theorem Step.run_related
    (h : ∀ s t a, R s t → R (perform s a).1 (other t a).1 ∧ (perform s a).2 = (other t a).2) :
    ∀ (step : Step α) {p : Progress σ} {q : Progress τ}, p.Related R q →
      (step.run perform p).Related R (step.run other q)
  | .act a, _, _, hpq => ⟨(h _ _ a hpq.state).1, hpq.taken, (h _ _ a hpq.state).2⟩
  | .halt _, _, _, hpq => ⟨hpq.state, hpq.taken, rfl⟩
  | .take source, _, _, hpq => ⟨hpq.state, congrArg (· ++ [source]) hpq.taken, hpq.fault⟩
  | .once source first again, p, q, hpq => by
    rw [Step.run, Step.run, hpq.taken]
    split
    · exact Step.runAll_related h again hpq
    · exact Step.runAll_related h first hpq

theorem Step.runAll_related
    (h : ∀ s t a, R s t → R (perform s a).1 (other t a).1 ∧ (perform s a).2 = (other t a).2) :
    ∀ (steps : List (Step α)) {p : Progress σ} {q : Progress τ}, p.Related R q →
      (Step.runAll perform steps p).Related R (Step.runAll other steps q)
  | [], _, _, hpq => hpq
  | step :: rest, p, q, hpq => by
    rw [Step.runAll, Step.runAll, hpq.fault]
    split
    · exact hpq
    · exact Step.runAll_related h rest (Step.run_related h step hpq)
end

/-- Runs of one script from related states go alike, if acts keep states related and end in the same faults. -/
theorem Script.run_related
    (h : ∀ s t a, R s t → R (perform s a).1 (other t a).1 ∧ (perform s a).2 = (other t a).2)
    (script : Script α) {s : σ} {t : τ} (hst : R s t) : (script.run perform s).Related R (script.run other t) :=
  Step.runAll_related h script ⟨hst, rfl, rfl⟩

theorem Script.fold_related {perform : σ → α → σ} {other : τ → α → τ}
    (h : ∀ s t a, R s t → R (perform s a) (other t a)) (script : Script α) {s : σ} {t : τ} (hst : R s t) :
    (script.fold perform s).Related R (script.fold other t) :=
  script.run_related (fun s t a hst => ⟨h s t a hst, rfl⟩) hst

end

/-- Performs acts, and keeps what is seen of each. -/
def watched (perform : σ → α → σ × Option Fault) (seen : α → List β) (s : σ × List β) (a : α) :
    (σ × List β) × Option Fault :=
  (((perform s.1 a).1, s.2 ++ seen a), (perform s.1 a).2)

section

variable (perform : σ → α → σ × Option Fault) (seen : α → List β)

mutual
theorem Step.run_watched : ∀ (step : Step α) (p : Progress (σ × List β)),
    (step.run (watched perform seen) p).map Prod.fst = step.run perform (p.map Prod.fst)
  | .act _, _ => rfl
  | .halt _, _ => rfl
  | .take _, _ => rfl
  | .once source first again, p => by
    rw [Step.run, Step.run, Progress.map_taken]
    split
    · exact Step.runAll_watched again p
    · exact Step.runAll_watched first p

theorem Step.runAll_watched : ∀ (steps : List (Step α)) (p : Progress (σ × List β)),
    (Step.runAll (watched perform seen) steps p).map Prod.fst =
      Step.runAll perform steps (p.map Prod.fst)
  | [], _ => rfl
  | step :: rest, p => by
    rw [Step.runAll, Step.runAll, Progress.map_fault]
    split
    · rfl
    · rw [Step.runAll_watched rest, Step.run_watched step]
end

/-- A run that is watched goes as one that is not. -/
theorem Script.run_watched (script : Script α) (s : σ) (kept : List β) :
    (script.run (watched perform seen) (s, kept)).map Prod.fst = script.run perform s :=
  Step.runAll_watched perform seen script (.start (s, kept))

end

end Manuscript
