import Manuscript.Supply
/-!
# Scripts

What a walk over a tree does, as data: a list of steps that depends on the tree alone. A step is an act of the
walk, a halt, or an item taken from an iterator. What lies beyond an iterator is done only the first time
that the walk gets there, since it finds the iterator empty from then on. `Script.run` carries a script out:
it keeps a state, remembers what was taken, and ends at the first fault.
-/
namespace Manuscript

/-- `once` has two continuations: the first for an iterator that the walk has taken nothing from so far. -/
inductive Step (α : Type)
  | act (act : α)
  | halt (fault : Fault)
  | take (source : Ref)
  | once (source : Ref) (first again : List (Step α))
  deriving Repr

abbrev Script (α : Type) := List (Step α)

/-- How far the carrying out of a script has got: the state, the iterators that an item was taken from, once
for each item, and the fault that it has ended in. -/
structure Progress (σ : Type) where
  state : σ
  taken : List Ref
  fault : Option Fault

namespace Progress

def start {σ : Type} (state : σ) : Progress σ := ⟨state, [], none⟩

end Progress

section

variable {α σ : Type}

mutual
/-- Carries out one step. An act changes the state, and may end in a fault. -/
def Step.run (perform : σ → α → σ × Option Fault) : Step α → Progress σ → Progress σ
  | .act a, p =>
    let (state, fault) := perform p.state a
    { p with state, fault }
  | .halt f, p => { p with fault := some f }
  | .take source, p => { p with taken := p.taken ++ [source] }
  | .once source first again, p =>
    if p.taken.contains source then Step.runAll perform again p else Step.runAll perform first p

/-- Carries out steps until a fault. -/
def Step.runAll (perform : σ → α → σ × Option Fault) : List (Step α) → Progress σ → Progress σ
  | [], p => p
  | s :: rest, p => if p.fault.isSome then p else Step.runAll perform rest (s.run perform p)
end

namespace Script

/-- Carries out a script from a state. -/
def run (perform : σ → α → σ × Option Fault) (script : Script α) (state : σ) : Progress σ :=
  Step.runAll perform script (.start state)

/-- Carries out a script whose acts cannot fail. -/
def fold (perform : σ → α → σ) (script : Script α) (state : σ) : Progress σ :=
  script.run (fun s a => (perform s a, none)) state

/-- The script of some acts. -/
def acts (as : List α) : Script α := as.map .act

end Script

/-- The script of going through a supply, with one script for each item, and another one for afterwards. An
iterator that has been gone through before gives nothing, and nothing follows. -/
def Supply.each (s : Supply) (items : List (Script α)) (afterwards : Script α) : Script α :=
  match s with
  | listed | unsized _ none => items.flatten ++ afterwards
  | unsized _ (some source) =>
    [.once source ((items.flatMap fun item => .take source :: item) ++ afterwards) []]
  | missing _ innermost _ => [.halt (.notIterable innermost)]

@[simp] theorem Supply.each_listed (items : List (Script α)) (afterwards : Script α) :
    Supply.listed.each items afterwards = items.flatten ++ afterwards := rfl

theorem Step.runAll_of_fault (perform : σ → α → σ × Option Fault) (steps : List (Step α))
    {p : Progress σ} (h : p.fault.isSome) : Step.runAll perform steps p = p := by
  cases steps <;> simp [Step.runAll, h]

@[simp] theorem Step.runAll_append (perform : σ → α → σ × Option Fault) (xs ys : List (Step α))
    (p : Progress σ) :
    Step.runAll perform (xs ++ ys) p = Step.runAll perform ys (Step.runAll perform xs p) := by
  induction xs generalizing p with
  | nil => simp [Step.runAll]
  | cons x xs ih =>
    by_cases h : p.fault.isSome
    · simp [Step.runAll, h, Step.runAll_of_fault perform ys h]
    · simp [Step.runAll, h, ih]

/-- Acts that cannot fail are performed one after the other. -/
theorem Script.fold_acts (perform : σ → α → σ) (as : List α) (state : σ) :
    (Script.acts as).fold perform state = .start (as.foldl perform state) := by
  unfold Script.fold Script.run Script.acts
  induction as generalizing state with
  | nil => simp [Step.runAll]
  | cons a as ih =>
    simp only [List.map_cons, List.foldl_cons, Step.runAll]
    simpa [Step.run, Progress.start] using ih (perform state a)

end

end Manuscript
