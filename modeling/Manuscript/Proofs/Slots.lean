import Manuscript.Tree
import Manuscript.Violation
/-!
# Slots of children

Where the children of a node stand, and what occurs in a tree. What is to be shown of all trees is shown of
a tree whose children it holds of.
-/
namespace Manuscript

/-- Where a child stands in its node: in front of a document, in a wrapper, or somewhere in a list. -/
inductive Slot
  | front
  | block (holder : Holder) (index : Nat)
  | entry (index : Nat)
  | inline (index : Nat)
  | wrapped (wrapper : Kind)
  | equation (index : Nat)
  | item (index : Nat)
  | row (index : Nat)
  deriving DecidableEq, Repr

namespace Tree

/-- Children in a list, each in its slot. -/
def placed (slot : Nat → Slot) (ts : List Tree) : List (Slot × Tree) :=
  ts.mapIdx fun i t => (slot i, t)

/-- The children of a node in order, with their slots. -/
def slots : Tree → List (Slot × Tree)
  | bold content => [(.wrapped .bold, content)]
  | italic content => [(.wrapped .italic, content)]
  | paragraph _ content => placed .inline content
  | sectioning name _ elements => placed (.block (.sectioning name.literal)) elements
  | preamble _ _ _ elements => placed .entry elements
  | document _ front _ elements => (.front, front) :: placed (.block .document) elements
  | align _ equations => placed .equation equations
  | list _ _ items _ => placed .item items
  | table _ rows _ _ => placed .row rows
  | blocked _ node => node.slots
  | _ => []

/-- How a node gives what it holds. -/
def supply : Tree → Supply
  | paragraph s _ | sectioning _ s _ | preamble _ _ s _ | document _ _ s _ | align s _ | list _ s _ _
  | table s _ _ _ => s
  | misfit (.row row) => row.supply
  | blocked _ node => node.supply
  | _ => .listed

end Tree

/-- The kinds of nodes that have places for children. -/
def Kind.hasSlots : Kind → Bool
  | bold | italic | paragraph | sectioning | preamble | document | align | list | table => true
  | _ => false

namespace Tree

variable {t : Tree}

theorem mem_placed {slot : Nat → Slot} {ts : List Tree} {p : Slot × Tree} :
    p ∈ placed slot ts ↔ ∃ (i : Nat) (h : i < ts.length), (slot i, ts[i]) = p := List.mem_mapIdx

theorem map_snd_placed (slot : Nat → Slot) (ts : List Tree) :
    (placed slot ts).map Prod.snd = ts := by
  apply List.ext_getElem <;> simp [placed]

theorem flatMap_placed {α : Type} (slot : Nat → Slot) (ts : List Tree) (f : Slot × Tree → List α) :
    (placed slot ts).flatMap f = (ts.mapIdx fun i t => f (slot i, t)).flatten := by
  rw [List.flatMap_def]
  congr 1
  apply List.ext_getElem <;> simp [placed]

theorem flatMap_placed_snd {α : Type} (slot : Nat → Slot) (ts : List Tree) (f : Tree → List α) :
    ((placed slot ts).flatMap fun p => f p.2) = (ts.map f).flatten := by
  rw [← map_snd_placed slot ts, List.map_map, map_snd_placed]
  exact List.flatMap_def

theorem sizeOf_of_mem_placed {slot : Nat → Slot} {ts : List Tree} {p : Slot × Tree}
    (h : p ∈ placed slot ts) : sizeOf p.2 < sizeOf ts := by
  have hmem : p.2 ∈ (placed slot ts).map Prod.snd := List.mem_map_of_mem h
  rw [map_snd_placed] at hmem
  exact List.sizeOf_lt_of_mem hmem

theorem sizeOf_of_mem_slots {p : Slot × Tree} (h : p ∈ t.slots) : sizeOf p.2 < sizeOf t := by
  fun_induction slots t with
  | case1 | case2 =>
    obtain rfl := List.mem_singleton.mp h
    simp
  | case6 =>
    rcases List.mem_cons.mp h with rfl | h
    · simp
      omega
    · have := sizeOf_of_mem_placed h
      simp
      omega
  | case10 f node ih =>
    have := ih h
    simp
    omega
  | case11 => cases h
  | _ =>
    have := sizeOf_of_mem_placed h
    simp
    omega

theorem slots_eq_nil {k : Kind} (h : t.kind? = some k) (leaf : k.hasSlots = false) : t.slots = [] := by
  fun_induction slots t with
  | case10 f node ih => exact ih h
  | case11 => rfl
  | _ =>
    cases h
    cases leaf

/-- What holds of a tree if it holds of its children holds of every tree. -/
@[elab_as_elim]
theorem slots_induction {P : Tree → Prop} (step : ∀ t, (∀ p ∈ t.slots, P p.2) → P t) (t : Tree) : P t :=
  step t fun p _ => slots_induction step p.2
  termination_by sizeOf t
  decreasing_by exact sizeOf_of_mem_slots ‹_›

/-- All that stands in a tree, the tree included, each node before its children. -/
def occurrences (t : Tree) : List Tree := t :: t.slots.attach.flatMap fun p => occurrences p.1.2
  termination_by sizeOf t
  decreasing_by exact sizeOf_of_mem_slots p.2

theorem occurrences_eq (t : Tree) : t.occurrences = t :: t.slots.flatMap fun p => p.2.occurrences := by
  rw [occurrences, List.flatMap_def, List.flatMap_def,
    List.attach_map_val (f := fun p : Slot × Tree => p.2.occurrences)]

theorem self_mem_occurrences (t : Tree) : t ∈ t.occurrences := by
  rw [occurrences_eq]
  exact List.mem_cons_self

/-- What holds all over a tree holds of the tree itself and all over its children. -/
theorem forall_occurrences_iff {P : Tree → Prop} (t : Tree) :
    (∀ s ∈ t.occurrences, P s) ↔ P t ∧ ∀ p ∈ t.slots, ∀ s ∈ p.2.occurrences, P s := by
  rw [occurrences_eq]
  simp only [List.mem_cons, List.mem_flatMap, forall_eq_or_imp]
  exact and_congr_right fun _ => ⟨fun h p hp s hs => h s ⟨p, hp, hs⟩, fun h s ⟨p, hp, hs⟩ => h p hp s hs⟩

theorem forall_occurrences_leaf {P : Tree → Prop} (leaf : t.slots = []) (h : P t) :
    ∀ s ∈ t.occurrences, P s := by
  rw [forall_occurrences_iff, leaf]
  exact ⟨h, by simp⟩

end Tree

end Manuscript
