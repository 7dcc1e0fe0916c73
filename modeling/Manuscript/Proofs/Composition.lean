import Mathlib.Data.List.Perm.Basic
import Mathlib.Data.List.Nodup
import Manuscript.Proofs.Slots
import Manuscript.Proofs.Safety
/-!
# Composition

Every slot admits some kinds of nodes, and rows only if they record enough columns. A child that its slot
does not admit is a breach. A validation that collects its reports has exactly one for each breach that lies
under no other one.
-/
namespace Manuscript

namespace Slot

/-- The kinds of nodes that may stand in a slot. -/
def kinds : Slot → List Kind
  | front => [.preamble]
  | block _ _ =>
    [.paragraph, .sectioning, .tableOfContents, .titlePage, .clearPage, .align, .environment, .userDefined,
      .list, .table, .input]
  | entry _ => [.usePackage, .newCommand, .preambleLine]
  | inline _ | wrapped _ => [.plain, .bold, .italic, .inlineMath]
  | equation _ => [.equation]
  | item _ => [.item]
  | row _ => [.tableRow]

end Slot

namespace Tree

/-- Whether a row records fewer columns than it has cells. -/
def isOverfull : Tree → Bool
  | tableRow row => row.columns.any fun n : Int => decide (n < row.cells.length)
  | misfit (.row row) =>
    row.columns != .none && (row.columns.compared .less (.int row.cells.length)).toOption == some true
  | _ => false

/-- All that a walk needs to go on: children, and cells, in lists, and recorded columns that can be compared
with a number. -/
def Walkable : Tree → Prop
  | blocked _ node => node.Walkable
  | misfit (.row row) =>
    row.supply = .listed ∧
      (row.columns = .none ∨ ∃ less, row.columns.compared .less (.int row.cells.length) = .ok less)
  | t => t.supply = .listed

end Tree

namespace Slot

def admits (slot : Slot) (t : Tree) : Bool :=
  t.kind?.any (slot.kinds.contains ·) && !t.isOverfull

/-- What is reported of a slot that does not admit what stands there. -/
def violation : Slot → Tree → Violation
  | front, t => .notPreamble t.typeName
  | block holder i, t => .notBlock holder i t.typeName
  | entry i, t => .notPreambleEntry i t.typeName
  | inline i, t => .notInline i t.typeName
  | wrapped wrapper, t => .wrapsNoInline wrapper t.typeName
  | equation i, t => .notEquation i t.typeName
  | item i, t => .notItem i t.typeName
  | row i, .tableRow r => .tooManyCells i r.cells.length (toString (r.columns.getD 0))
  | row i, .misfit (.row r) => .tooManyCells i r.cells.length r.columns.printed
  | row i, t => .notRow i t.typeName

end Slot

/-- One text is told somewhere in another one. -/
def Text.Tells (text fact : String) : Prop := ∃ before after, text = before ++ fact ++ after

/-- The texts that a report must tell: the position in a list, and the type of what was found there, or the
two counts of a row. -/
def Violation.facts : Violation → List String
  | notPreamble typeName | wrapsNoInline _ typeName => [typeName]
  | notPreambleEntry i typeName | notBlock _ i typeName | notInline i typeName | notEquation i typeName
  | notItem i typeName | notRow i typeName => [toString i, typeName]
  | tooManyCells i cells columns => [toString i, toString cells, columns]

namespace Text

theorem tells_inside (before fact after : String) : Tells (before ++ fact ++ after) fact :=
  ⟨before, after, rfl⟩

theorem tells_last (before fact : String) : Tells (before ++ fact) fact :=
  ⟨before, "", String.append_empty.symm⟩

theorem Tells.append {text fact : String} (h : Tells text fact) (more : String) :
    Tells (text ++ more) fact := by
  obtain ⟨before, after, rfl⟩ := h
  exact ⟨before, after ++ more, String.append_assoc⟩

end Text

open Text in
/-- Every report tells its facts. -/
theorem Violation.message_tells (v : Violation) : ∀ fact ∈ v.facts, Tells v.message fact := by
  cases v with
  | notPreamble typeName | wrapsNoInline _ typeName =>
    intro fact h
    obtain rfl := List.mem_singleton.mp h
    exact tells_last _ fact
  | tooManyCells i cells columns =>
    simp only [facts, List.forall_mem_cons]
    exact ⟨((((tells_inside _ _ _).append _).append _).append _).append _,
      ((tells_inside _ _ _).append _).append _, tells_inside _ _ _, by simp⟩
  | _ =>
    simp only [facts, List.forall_mem_cons]
    exact ⟨(tells_inside _ _ _).append _, tells_last _ _, by simp⟩

/-- A slot that does not admit what was found there, with the slots that lead to it from the root. -/
structure Breach where
  path : List Slot
  slot : Slot
  found : Tree

namespace Breach

/-- Where a breach is. -/
def position (b : Breach) : List Slot := b.path ++ [b.slot]

def report (b : Breach) : Violation := b.slot.violation b.found

/-- The same breach, seen from above. -/
def under (slot : Slot) (b : Breach) : Breach := { b with path := slot :: b.path }

@[simp] theorem report_under (slot : Slot) (b : Breach) : (b.under slot).report = b.report := rfl

@[simp] theorem position_under (slot : Slot) (b : Breach) :
    (b.under slot).position = slot :: b.position := rfl

end Breach

namespace Tree

variable {t : Tree} {ts : List Tree}

/-- A node is reached by a path of slots, each of which admits what stands there. -/
inductive Reaches : Tree → List Slot → Tree → Prop
  | here (t : Tree) : Reaches t [] t
  | down {t c s : Tree} {slot : Slot} {path : List Slot} (child : (slot, c) ∈ t.slots)
      (admitted : slot.admits c = true) (rest : Reaches c path s) : Reaches t (slot :: path) s

/-- A breach of a tree that lies under no other one. -/
def Breaks (t : Tree) (b : Breach) : Prop :=
  ∃ s, t.Reaches b.path s ∧ (b.slot, b.found) ∈ s.slots ∧ b.slot.admits b.found = false

/-- A tree is composed if all over it every slot admits what stands there. -/
def Composed (t : Tree) : Prop := ∀ s ∈ t.occurrences, ∀ p ∈ s.slots, p.1.admits p.2 = true

/-- The breaches of a tree that lie under no other ones. -/
def breaches (t : Tree) : List Breach :=
  t.slots.attach.flatMap fun p =>
    if p.1.1.admits p.1.2 then (breaches p.1.2).map (Breach.under p.1.1) else [⟨[], p.1.1, p.1.2⟩]
  termination_by sizeOf t
  decreasing_by exact sizeOf_of_mem_slots p.2

/-- The breaches at a slot, or under it. -/
def breachesAt (p : Slot × Tree) : List Breach :=
  if p.1.admits p.2 then p.2.breaches.map (Breach.under p.1) else [⟨[], p.1, p.2⟩]

theorem breaches_eq (t : Tree) : t.breaches = t.slots.flatMap breachesAt := by
  rw [breaches, List.flatMap_def, List.flatMap_def, ← List.attach_map_val (f := breachesAt)]
  rfl

theorem mem_breachesAt {p : Slot × Tree} {b : Breach} :
    b ∈ breachesAt p ↔
      (p.1.admits p.2 = true ∧ ∃ c ∈ p.2.breaches, c.under p.1 = b) ∨
        (p.1.admits p.2 = false ∧ b = ⟨[], p.1, p.2⟩) := by
  by_cases h : p.1.admits p.2 = true <;> simp [breachesAt, h]

theorem breaks_iff (b : Breach) :
    t.Breaks b ↔
      ∃ p ∈ t.slots, (p.1.admits p.2 = true ∧ ∃ c, p.2.Breaks c ∧ c.under p.1 = b) ∨
        (p.1.admits p.2 = false ∧ b = ⟨[], p.1, p.2⟩) := by
  constructor
  · rintro ⟨s, hreach, hchild, hbad⟩
    obtain ⟨path, slot, found⟩ := b
    cases hreach with
    | here => exact ⟨(slot, found), hchild, .inr ⟨hbad, rfl⟩⟩
    | @down _ c _ first path child admitted rest =>
      exact ⟨(first, c), child, .inl ⟨admitted, ⟨path, slot, found⟩, ⟨s, rest, hchild, hbad⟩, rfl⟩⟩
  · rintro ⟨⟨first, c⟩, child, ⟨admitted, b, ⟨s, hreach, hchild, hbad⟩, rfl⟩ | ⟨hbad, rfl⟩⟩
    · exact ⟨s, .down child admitted hreach, hchild, hbad⟩
    · exact ⟨t, .here t, child, hbad⟩

theorem mem_breaches_iff (t : Tree) (b : Breach) : b ∈ t.breaches ↔ t.Breaks b := by
  induction t using slots_induction generalizing b with
  | step t ih =>
    rw [breaches_eq, breaks_iff, List.mem_flatMap]
    refine exists_congr fun p => and_congr_right fun hp => ?_
    rw [mem_breachesAt]
    refine or_congr_left (and_congr_right fun _ => exists_congr fun c => ?_)
    rw [ih p hp c]

theorem breaches_eq_nil_iff (t : Tree) : t.breaches = [] ↔ t.Composed := by
  induction t using slots_induction with
  | step t ih =>
    rw [breaches_eq, List.flatMap_eq_nil_iff, Composed, forall_occurrences_iff, ← forall₂_and]
    refine forall₂_congr fun p hp => ?_
    by_cases h : p.1.admits p.2 = true
    · simp [breachesAt, h, ih p hp, Composed]
    · simp [breachesAt, h]

theorem map_fst_placed {slot : Nat → Slot} (injective : Function.Injective slot) (ts : List Tree) :
    ((placed slot ts).map Prod.fst).Nodup := by
  have h : (placed slot ts).map Prod.fst = (List.range ts.length).map slot := by
    apply List.ext_getElem <;> simp [placed]
  rw [h]
  exact List.nodup_range.map injective

theorem nodup_slots (t : Tree) : (t.slots.map Prod.fst).Nodup := by
  have hlist {slot : Nat → Slot} (h : ∀ i j, slot i = slot j → i = j) (ts : List Tree) :
      ((placed slot ts).map Prod.fst).Nodup := map_fst_placed (fun i j hij => h i j hij) ts
  fun_induction slots t with
  | case1 | case2 => simp
  | case6 =>
    refine List.nodup_cons.mpr ⟨?_, hlist (by simp) _⟩
    simp [placed]
  | case10 f node ih => exact ih
  | case11 => simp
  | _ => exact hlist (by simp) _

theorem nodup_positions (t : Tree) : (t.breaches.map Breach.position).Nodup := by
  induction t using slots_induction with
  | step t ih =>
    -- breaches at different slots differ in the first step of their positions
    have hhead (p : Slot × Tree) : ∀ q ∈ (breachesAt p).map Breach.position, q.head? = some p.1 := by
      intro q hq
      obtain ⟨b, hb, rfl⟩ := List.mem_map.mp hq
      rcases mem_breachesAt.mp hb with ⟨_, c, _, rfl⟩ | ⟨_, rfl⟩ <;> rfl
    rw [breaches_eq, List.map_flatMap, List.nodup_flatMap]
    constructor
    · intro p hp
      by_cases h : p.1.admits p.2 = true
      · have hposition : (breachesAt p).map Breach.position =
            (p.2.breaches.map Breach.position).map (p.1 :: ·) := by
          simp [breachesAt, h, Function.comp_def]
        rw [hposition]
        exact (ih p hp).map fun _ _ heq => (List.cons.inj heq).2
      · simp [breachesAt, h]
    · refine (List.pairwise_map.mp (nodup_slots t)).imp fun {p q} hne => ?_
      intro x hx hy
      exact hne (Option.some.inj ((hhead p x hx).symm.trans (hhead q x hy)))

end Tree

namespace Script

variable {α β : Type}

/-- A script of acts alone, which are the listed ones in some order. -/
def Performs (script : Script α) (as : List α) : Prop := ∃ done, script = acts done ∧ done.Perm as

theorem performs_nil : Performs ([] : Script α) [] := ⟨[], rfl, .nil⟩

theorem performs_act (a : α) : Performs [.act a] [a] := ⟨[a], rfl, .refl _⟩

theorem Performs.append {s t : Script α} {as bs : List α} (hs : s.Performs as) (ht : t.Performs bs) :
    Performs (s ++ t) (as ++ bs) := by
  obtain ⟨done, rfl, hdone⟩ := hs
  obtain ⟨more, rfl, hmore⟩ := ht
  exact ⟨done ++ more, (acts_append done more).symm, hdone.append hmore⟩

theorem performs_flatMap {f : β → Script α} {g : β → List α} {xs : List β}
    (h : ∀ x ∈ xs, (f x).Performs (g x)) : Performs (xs.flatMap f) (xs.flatMap g) := by
  induction xs with
  | nil => exact performs_nil
  | cons x xs ih =>
    rw [List.flatMap_cons, List.flatMap_cons]
    exact (h x List.mem_cons_self).append (ih fun y hy => h y (List.mem_cons_of_mem x hy))

theorem Performs.perm {s : Script α} {as bs : List α} (h : s.Performs as) (p : as.Perm bs) :
    s.Performs bs := by
  obtain ⟨done, rfl, hdone⟩ := h
  exact ⟨done, rfl, hdone.trans p⟩

end Script

namespace Tree

variable {t : Tree} {ts : List Tree}

theorem kind?_of_isOverfull (h : t.isOverfull = true) : t.kind? = some .tableRow := by
  cases t with
  | tableRow => rfl
  | misfit node =>
    cases node with
    | row => rfl
    | _ => cases h
  | _ => cases h

/-- Only places for rows look further than to the kind. -/
theorem admits_eq_any {slot : Slot} (h : Kind.tableRow ∉ slot.kinds) (t : Tree) :
    slot.admits t = t.kind?.any (slot.kinds.contains ·) := by
  rw [Slot.admits]
  cases hfull : t.isOverfull with
  | false => exact Bool.and_true _
  | true => simp [kind?_of_isOverfull hfull, h]

theorem admits_inline (slot : Slot) (h : slot.kinds = [.plain, .bold, .italic, .inlineMath]) (t : Tree) :
    slot.admits t = t.isInline := by
  rw [admits_eq_any (by simp [h]), isInline, h]
  congr 1
  funext k
  cases k <;> rfl

theorem admits_block (holder : Holder) (i : Nat) (t : Tree) :
    (Slot.block holder i).admits t = t.isBlock := by
  rw [admits_eq_any (by simp [Slot.kinds]), isBlock]
  congr 1
  funext k
  cases k <;> rfl

theorem admits_entry (i : Nat) (t : Tree) : (Slot.entry i).admits t = t.isPreambleEntry := by
  rw [admits_eq_any (by simp [Slot.kinds]), isPreambleEntry]
  congr 1
  funext k
  cases k <;> rfl

theorem admits_single (slot : Slot) {k : Kind} (h : slot.kinds = [k]) (hk : k ≠ .tableRow) (t : Tree) :
    slot.admits t = true ↔ t.kind? = some k := by
  rw [admits_eq_any (by simp [h, hk.symm]), h]
  cases t.kind? <;> simp

/-- What is reported of a child itself. -/
def ownReport (p : Slot × Tree) : Reports :=
  if p.1.admits p.2 then [] else [.act (p.1.violation p.2)]

/-- What is reported of what an admitted child holds. -/
def innerReports (p : Slot × Tree) : Reports := if p.1.admits p.2 then p.2.check else []

/-- A report on a child, or the walk over it. -/
def reportsAt (p : Slot × Tree) : Reports :=
  if p.1.admits p.2 then p.2.check else [.act (p.1.violation p.2)]

theorem reports_eq {slot : Nat → Slot} {violation? : Nat → Tree → Option Violation}
    (h : ∀ i t, violation? i t = if (slot i).admits t then none else some ((slot i).violation t))
    (ts : List Tree) : (reports violation? ts).flatten = (placed slot ts).flatMap ownReport := by
  rw [flatMap_placed, reports]
  congr 2
  funext i t
  rw [h, ownReport]
  split <;> rfl

theorem checkBlocks_eq (holder : Holder) (ts : List Tree) :
    checkBlocks ts = (placed (.block holder) ts).flatMap innerReports := by
  rw [checkBlocks_eq_flatten, flatMap_placed]
  congr 1
  apply List.ext_getElem <;> simp [innerReports, admits_block]

theorem checkInlines_eq (ts : List Tree) :
    (checkInlines 0 ts).flatten = (placed .inline ts).flatMap reportsAt := by
  rw [checkInlines_eq_mapIdx, flatMap_placed]
  congr 2
  funext i t
  rw [reportsAt, admits_inline _ rfl, Slot.violation, Nat.zero_add]

theorem wrapped_eq (wrapper : Kind) (t : Tree) :
    (if t.isInline then check t else [.act (.wrapsNoInline wrapper t.typeName)]) =
      [(Slot.wrapped wrapper, t)].flatMap reportsAt := by
  rw [List.flatMap_singleton, reportsAt, admits_inline _ rfl, Slot.violation]

theorem block_violation (holder : Holder) (i : Nat) (t : Tree) :
    blockViolation? holder i t =
      if (Slot.block holder i).admits t then none else some ((Slot.block holder i).violation t) := by
  rw [admits_block]
  rfl

theorem entry_violation (i : Nat) (t : Tree) :
    entryViolation? i t =
      if (Slot.entry i).admits t then none else some ((Slot.entry i).violation t) := by
  rw [admits_entry]
  rfl

theorem equation_violation (i : Nat) (t : Tree) :
    equationViolation? i t =
      if (Slot.equation i).admits t then none else some ((Slot.equation i).violation t) := by
  simp only [equationViolation?, admits_single (.equation i) rfl (by decide)]
  rfl

theorem item_violation (i : Nat) (t : Tree) :
    itemViolation? i t = if (Slot.item i).admits t then none else some ((Slot.item i).violation t) := by
  simp only [itemViolation?, admits_single (.item i) rfl (by decide)]
  rfl

theorem admits_row (i : Nat) (t : Tree) :
    (Slot.row i).admits t = (decide (t.kind? = some .tableRow) && !t.isOverfull) := by
  rw [Slot.admits]
  congr 1
  cases h : t.kind? <;> simp [Slot.kinds]

/-- A row of a table is reported if it is no row, or an overfull one. -/
theorem reportRow_eq (h : t.Walkable) (i : Nat) : reportRow i t = ownReport (.row i, t) := by
  have hother (hfull : t.isOverfull = false) (v : Violation) :
      (if t.kind? = some .tableRow then [] else [.act v]) =
        if (Slot.row i).admits t then ([] : Reports) else [.act v] := by
    rw [admits_row, hfull]
    by_cases hk : t.kind? = some .tableRow <;> simp [hk]
  cases t with
  | tableRow row =>
    rw [reportRow, rowViolation?, ownReport, admits_row]
    cases hn : row.columns with
    | none => simp [kind?, isOverfull, hn]
    | some n => by_cases hless : n < row.cells.length <;> simp [kind?, isOverfull, Slot.violation, hn, hless]
  | misfit node =>
    cases node with
    | row row =>
      obtain ⟨hsupply, hcolumns⟩ := h
      rw [reportRow, reportLooseRow, ownReport, admits_row, hsupply]
      by_cases hnone : row.columns = .none
      · simp [kind?, Misfit.kind, isOverfull, hnone]
      · obtain ⟨less, hless⟩ := hcolumns.resolve_left hnone
        cases less <;> simp [kind?, Misfit.kind, isOverfull, hnone, hless, Except.toOption, Slot.violation]
    | _ => exact hother rfl _
  | _ => exact hother rfl _

theorem kind?_of_admits {slot : Slot} (h : slot.admits t = true) :
    ∃ k ∈ slot.kinds, t.kind? = some k := by
  rw [Slot.admits, Bool.and_eq_true] at h
  cases hk : t.kind? with
  | none => simp [hk] at h
  | some k => exact ⟨k, by simpa [hk] using h.1, rfl⟩

theorem breaches_eq_nil_of_leaf {p : Slot × Tree} (admitted : p.1.admits p.2 = true)
    (leaf : ∀ k ∈ p.1.kinds, k.hasSlots = false) : p.2.breaches = [] := by
  obtain ⟨k, hk, hkind⟩ := kind?_of_admits admitted
  rw [breaches_eq, slots_eq_nil hkind (leaf k hk), List.flatMap_nil]

/-- The reports that a walk makes at a place, or under it. -/
def violationsAt (p : Slot × Tree) : List Violation := (breachesAt p).map Breach.report

theorem map_report_breaches (t : Tree) : t.breaches.map Breach.report = t.slots.flatMap violationsAt := by
  rw [breaches_eq, List.map_flatMap]
  rfl

theorem violationsAt_of_admits {p : Slot × Tree} (h : p.1.admits p.2 = true) :
    violationsAt p = p.2.breaches.map Breach.report := by
  simp [violationsAt, breachesAt, h, Function.comp_def]

theorem violationsAt_of_not_admits {p : Slot × Tree} (h : p.1.admits p.2 = false) :
    violationsAt p = [p.1.violation p.2] := by
  simp [violationsAt, breachesAt, h, Breach.report]

theorem ownReport_performs {p : Slot × Tree} (leaf : ∀ k ∈ p.1.kinds, k.hasSlots = false) :
    (ownReport p).Performs (violationsAt p) := by
  rw [ownReport]
  by_cases h : p.1.admits p.2 = true
  · rw [if_pos h, violationsAt_of_admits h, breaches_eq_nil_of_leaf h leaf]
    exact Script.performs_nil
  · rw [if_neg h, violationsAt_of_not_admits (by simpa using h)]
    exact Script.performs_act _

/-- The walk over an admitted child reports what is to be reported of it. -/
def Sound (p : Slot × Tree) : Prop :=
  p.1.admits p.2 = true → p.2.check.Performs (p.2.breaches.map Breach.report)

theorem reportsAt_performs {p : Slot × Tree} (sound : Sound p) :
    (reportsAt p).Performs (violationsAt p) := by
  rw [reportsAt]
  by_cases h : p.1.admits p.2 = true
  · rw [if_pos h, violationsAt_of_admits h]
    exact sound h
  · rw [if_neg h, violationsAt_of_not_admits (by simpa using h)]
    exact Script.performs_act _

/-- To report all children first and to walk over them then reports the same as to do both child by child. -/
theorem own_inner_performs {ps : List (Slot × Tree)} (sound : ∀ p ∈ ps, Sound p) :
    Script.Performs (ps.flatMap ownReport ++ ps.flatMap innerReports) (ps.flatMap violationsAt) := by
  let own (p : Slot × Tree) : List Violation := if p.1.admits p.2 then [] else [p.1.violation p.2]
  let inner (p : Slot × Tree) : List Violation :=
    if p.1.admits p.2 then p.2.breaches.map Breach.report else []
  have hown : ∀ p ∈ ps, (ownReport p).Performs (own p) := by
    intro p _
    by_cases h : p.1.admits p.2 = true
    · simpa [ownReport, own, h] using Script.performs_nil
    · simpa [ownReport, own, h] using Script.performs_act _
  have hinner : ∀ p ∈ ps, (innerReports p).Performs (inner p) := by
    intro p hp
    by_cases h : p.1.admits p.2 = true
    · simpa [innerReports, inner, h] using sound p hp h
    · simpa [innerReports, inner, h] using Script.performs_nil
  have hsplit : ∀ p : Slot × Tree, own p ++ inner p = violationsAt p := by
    intro p
    by_cases h : p.1.admits p.2 = true
    · simp [own, inner, h, violationsAt_of_admits]
    · simp [own, inner, h, violationsAt_of_not_admits]
  have hall := (Script.performs_flatMap hown).append (Script.performs_flatMap hinner)
  refine hall.perm ((List.flatMap_append_perm ps own inner).trans ?_)
  rw [funext hsplit]

/-- Children in places for kinds without children are only reported themselves. -/
theorem own_performs {slot : Nat → Slot} (leaf : ∀ i, ∀ k ∈ (slot i).kinds, k.hasSlots = false)
    (ts : List Tree) :
    Script.Performs ((placed slot ts).flatMap ownReport) ((placed slot ts).flatMap violationsAt) := by
  refine Script.performs_flatMap fun p hp => ownReport_performs ?_
  obtain ⟨i, hi, rfl⟩ := mem_placed.mp hp
  exact leaf i

theorem inline_performs {ps : List (Slot × Tree)} (sound : ∀ p ∈ ps, Sound p) :
    Script.Performs (ps.flatMap reportsAt) (ps.flatMap violationsAt) :=
  Script.performs_flatMap fun p hp => reportsAt_performs (sound p hp)

/-- The walk over the front of a document. -/
theorem front_eq (front : Tree) :
    (if front.kind? = some .preamble then check front else [.act (.notPreamble front.typeName)]) =
      reportsAt (.front, front) := by
  simp only [reportsAt, admits_single .front rfl (by decide), Slot.violation]

theorem flatten_reportRow {rows : List Tree} (h : ∀ row ∈ rows, row.Walkable) :
    (rows.mapIdx reportRow).flatten = (placed .row rows).flatMap ownReport := by
  rw [flatMap_placed]
  congr 1
  apply List.ext_getElem
  · simp
  · intro i hi _
    simp only [List.getElem_mapIdx]
    exact reportRow_eq (h _ (List.getElem_mem _)) i

theorem walkable_of_placed {slot : Nat → Slot} (h : ∀ p ∈ placed slot ts, p.2.Walkable) :
    ∀ s ∈ ts, s.Walkable := by
  intro s hs
  rw [← map_snd_placed slot ts] at hs
  obtain ⟨p, hp, rfl⟩ := List.mem_map.mp hs
  exact h p hp

/-- One node's part of the walk: what is reported of its children, or of what they hold. -/
theorem check_performs_of_slots (own : t.Walkable) (root : t.kind? ≠ none)
    (children : ∀ p ∈ t.slots, p.2.Walkable) (sound : ∀ p ∈ t.slots, Sound p) :
    t.check.Performs (t.slots.flatMap violationsAt) := by
  fun_induction slots t with
  | case1 content =>
    rw [check, wrapped_eq]
    exact inline_performs sound
  | case2 content =>
    rw [check, wrapped_eq]
    exact inline_performs sound
  | case3 supply content =>
    obtain rfl : supply = .listed := own
    rw [check, Supply.each_listed, List.append_nil, checkInlines_eq]
    exact inline_performs sound
  | case4 name supply elements =>
    obtain rfl : supply = .listed := own
    rw [check, Supply.each_listed, reports_eq (block_violation _), checkBlocks_eq]
    exact own_inner_performs sound
  | case5 title author supply elements =>
    obtain rfl : supply = .listed := own
    rw [check, Supply.each_listed, List.append_nil, reports_eq entry_violation]
    exact own_performs (by simp [Slot.kinds, Kind.hasSlots]) elements
  | case6 documentClass front supply elements =>
    obtain rfl : supply = .listed := own
    rw [check, Supply.each_listed, front_eq, reports_eq (block_violation _), checkBlocks_eq,
      List.flatMap_cons]
    obtain ⟨hfront, helements⟩ := List.forall_mem_cons.mp sound
    exact (reportsAt_performs hfront).append (own_inner_performs helements)
  | case7 supply equations =>
    obtain rfl : supply = .listed := own
    rw [check, Supply.each_listed, List.append_nil, reports_eq equation_violation]
    exact own_performs (by simp [Slot.kinds, Kind.hasSlots]) equations
  | case8 kind supply items argument =>
    obtain rfl : supply = .listed := own
    rw [check, Supply.each_listed, List.append_nil, reports_eq item_violation]
    exact own_performs (by simp [Slot.kinds, Kind.hasSlots]) items
  | case9 supply rows settings standard =>
    obtain rfl : supply = .listed := own
    rw [check, Supply.each_listed, List.append_nil, flatten_reportRow (walkable_of_placed children)]
    exact own_performs (by simp [Slot.kinds, Kind.hasSlots]) rows
  | case10 f node ih => exact ih own root children sound
  | case11 t =>
    have hnil : t.check = [] := by
      cases t with
      | foreign value => exact absurd rfl root
      | _ => grind [check]
    rw [hnil]
    exact Script.performs_nil

/-- The walk over a tree reports each breach once. -/
theorem check_performs (walkable : ∀ s ∈ t.occurrences, s.Walkable) (root : t.kind? ≠ none) :
    t.check.Performs (t.breaches.map Breach.report) := by
  induction t using slots_induction with
  | step t ih =>
    obtain ⟨own, inner⟩ := (forall_occurrences_iff t).mp walkable
    rw [map_report_breaches]
    refine check_performs_of_slots own root (fun p hp => inner p hp p.2 (self_mem_occurrences p.2)) ?_
    intro p hp admitted
    obtain ⟨k, _, hkind⟩ := kind?_of_admits admitted
    exact ih p hp (inner p hp) (by simp [hkind])

/-- Of a composed tree nothing is reported. -/
theorem validate_eq_start (walkable : ∀ s ∈ t.occurrences, s.Walkable) (root : t.kind? ≠ none)
    (composed : t.Composed) : t.validate false = .start [] := by
  obtain ⟨found, hfound, hperm⟩ := check_performs walkable root
  rw [(breaches_eq_nil_iff t).mpr composed, List.map_nil] at hperm
  rw [validate_of_acts hfound, hperm.eq_nil]

/-- A validation that collects its reports has one for each breach that lies under no other one, and no
others. It tells the position and the type of what was found, or the counts of the row. -/
theorem validate_breaches (walkable : ∀ s ∈ t.occurrences, s.Walkable) (root : t.kind? ≠ none) :
    ∃ breaches : List Breach,
      (∀ b, b ∈ breaches ↔ t.Breaks b) ∧ (breaches.map Breach.position).Nodup ∧
        (t.validate false).fault = none ∧ (t.validate false).state.Perm (breaches.map Breach.report) ∧
        (∀ b ∈ breaches, ∀ fact ∈ b.report.facts, Text.Tells b.report.message fact) ∧
        ((t.validate false).state = [] ↔ t.Composed) := by
  obtain ⟨found, hfound, hperm⟩ := check_performs walkable root
  have hvalidate := validate_of_acts hfound
  have hnil : (t.validate false).state = [] ↔ t.Composed := by
    rw [hvalidate, ← breaches_eq_nil_iff]
    constructor
    · rintro rfl
      exact List.map_eq_nil_iff.mp hperm.nil_eq.symm
    · intro hbreaches
      rw [hbreaches] at hperm
      exact hperm.eq_nil
  refine ⟨t.breaches, mem_breaches_iff t, nodup_positions t, ?_, ?_, ?_, hnil⟩
  · rw [hvalidate]
    rfl
  · rw [hvalidate]
    exact hperm
  · exact fun b _ => b.report.message_tells

theorem validate_breaches_overfull :
    let t := document (.standard .article) (foreign (.atom (.int 3))) .listed
      [table .listed [tableRow ⟨["a", "b"], some 1, false⟩] (.typed []) .standard,
        paragraph .listed [bold (plain "c"), item "d"]]
    (∀ s ∈ t.occurrences, s.Walkable) ∧ t.kind? ≠ none ∧
      (t.validate false).state =
        [.notPreamble "int", .tooManyCells 0 2 "1", .notInline 1 "Item"] ∧
      ∃ breaches : List Breach,
        (∀ b, b ∈ breaches ↔ t.Breaks b) ∧ (breaches.map Breach.position).Nodup ∧
          (t.validate false).fault = none ∧ (t.validate false).state.Perm (breaches.map Breach.report) ∧
          (∀ b ∈ breaches, ∀ fact ∈ b.report.facts, Text.Tells b.report.message fact) ∧
          ((t.validate false).state = [] ↔ t.Composed) := by
  intro t
  have hwalkable : ∀ s ∈ t.occurrences, s.Walkable := by
    have hleaf {u : Tree} (leaf : u.slots = []) (own : u.Walkable) : ∀ s ∈ u.occurrences, s.Walkable :=
      forall_occurrences_leaf leaf own
    have hbold : ∀ s ∈ (bold (plain "c")).occurrences, s.Walkable :=
      (forall_occurrences_iff _).mpr ⟨rfl, List.forall_mem_singleton.mpr (hleaf rfl rfl)⟩
    refine (forall_occurrences_iff t).mpr ⟨rfl, List.forall_mem_cons.mpr ⟨hleaf rfl rfl, ?_⟩⟩
    refine List.forall_mem_cons.mpr ⟨?_, List.forall_mem_singleton.mpr ?_⟩
    · exact (forall_occurrences_iff _).mpr ⟨rfl, List.forall_mem_singleton.mpr (hleaf rfl rfl)⟩
    · exact (forall_occurrences_iff _).mpr
        ⟨rfl, List.forall_mem_cons.mpr ⟨hbold, List.forall_mem_singleton.mpr (hleaf rfl rfl)⟩⟩
  have hroot : t.kind? ≠ none := by decide
  exact ⟨hwalkable, hroot, by decide, validate_breaches hwalkable hroot⟩

end Tree

end Manuscript
