import Manuscript.Proofs.Counting
import Manuscript.Visit
/-!
# Visits in document order

All visitors go one way: every node of a tree once, each before its children, the preamble of a document
before its elements. What a visitor leaves as its trace is what its own methods record of the nodes on that
way, so the traces of different visitors, and the statistics of the tree, can be compared with one another.
-/
namespace Manuscript

namespace Tree

/-- The node that a walk finds. -/
def walked : Tree → Tree
  | blocked _ node => node.walked
  | t => t

def isSection (t : Tree) : Bool := t.kind? == some .sectioning

/-- Whether a node is of a kind that has no children. -/
def isLeaf (t : Tree) : Bool := t.kind?.any fun k => !k.hasSlots

/-- A node whose children are in a list. -/
def Visitable : Tree → Prop
  | foreign _ => False
  | misfit _ => True
  | blocked _ node => node.Visitable
  | t => t.supply = .listed

theorem Countable.visitable {t : Tree} (h : t.Countable) : t.Visitable := by
  fun_induction Visitable t with
  | case1 => exact h
  | case2 => trivial
  | case3 f node ih => exact ih h
  | case4 t => cases t <;> first | exact h | grind

end Tree

/-- A slot in the elements of a document or a section. -/
def Slot.isBlock : Slot → Bool
  | block _ _ => true
  | _ => false

/-- A node in a tree, the nodes above it from the root on, and the slot that it stands in. The root stands in
none. -/
structure Descent where
  above : List Tree
  slot : Option Slot
  node : Tree

namespace Descent

/-- Whether the node is a child of a document or a section. -/
def isElement (d : Descent) : Bool := d.slot.any Slot.isBlock

/-- Whether there is no section above the node. -/
def isOutside (d : Descent) : Bool := d.above.all (!·.isSection)

end Descent

namespace Tree

/-- The nodes of a tree in document order, itself before its children. -/
def descentsFrom (above : List Tree) (slot : Option Slot) (t : Tree) : List Descent :=
  ⟨above, slot, t⟩ :: t.slots.attach.flatMap fun p => descentsFrom (above ++ [t]) (some p.1.1) p.1.2
  termination_by sizeOf t
  decreasing_by exact sizeOf_of_mem_slots p.2

def descents (t : Tree) : List Descent := t.descentsFrom [] none

end Tree

namespace Visitor

/-- What a visitor records of a node by the method for its kind. -/
def noted (v : Visitor) (t : Tree) : List Datum :=
  match t.kind? with
  | some .sectioning => v.atSection t.walked
  | some .plain => v.atPlain t.walked
  | some k => if k.hasSlots then [] else v.atLeaf t.walked
  | _ => []

/-- What a visitor records of a node on its way, if it comes to it. -/
def recorded (v : Visitor) (d : Descent) : List Datum :=
  if v.entersSections || d.isOutside then
    (if d.isElement then v.atElement d.node else []) ++ v.noted d.node
  else []

end Visitor

namespace Tree

variable {t : Tree} (v : Visitor)

theorem descentsFrom_eq (above : List Tree) (slot : Option Slot) (t : Tree) :
    t.descentsFrom above slot =
      ⟨above, slot, t⟩ :: t.slots.flatMap fun p => p.2.descentsFrom (above ++ [t]) (some p.1) := by
  rw [descentsFrom, List.flatMap_def, List.flatMap_def,
    List.attach_map_val (f := fun p : Slot × Tree => p.2.descentsFrom (above ++ [t]) (some p.1))]

/-- The nodes on the way are all that occurs in the tree. -/
theorem map_node_descentsFrom (above : List Tree) (slot : Option Slot) (t : Tree) :
    (t.descentsFrom above slot).map Descent.node = t.occurrences := by
  induction t using slots_induction generalizing above slot with
  | step t ih =>
    rw [descentsFrom_eq, occurrences_eq, List.map_cons, List.map_flatMap]
    congr 1
    exact List.flatMap_congr fun p hp => ih p hp _ _

theorem map_node_descents (t : Tree) : t.descents.map Descent.node = t.occurrences :=
  map_node_descentsFrom [] none t

theorem visitAll_eq_map (ts : List Tree) : visitAll v ts = ts.map (visit v) := by
  induction ts with
  | nil => rfl
  | cons t ts ih => rw [visitAll, ih, List.map_cons]

theorem visitElements_eq_map (ts : List Tree) :
    visitElements v ts = ts.map fun t => Script.acts (v.atElement t) ++ visit v t := by
  induction ts with
  | nil => rfl
  | cons t ts ih => rw [visitElements, ih, List.map_cons]

/-- The walk over a child, by the route that its slot asks for. -/
def visitAt (p : Slot × Tree) : Script Datum :=
  Script.acts (if p.1.isBlock then v.atElement p.2 else []) ++ p.2.visit v

theorem visitAt_other {p : Slot × Tree} (h : p.1.isBlock = false) : visitAt v p = p.2.visit v := by
  simp [visitAt, h, Script.acts]

theorem visitAll_placed (slot : Nat → Slot) (other : ∀ i, (slot i).isBlock = false) (ts : List Tree) :
    Supply.listed.each (visitAll v ts) [] = (placed slot ts).flatMap (visitAt v) := by
  have hat : (placed slot ts).flatMap (visitAt v) = (placed slot ts).flatMap fun p => p.2.visit v := by
    refine List.flatMap_congr fun p hp => visitAt_other v ?_
    obtain ⟨i, _, rfl⟩ := mem_placed.mp hp
    exact other i
  rw [hat, flatMap_placed_snd, Supply.each_listed, List.append_nil, visitAll_eq_map]

theorem visitElements_placed (holder : Holder) (ts : List Tree) :
    Supply.listed.each (visitElements v ts) [] = (placed (.block holder) ts).flatMap (visitAt v) := by
  have hat : (placed (.block holder) ts).flatMap (visitAt v) =
      (placed (.block holder) ts).flatMap fun p => Script.acts (v.atElement p.2) ++ p.2.visit v := by
    refine List.flatMap_congr fun p hp => ?_
    obtain ⟨i, _, rfl⟩ := mem_placed.mp hp
    rfl
  rw [hat, flatMap_placed_snd (f := fun t => Script.acts (v.atElement t) ++ t.visit v), Supply.each_listed,
    List.append_nil, visitElements_eq_map]

/-- Of a node with children that is no section nothing is recorded, and all visitors go down from it. -/
theorem visit_eq_of_holder {k : Kind} (hk : t.kind? = some k) (holds : k.hasSlots = true)
    (other : k ≠ .sectioning) (h : t.visit v = t.slots.flatMap (visitAt v)) :
    t.visit v = Script.acts (v.noted t) ++
      if v.entersSections || !t.isSection then t.slots.flatMap (visitAt v) else [] := by
  have hnoted : v.noted t = [] := by
    rw [Visitor.noted, hk]
    cases k <;> simp_all [Kind.hasSlots]
  have hsection : t.isSection = false := by simp [isSection, hk, other]
  simp [h, hnoted, hsection, Script.acts]

/-- The walk over a node: what is recorded of it, and then its children, if the visitor goes down to them. -/
theorem visit_eq (h : t.Visitable) :
    t.visit v = Script.acts (v.noted t) ++
      if v.entersSections || !t.isSection then t.slots.flatMap (visitAt v) else [] := by
  fun_induction slots t with
  | case1 content | case2 content =>
    refine visit_eq_of_holder v rfl rfl (by decide) ?_
    rw [slots, List.flatMap_singleton, visitAt_other v rfl]
    rfl
  | case3 supply content =>
    obtain rfl : supply = .listed := h
    exact visit_eq_of_holder v rfl rfl (by decide) (visitAll_placed v .inline (fun _ => rfl) content)
  | case4 name supply elements =>
    obtain rfl : supply = .listed := h
    rw [visit, visitElements_placed v (.sectioning name.literal)]
    simp [Visitor.noted, kind?, isSection, walked]
  | case5 title author supply elements =>
    obtain rfl : supply = .listed := h
    exact visit_eq_of_holder v rfl rfl (by decide) (visitAll_placed v .entry (fun _ => rfl) elements)
  | case6 documentClass front supply elements =>
    obtain rfl : supply = .listed := h
    refine visit_eq_of_holder v rfl rfl (by decide) ?_
    rw [visit, slots, List.flatMap_cons, visitElements_placed v .document, visitAt_other v rfl]
  | case7 supply equations =>
    obtain rfl : supply = .listed := h
    exact visit_eq_of_holder v rfl rfl (by decide) (visitAll_placed v .equation (fun _ => rfl) equations)
  | case8 kind supply items argument =>
    obtain rfl : supply = .listed := h
    exact visit_eq_of_holder v rfl rfl (by decide) (visitAll_placed v .item (fun _ => rfl) items)
  | case9 supply rows settings standard =>
    obtain rfl : supply = .listed := h
    exact visit_eq_of_holder v rfl rfl (by decide) (visitAll_placed v .row (fun _ => rfl) rows)
  | case10 f node ih => exact ih h
  | case11 t =>
    cases t with
    | foreign value => exact h.elim
    | misfit node =>
      cases node <;> simp [visit, Visitor.noted, kind?, Misfit.kind, isSection, Kind.hasSlots, walked]
    | _ => first
      | grind
      | simp [visit, Visitor.noted, kind?, isSection, Kind.hasSlots, walked]

/-- Below a section nothing is recorded by a visitor that does not go down into sections. -/
theorem recorded_below (hv : v.entersSections = false) {above : List Tree} (h : above.any isSection)
    (slot : Option Slot) (t : Tree) : (t.descentsFrom above slot).flatMap v.recorded = [] := by
  induction t using slots_induction generalizing above slot with
  | step t ih =>
    have hself : v.recorded ⟨above, slot, t⟩ = [] := by
      obtain ⟨s, hs, hsection⟩ := List.any_eq_true.mp h
      have houtside : Descent.isOutside ⟨above, slot, t⟩ = false :=
        List.all_eq_false.mpr ⟨s, hs, by simp [hsection]⟩
      simp [Visitor.recorded, hv, houtside]
    rw [descentsFrom_eq, List.flatMap_cons, hself, List.nil_append, List.flatMap_assoc]
    refine List.flatMap_eq_nil_iff.mpr fun p hp => ih p hp ?_ _
    rw [List.any_append, h, Bool.true_or]

/-- A walk that comes to a node records of it, and of what stands under it, what the visitor's own methods
record of them one after the other. -/
theorem visit_descentsFrom (h : ∀ s ∈ t.occurrences, s.Visitable) {above : List Tree}
    (comes : v.entersSections || above.all (!·.isSection)) (slot : Option Slot) :
    Script.acts (if slot.any Slot.isBlock then v.atElement t else []) ++ t.visit v =
      Script.acts ((t.descentsFrom above slot).flatMap v.recorded) := by
  induction t using slots_induction generalizing above slot with
  | step t ih =>
    obtain ⟨own, inner⟩ := (forall_occurrences_iff t).mp h
    let below (p : Slot × Tree) := (p.2.descentsFrom (above ++ [t]) (some p.1)).flatMap v.recorded
    have hself : v.recorded ⟨above, slot, t⟩ =
        (if slot.any Slot.isBlock then v.atElement t else []) ++ v.noted t := by
      rw [Visitor.recorded, if_pos (by exact comes)]
      rfl
    have hbelow : (if v.entersSections || !t.isSection then t.slots.flatMap (visitAt v) else []) =
        Script.acts (t.slots.flatMap below) := by
      split
      · rename_i hgoes
        have hcomes : (v.entersSections || (above ++ [t]).all (!·.isSection)) = true := by
          simp only [List.all_append, List.all_cons, List.all_nil, Bool.and_true]
          grind
        rw [Script.acts, List.map_flatMap]
        exact List.flatMap_congr fun p hp => ih p hp (inner p hp) hcomes (some p.1)
      · rename_i hstops
        obtain ⟨hv, hsection⟩ : v.entersSections = false ∧ t.isSection = true := by simpa using hstops
        rw [List.flatMap_eq_nil_iff.mpr fun p _ => recorded_below v hv (by simp [hsection]) _ _]
        rfl
    rw [visit_eq v own, hbelow, descentsFrom_eq, List.flatMap_cons, hself, List.flatMap_assoc,
      Script.acts_append, Script.acts_append, List.append_assoc]

/-- The trace of a visitor is what its own methods record on the way through the tree. -/
theorem traced_eq (h : ∀ s ∈ t.occurrences, s.Visitable) :
    t.traced v = .start (t.descents.flatMap v.recorded) := by
  have hvisit : t.visit v = Script.acts (t.descents.flatMap v.recorded) :=
    visit_descentsFrom v h (by simp) none
  rw [traced, hvisit, Script.fold_acts, List.foldl_append_eq_append (f := fun d => [d]), List.nil_append,
    ← List.flatMap_def, List.flatMap_singleton']

/-- A visitor that has no method for children and goes everywhere records of what occurs in the tree, each
node once. -/
theorem traced_of_noted (h : ∀ s ∈ t.occurrences, s.Visitable) (goes : v.entersSections = true)
    (plain : v.atElement = fun _ => []) : t.traced v = .start (t.occurrences.flatMap v.noted) := by
  have hrecorded (d : Descent) : v.recorded d = v.noted d.node := by simp [Visitor.recorded, goes, plain]
  rw [traced_eq v h, ← map_node_descents, List.flatMap_map, funext hrecorded]

theorem flatMap_filter {α β : Type} (p : α → Bool) (f : α → List β) (as : List α) :
    (as.filter p).flatMap f = as.flatMap fun a => if p a then f a else [] := by
  induction as with
  | nil => rfl
  | cons a as ih => by_cases h : p a <;> simp [h, ih]

/-- A visitor that goes everywhere and has methods for nodes without children alone. -/
theorem traced_leaves (h : ∀ s ∈ t.occurrences, s.Visitable) (note : Tree → List Datum) :
    t.traced { atLeaf := note } = .start ((t.occurrences.filter isLeaf).flatMap fun s => note s.walked) := by
  have hnoted (s : Tree) :
      ({ atLeaf := note } : Visitor).noted s = if s.isLeaf then note s.walked else [] := by
    unfold Visitor.noted isLeaf
    cases s.kind? with
    | none => rfl
    | some k => cases k <;> rfl
  rw [traced_of_noted _ h rfl rfl, funext hnoted, flatMap_filter]

/-- A visitor that goes everywhere and has a method for the children of documents and sections alone. -/
theorem traced_elements (h : ∀ s ∈ t.occurrences, s.Visitable) (note : Tree → List Datum) :
    t.traced { atElement := note } =
      .start ((t.descents.filter Descent.isElement).flatMap fun d => note d.node) := by
  have hnoted (s : Tree) : ({ atElement := note } : Visitor).noted s = [] := by
    unfold Visitor.noted
    split <;> simp
  have hrecorded (d : Descent) :
      ({ atElement := note } : Visitor).recorded d = if d.isElement then note d.node else [] := by
    simp [Visitor.recorded, hnoted]
  rw [traced_eq _ h, funext hrecorded, flatMap_filter]

/-- A visitor that does not go down into sections, with a method for nodes without children and one for
sections. -/
theorem traced_outside (h : ∀ s ∈ t.occurrences, s.Visitable) (leaf heading : Tree → List Datum) :
    t.traced { atLeaf := leaf, atSection := heading, entersSections := false } =
      .start ((t.descents.filter Descent.isOutside).flatMap fun d =>
        if d.node.isLeaf then leaf d.node.walked
        else if d.node.isSection then heading d.node.walked else []) := by
  have hnoted (s : Tree) :
      ({ atLeaf := leaf, atSection := heading, entersSections := false } : Visitor).noted s =
        if s.isLeaf then leaf s.walked else if s.isSection then heading s.walked else [] := by
    unfold Visitor.noted isLeaf isSection
    cases s.kind? with
    | none => rfl
    | some k => cases k <;> rfl
  have hrecorded (d : Descent) :
      ({ atLeaf := leaf, atSection := heading, entersSections := false } : Visitor).recorded d =
        if d.isOutside then
          (if d.node.isLeaf then leaf d.node.walked
          else if d.node.isSection then heading d.node.walked else [])
        else [] := by
    simp [Visitor.recorded, hnoted]
  rw [traced_eq _ h, funext hrecorded, flatMap_filter]

theorem noted_sections (t : Tree) : Visitor.sections.noted t = t.sectionName?.toList := by
  fun_induction sectionName? t with
  | case1 => rfl
  | case2 f node ih => exact ih
  | case3 t =>
    cases t with
    | misfit node => cases node <;> rfl
    | _ => first | rfl | grind

theorem traced_sections (h : ∀ s ∈ t.occurrences, s.Visitable) :
    t.traced .sections = .start t.sectionNames := by
  have hnames : t.occurrences.flatMap Visitor.sections.noted = t.sectionNames := by
    rw [funext noted_sections, sectionNames]
    exact (List.filterMap_eq_flatMap_toList _ _).symm
  rw [traced_of_noted _ h rfl rfl, hnames]

theorem noted_plainTexts (h : t.Countable) :
    (Visitor.plainTexts.noted t).map Datum.asText? = t.plainText?.toList.map some := by
  fun_induction plainText? t with
  | case1 => rfl
  | case2 value =>
    obtain ⟨text, htext⟩ := h
    simp [htext, Visitor.noted, Visitor.plainTexts, kind?, Misfit.kind, walked, plainNote]
  | case3 f node ih => exact ih h
  | case4 t =>
    cases t with
    | misfit node => cases node <;> first | rfl | grind
    | _ => first | rfl | grind

theorem map_asText?_traced_plainTexts (h : ∀ s ∈ t.occurrences, s.Countable) :
    ∃ found, t.traced .plainTexts = .start found ∧
      found.map Datum.asText? = (t.occurrences.filterMap plainText?).map some := by
  refine ⟨_, traced_of_noted _ (fun s hs => (h s hs).visitable) rfl rfl, ?_⟩
  rw [List.map_flatMap, List.filterMap_eq_flatMap_toList, List.map_flatMap]
  exact List.flatMap_congr fun s hs => noted_plainTexts (h s hs)

/-- Every node is visited once, in the order in which the nodes occur. A visitor with methods for the nodes
without children sees these alone, one for the children of documents and sections sees each of them on the way
down to it, and one that does not go down into sections sees what no section stands above. Where the statistics
of a tree can be taken, the names of sections and the texts that visitors find are those of the statistics. -/
theorem traces_agree (h : ∀ s ∈ t.occurrences, s.Visitable) (note heading : Tree → List Datum) :
    t.descents.map Descent.node = t.occurrences ∧
      t.traced { atLeaf := note } =
        .start ((t.occurrences.filter isLeaf).flatMap fun s => note s.walked) ∧
      t.traced { atElement := note } =
        .start ((t.descents.filter Descent.isElement).flatMap fun d => note d.node) ∧
      (∀ reports : Bool,
        t.traced { atLeaf := note, atSection := if reports then heading else fun _ => [],
                   entersSections := false } =
          .start ((t.descents.filter fun d =>
              d.isOutside && (d.node.isLeaf || reports && d.node.isSection)).flatMap fun d =>
            if d.node.isSection then heading d.node.walked else note d.node.walked)) ∧
      ((∀ s ∈ t.occurrences, s.Countable) →
        t.traced .sections = .start (Statistics.ofTree t).state.sectionNames ∧
          ∃ (found : List Datum) (texts : List String), t.traced .plainTexts = .start found ∧
            found.map Datum.asText? = texts.map some ∧
            (texts.map fun text => (Text.words text).length).sum = (Statistics.ofTree t).state.words) := by
  refine ⟨map_node_descents t, traced_leaves h note, traced_elements h note, fun reports => ?_,
    fun hcount => ?_⟩
  · rw [traced_outside h, flatMap_filter, flatMap_filter]
    refine congrArg Progress.start (List.flatMap_congr fun d _ => ?_)
    have hkind : ¬ (d.node.isLeaf = true ∧ d.node.isSection = true) := by
      unfold isLeaf isSection
      cases d.node.kind? with
      | none => simp
      | some k => cases k <;> simp [Kind.hasSlots]
    cases reports <;> grind
  · obtain ⟨types, _, hstate⟩ := ofTree_eq hcount
    obtain ⟨found, htrace, htexts⟩ := map_asText?_traced_plainTexts hcount
    rw [hstate]
    exact ⟨traced_sections h, found, _, htrace, htexts, (Nat.zero_add _).symm⟩

theorem traces_agree_nested :
    let t := document (.standard .article) (preamble none none .listed [preambleLine "%"]) .listed
      [paragraph .listed [bold (plain "in front")],
        sectioning (.text "One") .listed
          [paragraph .listed [plain "two words"], sectioning (.text "Two") .listed []]]
    (∀ s ∈ t.occurrences, s.Visitable) ∧ (∀ s ∈ t.occurrences, s.Countable) ∧
      (t.traced .leaves).state = [.text "PreambleUserDefined", .text "Plain", .text "Plain"] ∧
      (t.traced .elements).state =
        [.text "Paragraph", .text "Section", .text "Paragraph", .text "Section"] ∧
      (t.traced .outside).state = [.text "PreambleUserDefined", .text "Plain", .text "Section"] ∧
      t.traced .sections = .start (Statistics.ofTree t).state.sectionNames := by
  intro t
  have hleaf {u : Tree} (leaf : u.slots = []) (own : u.Countable) : ∀ s ∈ u.occurrences, s.Countable :=
    forall_occurrences_leaf leaf own
  have hone {u : Tree} {q : Slot × Tree} (only : u.slots = [q]) (own : u.Countable)
      (h : ∀ s ∈ q.2.occurrences, s.Countable) : ∀ s ∈ u.occurrences, s.Countable := by
    rw [forall_occurrences_iff, only]
    exact ⟨own, List.forall_mem_singleton.mpr h⟩
  have hcountable : ∀ s ∈ t.occurrences, s.Countable := by
    refine (forall_occurrences_iff t).mpr ⟨rfl, List.forall_mem_cons.mpr ⟨?_, List.forall_mem_cons.mpr ⟨?_, ?_⟩⟩⟩
    · exact hone rfl rfl (hleaf rfl rfl)
    · exact hone rfl rfl (hone rfl rfl (hleaf rfl rfl))
    · refine List.forall_mem_singleton.mpr
        ((forall_occurrences_iff _).mpr ⟨rfl, List.forall_mem_cons.mpr ⟨?_, ?_⟩⟩)
      · exact hone rfl rfl (hleaf rfl rfl)
      · exact List.forall_mem_singleton.mpr (hleaf rfl rfl)
  have hvisitable : ∀ s ∈ t.occurrences, s.Visitable := fun s hs => (hcountable s hs).visitable
  obtain ⟨_, _, _, _, hstatistics⟩ := traces_agree hvisitable typeNote typeNote
  exact ⟨hvisitable, hcountable, rfl, rfl, rfl, (hstatistics hcountable).1⟩

end Tree

end Manuscript
