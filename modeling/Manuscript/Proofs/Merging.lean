import Manuscript.Proofs.Building
import Manuscript.Proofs.Reaching
import Manuscript.Proofs.WrittenText
/-!
# Merging documents

To copy the elements of one document behind those of another one is to concatenate what is written of them. All
else that is written of a document stands before its elements, or is its last line.
-/
namespace Manuscript

namespace Emission

variable {d : Emission}

/-- The text that an emission writes if all its pieces are taken. -/
def outcome (e : Emission) : Except Fault String := e.ending.elim (.ok (String.join e.pieces)) .error

theorem outcome_append (hd : d.Direct) (e : Emission) :
    outcome (d ++ e) = do return (← outcome d) ++ (← outcome e) := by
  unfold outcome
  rw [ending_append hd, pieces_append hd]
  cases hend : d.ending with
  | none => cases e.ending <;> simp <;> rfl
  | some f => rfl

end Emission

namespace Tree

open Emission

variable {o : Options} {documentClass : DocumentClass} {front : Tree} {ts us : List Tree}

/-- A document as it would be as a part. -/
def asPart : Tree → Tree
  | document _ front supply elements => document (.standard .part) front supply elements
  | t => t

/-- The text of the elements of a document, as a part is written. -/
def body (o : Options) (t : Tree) : Except Fault String := t.asPart.render o

/-- The elements of a document. -/
def elements : Tree → List Tree
  | document _ _ _ elements => elements
  | _ => []

/-- A document that is a part, with its elements in a list. -/
def IsPart : Tree → Prop
  | document documentClass _ supply _ => documentClass.isPart = true ∧ supply = .listed
  | _ => False

/-- The last line of a document that is no part. -/
def closing : String := "\\end\x7bdocument\x7d\n"

/-- A text with another one put in directly before the last line of a document. -/
def InsertedBeforeEnd (old inserted new : Except Fault String) : Prop :=
  ∃ opening : Except Fault String, old = (do return (← opening) ++ closing) ∧
    new = do return (← opening) ++ (← inserted) ++ closing

theorem direct_elements (h : ∀ t ∈ ts, t.OfNodes) : Direct (emitAll o ts).flatten := by
  rw [emitAll_eq_map]
  intro step hstep
  obtain ⟨e, he, hin⟩ := List.mem_flatten.mp hstep
  obtain ⟨t, ht, rfl⟩ := List.mem_map.mp he
  exact (emit_follows o (h t ht)).direct step hin

theorem outcome_elements_append (h : ∀ t ∈ ts, t.OfNodes) (us : List Tree) :
    outcome (emitAll o (ts ++ us)).flatten =
      do return (← outcome (emitAll o ts).flatten) ++ (← outcome (emitAll o us).flatten) := by
  rw [← outcome_append (direct_elements h), emitAll_eq_map, emitAll_eq_map, emitAll_eq_map, List.map_append,
    List.flatten_append]

theorem render_part (part : documentClass.isPart = true) (h : ∀ t ∈ ts, t.OfNodes) :
    render o (document documentClass front .listed ts) = outcome (emitAll o ts).flatten := by
  have hemit : emit o (document documentClass front .listed ts) =
      .act (.note (.document documentClass.name ts.length)) :: (emitAll o ts).flatten := by
    simp [emit, part]
  have hdirect : (emit o (document documentClass front .listed ts)).Direct := by
    rw [hemit]
    exact Direct.append (d := [_]) (by simp [Direct]) (direct_elements h)
  rw [render_direct hdirect, hemit]
  rfl

theorem body_document (h : ∀ t ∈ ts, t.OfNodes) :
    body o (document documentClass front .listed ts) = outcome (emitAll o ts).flatten :=
  render_part rfl h

/-- The body of a document does not depend on its class and its preamble, and that of a document with more
elements is longer by the body of one that has these alone. -/
theorem body_append {other third : DocumentClass} {front₂ front₃ : Tree} (ht : ∀ t ∈ ts, t.OfNodes)
    (hu : ∀ t ∈ us, t.OfNodes) :
    body o (document documentClass front .listed (ts ++ us)) =
      do return (← body o (document other front₂ .listed ts)) ++
        (← body o (document third front₃ .listed us)) := by
  rw [body_document (List.forall_mem_append.mpr ⟨ht, hu⟩), body_document ht, body_document hu,
    outcome_elements_append ht]

/-- Parts are written one after the other as one document with the elements of all. -/
theorem render_parts {ds : List Tree} (parts : ∀ d ∈ ds, d.IsPart) (h : ∀ t ∈ ds.flatMap elements, t.OfNodes) :
    (do return String.join (← ds.mapM (render o))) =
      body o (document documentClass front .listed (ds.flatMap elements)) := by
  rw [body_document h]
  induction ds with
  | nil => rfl
  | cons d ds ih =>
    rw [List.flatMap_cons] at h ⊢
    have ih := ih (fun e he => parts e (List.mem_cons_of_mem _ he)) fun t ht => h t (List.mem_append_right _ ht)
    have hfirst : render o d = outcome (emitAll o d.elements).flatten := by
      have hpart := parts d List.mem_cons_self
      cases d with
      | document c front supply ts =>
        obtain ⟨hpart, rfl⟩ := hpart
        exact render_part hpart fun t ht => h t (List.mem_append_left _ ht)
      | _ => exact hpart.elim
    rw [outcome_elements_append fun t ht => h t (List.mem_append_left _ ht), ← hfirst, ← ih, List.mapM_cons]
    cases render o d with
    | error f => rfl
    | ok text => cases ds.mapM (render o) <;> simp

/-- What stands before the elements of a document that is no part. -/
def head (o : Options) (documentClass : DocumentClass) (front : Tree) : Emission :=
  line (command "documentclass" documentClass.name) :: emit o front ++ [line (command "begin" "document")]

theorem direct_head (hfront : front.OfNodes) : (head o documentClass front).Direct := by
  refine Direct.append (Direct.append (d := [_]) ?_ (emit_follows o hfront).direct) ?_ <;>
    simp [Direct, line, write]

/-- What is written of a document that is no part: a head, the elements, the last line. -/
theorem render_whole (whole : documentClass.isPart = false) (hfront : front.OfNodes) (h : ∀ t ∈ ts, t.OfNodes) :
    render o (document documentClass front .listed ts) =
      do return (← (head o documentClass front).outcome) ++ (← outcome (emitAll o ts).flatten) ++ closing := by
  have hemit : emit o (document documentClass front .listed ts) =
      .act (.note (.document documentClass.name ts.length)) ::
        (head o documentClass front ++ ((emitAll o ts).flatten ++ [line (command "end" "document")])) := by
    simp [emit, whole, head, Marker.documentEnvironment]
  have hdirect : (emit o (document documentClass front .listed ts)).Direct := by
    rw [hemit]
    refine Direct.append (d := [_]) (by simp [Direct])
      ((direct_head hfront).append ((direct_elements h).append ?_))
    simp [Direct, line, write]
  have hlast : outcome [line (command "end" "document")] = .ok closing := rfl
  rw [render_direct hdirect, hemit]
  change outcome (head o documentClass front ++ _) = _
  rw [outcome_append (direct_head hfront), outcome_append (direct_elements h), hlast]
  cases (head o documentClass front).outcome with
  | error f => rfl
  | ok before => cases outcome (emitAll o ts).flatten <;> simp [← String.append_assoc] <;> rfl

/-- With more elements, a document that is no part is written with their body before its last line. -/
theorem render_inserted {other : DocumentClass} {front₂ : Tree} (whole : documentClass.isPart = false)
    (hfront : front.OfNodes) (ht : ∀ t ∈ ts, t.OfNodes) (hu : ∀ t ∈ us, t.OfNodes) :
    InsertedBeforeEnd (render o (document documentClass front .listed ts))
      (body o (document other front₂ .listed us))
      (render o (document documentClass front .listed (ts ++ us))) := by
  refine ⟨do return (← (head o documentClass front).outcome) ++ (← outcome (emitAll o ts).flatten), ?_, ?_⟩
  · rw [render_whole whole hfront ht]
    simp
  · rw [render_whole whole hfront (List.forall_mem_append.mpr ⟨ht, hu⟩), outcome_elements_append ht,
      body_document hu]
    simp [String.append_assoc]

end Tree

namespace Store

open Change

variable {s t : Store} {a b l m r : Ref} {xs ys : List Value} {d : Nat} {w y : Value}

/-- An object is a document with a list of elements. -/
structure HoldsElements (s : Store) (a l : Ref) (xs : List Value) : Prop where
  kind : s.kind? (.ref a) = some .document
  field : s.field? (.ref a) "elements" = some (.ref l)
  list : s.cell? l = some (.sequence .list xs)

/-- The store after copies of what one list holds have been put behind what another one holds. -/
def merged (s : Store) (l m : Ref) (xs ys : List Value) : Store :=
  (s.copy (.ref m)).1.put l (.sequence .list (xs ++ ys.map (s.twinIn (.ref m))))

/-- To copy the elements of one document behind those of another one changes the list of these only. -/
theorem runOn_pushAll (ha : s.HoldsElements a l xs) (hb : s.HoldsElements b m ys) (notes : List Note) :
    (call (.ref a) (.pushAll (.ref b))).runOn ⟨s, notes⟩ = (.ok (.ref a), ⟨s.merged l m xs ys, notes⟩) := by
  have hlist : s.list? (.ref l) = some xs := list?_eq_some.mpr ⟨l, rfl, ha.list⟩
  obtain ⟨q, hq, -, hcell⟩ := cell?_twinIn (v := .ref m) (mem_reachable_self hb.list) hb.list
  have hcopied : (s.copy (.ref m)).1.supply (.ref q) = (.listed, ys.map (s.twinIn (.ref m))) :=
    supply_of_list (list?_eq_some.mpr ⟨q, rfl, hcell⟩)
  have hold : (s.copy (.ref m)).1.cell? l = some (.sequence .list xs) :=
    (cell?_copy s _ l (index_lt ha.list)).trans ha.list
  have hkind : (call (.ref a) (.pushAll (.ref b))).runOn ⟨s, notes⟩ =
      (pushAll (.ref a) (.ref b)).runOn ⟨s, notes⟩ := by
    rw [call, runOn_bind_of_ok (runOn_look _ _), ha.kind]
  have hattribute : (attributeOf (.ref b) "elements").runOn ⟨s, notes⟩ = (.ok (.ref m), ⟨s, notes⟩) := by
    have hfield : s.attribute? (.ref b) "elements" = some (.ref m) := hb.field
    rw [attributeOf, runOn_bind_of_ok (runOn_look _ _), hfield]
    rfl
  have hmake : (make (·.copy (.ref m))).runOn ⟨s, notes⟩ = (.ok (.ref q), ⟨(s.copy (.ref m)).1, notes⟩) := by
    rw [← hq]
    rfl
  have hitems : (items (.ref q)).runOn ⟨(s.copy (.ref m)).1, notes⟩ =
      (.ok (ys.map (s.twinIn (.ref m))), ⟨(s.copy (.ref m)).1, notes⟩) := by
    rw [items, runOn_bind_of_ok (runOn_look _ _), hcopied]
    rfl
  rw [hkind, pushAll, field, runOn_bind_of_ok (runOn_look _ _), ha.field, Option.getD_some,
    runOn_bind_of_ok (runOn_requireList hlist _ _), runOn_bind_of_ok hattribute, runOn_bind_of_ok hmake,
    runOn_bind_of_ok hitems, Change.extend, runOn_bind_of_ok (runOn_alter _ _), Store.extend,
    setItems_of_cell hold]
  rfl

theorem cells_size_merged (s : Store) (l m : Ref) (xs ys : List Value) :
    (s.merged l m xs ys).cells.size = (s.copy (.ref m)).1.cells.size := by
  simp [merged, put]

theorem size_le_merged (s : Store) (l m : Ref) (xs ys : List Value) :
    s.cells.size ≤ (s.merged l m xs ys).cells.size := by
  rw [cells_size_merged]
  exact size_le_copy s _

theorem cell?_merged (h : r ≠ l) : (s.merged l m xs ys).cell? r = (s.copy (.ref m)).1.cell? r :=
  cell?_put_of_ne _ _ _ _ h

theorem cell?_merged_old (h : r ≠ l) (hr : r.index < s.cells.size) : (s.merged l m xs ys).cell? r = s.cell? r :=
  (cell?_merged h).trans (cell?_copy s _ r hr)

theorem cell?_merged_self (h : l.index < s.cells.size) :
    (s.merged l m xs ys).cell? l = some (.sequence .list (xs ++ ys.map (s.twinIn (.ref m)))) :=
  cell?_put_self _ _ _ (Nat.lt_of_lt_of_le h (size_le_copy s _))

/-- What cannot reach the list is as before. -/
theorem cell?_merged_of_reachable (h : l ∉ s.reachable w) :
    ∀ r ∈ s.reachable w, (s.merged l m xs ys).cell? r = s.cell? r := by
  intro r hr
  obtain ⟨c, hcell⟩ := cell?_of_mem_reachable hr
  refine cell?_merged_old ?_ (index_lt hcell)
  rintro rfl
  exact h hr

theorem HoldsElements.merged (ha : s.HoldsElements a l xs) :
    (s.merged l m xs ys).HoldsElements a l (xs ++ ys.map (s.twinIn (.ref m))) := by
  obtain ⟨q, fields, hq, hcell⟩ := kind?_eq_some.mp ha.kind
  obtain rfl := Value.ref.inj hq
  have hsame : (s.merged l m xs ys).cell? a = s.cell? a :=
    cell?_merged_old (object_ne_list hcell ha.list) (index_lt hcell)
  refine ⟨?_, ?_, cell?_merged_self (index_lt ha.list)⟩
  · exact kind?_eq_some.mpr ⟨a, fields, rfl, hsame.trans hcell⟩
  · have hfield := ha.field
    simp only [field?, target?, Value.ref?, Option.bind_some, hsame, hcell] at hfield ⊢
    exact hfield

/-- An element of a list is of no use in reaching the list. -/
theorem not_mem_reachable_element (h : s.Ends (.ref l)) (hl : s.cell? l = some (.sequence .list xs))
    (hw : w ∈ xs) : l ∉ s.reachable w := by
  obtain ⟨d, hd⟩ := h
  exact hd.not_mem_reachable hl hw

theorem Ends.element (h : s.Ends (.ref l)) (hl : s.cell? l = some (.sequence .list xs)) (hw : w ∈ xs) :
    s.EndsWithin s.depth w := by
  obtain ⟨d, hd⟩ := h
  exact (hd.mono (Nat.le_succ d)).of_mem_values hl hw |>.depth

section Copies

variable (hm : s.cell? m = some (.sequence .list ys)) (ends : s.Ends (.ref m))
  (hy : y ∈ ys)

include hm ends hy in
theorem reachable_element_subset : ∀ r ∈ s.reachable y, r ∈ s.reachable (.ref m) := by
  obtain ⟨d, hd⟩ := ends
  exact hd.reachable_subset_of_mem_values hm hy

include hm ends hy in
/-- All that can be reached from a copied element is new, and not the list that the copies are put into. -/
theorem cell?_merged_of_reachable_twin (xs : List Value) (hl : l.index < s.cells.size) :
    ∀ r ∈ (s.copy (.ref m)).1.reachable (s.twinIn (.ref m) y),
      (s.merged l m xs ys).cell? r = (s.copy (.ref m)).1.cell? r := by
  intro r hr
  obtain ⟨d, hd⟩ := ends
  have hnew : s.cells.size ≤ r.index := by
    refine hd.size_le_of_mem_reachable_twin (fun q hq => ?_) r hr
    exact hd.closed hd.self_mem hm (mem_refs.mpr (hq ▸ hy))
  refine cell?_merged ?_
  rintro rfl
  exact absurd hl (Nat.not_lt.mpr hnew)

include hm ends hy in
theorem endsWithin_merged_twin (hl : l.index < s.cells.size) :
    (s.merged l m xs ys).EndsWithin s.depth (s.twinIn (.ref m) y) :=
  ((ends.element hm hy).twin (reachable_element_subset hm ends hy)).transport
    (cell?_merged_of_reachable_twin hm ends hy xs hl)

include hm ends hy in
theorem tree_merged_twin (xs : List Value) (hl : l.index < s.cells.size) (lasting : s.Lasting (.ref m)) :
    (s.merged l m xs ys).tree (s.twinIn (.ref m) y) = s.tree y ∧
      (s.merged l m xs ys).datum (s.twinIn (.ref m) y) = s.datum y := by
  have hsub := reachable_element_subset hm ends hy
  have hlasting : s.Lasting y := lasting.of_mem_values hm (mem_reachable_self hm) hsub hy
  have hends := ends.element hm hy
  have hcopy := hends.twin hsub
  have hsame := cell?_merged_of_reachable_twin hm ends hy xs hl
  have hsize : (s.copy (.ref m)).1.cells.size ≤ (s.merged l m xs ys).cells.size :=
    Nat.le_of_eq (cells_size_merged s l m xs ys).symm
  exact ⟨(hcopy.tree hsame hsize).trans (hends.tree_twin hsub hlasting),
    (hcopy.datum hsame hsize).trans (hends.datum_twin hsub hlasting)⟩

end Copies

/-- The tree of a document: its class, the tree of its preamble, and those of its elements. -/
theorem tree_document (h : s.HoldsElements a l xs) (ends : s.Ends (.ref l)) :
    s.tree (.ref a) = .document (s.documentClassOf ((s.field? (.ref a) "document_class").getD .none))
      (s.treeTo s.depth ((s.field? (.ref a) "preamble").getD .none)) .listed (xs.map s.tree) := by
  obtain ⟨q, fields, hq, hcell⟩ := kind?_eq_some.mp h.kind
  obtain rfl := Value.ref.inj hq
  have htarget : s.target? (.ref a) = some (.object .document fields) := hcell
  have hfield (name : String) : s.field? (.ref a) name = fields.lookup name := by
    simp only [field?, htarget]
  have helements := h.field
  have hsupply : s.supply (.ref l) = (.listed, xs) := supply_of_list (list?_eq_some.mpr ⟨l, rfl, h.list⟩)
  have htrees : xs.map (s.treeTo s.depth) = xs.map s.tree := by
    refine List.map_congr_left fun x hx => ?_
    have hends := ends.element h.list hx
    exact ((hends.carried fun _ _ => rfl).treeTo keepsAtoms_id (Nat.le_refl _) (Nat.le_refl _)
      (Nat.le_succ _) (Nat.le_refl _))
  rw [hfield] at helements
  rw [hfield, hfield, ← htrees]
  simp only [tree, treeTo, htarget, Kind.isNode, if_true, node, helements, Option.getD_some, hsupply]

/-- Chains from a value end, and none of them leads to a list. -/
def Apart (s : Store) (l : Ref) (w : Value) : Prop := s.Ends w ∧ l ∉ s.reachable w

theorem Apart.carried (h : s.Apart l w) : s.Carried (s.merged l m xs ys) id s.depth w := by
  obtain ⟨⟨d, hd⟩, hl⟩ := h
  exact hd.depth.carried (cell?_merged_of_reachable hl)

theorem Ends.apart_element (h : s.Ends (.ref l)) (hl : s.cell? l = some (.sequence .list xs)) (hw : w ∈ xs) :
    s.Apart l w :=
  ⟨⟨_, h.element hl hw⟩, not_mem_reachable_element h hl hw⟩

/-- A document has got copies behind its elements, and all else that there was is as before, unless the list of
these elements can be reached from it. -/
structure Merges (s t : Store) (a l : Ref) (xs ys copies : List Value) : Prop where
  elements : t.HoldsElements a l (xs ++ copies)
  object : t.cell? a = s.cell? a
  others : ∀ r, r ≠ l → r.index < s.cells.size → t.cell? r = s.cell? r
  apart : ∀ w, s.Apart l w → t.datum w = s.datum w ∧ t.tree w = s.tree w
  old : xs.map t.datum = xs.map s.datum ∧ xs.map t.tree = xs.map s.tree
  new : copies.map t.datum = ys.map s.datum ∧ copies.map t.tree = ys.map s.tree

theorem merges_merged (ha : s.HoldsElements a l xs) (hm : s.cell? m = some (.sequence .list ys))
    (enda : s.Ends (.ref l)) (endb : s.Ends (.ref m)) (lasting : s.Lasting (.ref m)) :
    s.Merges (s.merged l m xs ys) a l xs ys (ys.map (s.twinIn (.ref m))) := by
  have hl := index_lt ha.list
  have hsize := size_le_merged s l m xs ys
  have hapart (w : Value) (hw : s.Apart l w) : (s.merged l m xs ys).datum w = s.datum w ∧
      (s.merged l m xs ys).tree w = s.tree w :=
    ⟨hw.carried.datum (Nat.le_refl _) hsize, hw.carried.tree keepsAtoms_id (Nat.le_refl _) hsize⟩
  have hold (w : Value) (hw : w ∈ xs) := hapart w (enda.apart_element ha.list hw)
  have hnew (y : Value) (hy : y ∈ ys) := tree_merged_twin hm endb hy xs hl lasting
  obtain ⟨q, fields, hq, hcell⟩ := kind?_eq_some.mp ha.kind
  obtain rfl := Value.ref.inj hq
  refine ⟨ha.merged, cell?_merged_old (object_ne_list hcell ha.list) (index_lt hcell),
    fun r hr hlt => cell?_merged_old hr hlt, hapart, ?_, ?_⟩
  · exact ⟨List.map_congr_left fun w hw => (hold w hw).1, List.map_congr_left fun w hw => (hold w hw).2⟩
  · rw [List.map_map, List.map_map]
    exact ⟨List.map_congr_left fun y hy => (hnew y hy).2, List.map_congr_left fun y hy => (hnew y hy).1⟩

theorem ends_merged (hl : s.cell? l = some (.sequence .list xs)) (hm : s.cell? m = some (.sequence .list ys))
    (enda : s.Ends (.ref l)) (endb : s.Ends (.ref m)) : (s.merged l m xs ys).Ends (.ref l) := by
  refine ⟨s.depth + 1, .ref (cell?_merged_self (index_lt hl)) fun w hw => ?_⟩
  rcases List.mem_append.mp hw with hw | hw
  · exact (enda.element hl hw).transport (cell?_merged_of_reachable (not_mem_reachable_element enda hl hw))
  · obtain ⟨y, hy, rfl⟩ := List.mem_map.mp hw
    exact endsWithin_merged_twin hm endb hy (index_lt hl)

/-- The class and the preamble of a document, as they are merged into its tree. -/
theorem tree_merged (ha : s.HoldsElements a l xs) (hm : s.cell? m = some (.sequence .list ys))
    (enda : s.Ends (.ref l)) (endb : s.Ends (.ref m)) (lasting : s.Lasting (.ref m)) :
    ∃ documentClass front, (s.merged l m xs ys).tree (.ref a) =
        .document documentClass front .listed (xs.map s.tree ++ ys.map s.tree) ∧
      ((∀ name ∈ ["document_class", "preamble"], ∀ w, s.field? (.ref a) name = some w → s.Apart l w) →
        s.tree (.ref a) = .document documentClass front .listed (xs.map s.tree)) := by
  have hmerges := merges_merged ha hm enda endb lasting
  have htree := tree_document hmerges.elements (ends_merged ha.list hm enda endb)
  rw [List.map_append, hmerges.old.2, hmerges.new.2] at htree
  refine ⟨_, _, htree, fun hapart => ?_⟩
  have hfield (name : String) : (s.merged l m xs ys).field? (.ref a) name = s.field? (.ref a) name := by
    simp only [field?, target?, Value.ref?, Option.bind_some, hmerges.object]
  have hcarried (name : String) (hname : name ∈ ["document_class", "preamble"]) :
      s.Carried (s.merged l m xs ys) id s.depth ((s.field? (.ref a) name).getD .none) := by
    cases hvalue : s.field? (.ref a) name with
    | none => exact .atom _ rfl
    | some w => exact (hapart name hname w hvalue).carried
  have hsize := size_le_merged s l m xs ys
  have hclass := (hcarried "document_class" (by simp)).documentClassOf (Nat.le_refl _) hsize
  have hfront := (hcarried "preamble" (by simp)).treeTo keepsAtoms_id (Nat.le_refl _) hsize (Nat.le_refl _) hsize
  rw [tree_document ha enda, hfield, hfield, ← hclass, ← hfront]
  rfl

/-- To copy the elements of one document behind those of another one, or of the same, is to concatenate what is
written of them. A document that is no part is written as before, with the new text before its last line. And a
document is written piece by piece as parts that share its elements out. -/
theorem pushAll_concatenates (ha : s.HoldsElements a l xs) (hb : s.HoldsElements b m ys) (enda : s.Ends (.ref l))
    (endb : s.Ends (.ref m)) (lasting : s.Lasting (.ref m)) (nodes : ∀ w ∈ xs ++ ys, (s.tree w).OfNodes)
    (notes : List Note) :
    ∃ t copies, (call (.ref a) (.pushAll (.ref b))).runOn ⟨s, notes⟩ = (.ok (.ref a), ⟨t, notes⟩) ∧
      s.Merges t a l xs ys copies ∧
      ∀ o : Options,
        (t.tree (.ref a)).body o =
          (do return (← (s.tree (.ref a)).body o) ++ (← (s.tree (.ref b)).body o)) ∧
        (∀ documentClass front ts, s.tree (.ref a) = .document documentClass front .listed ts →
          documentClass.isPart = false → front.OfNodes →
          (∀ name ∈ ["document_class", "preamble"], ∀ w, s.field? (.ref a) name = some w → s.Apart l w) →
          Tree.InsertedBeforeEnd ((s.tree (.ref a)).render o) ((s.tree (.ref b)).body o)
            ((t.tree (.ref a)).render o)) ∧
        ∀ parts : List Tree, (∀ p ∈ parts, p.IsPart) → parts.flatMap Tree.elements = (s.tree (.ref a)).elements →
          (do return String.join (← parts.mapM (Tree.render o))) = (s.tree (.ref a)).body o := by
  obtain ⟨documentClass, front, hafter, hbefore⟩ := tree_merged ha hb.list enda endb lasting
  have ha' := tree_document ha enda
  have hb' := tree_document hb endb
  have hxs : ∀ t ∈ xs.map s.tree, t.OfNodes :=
    List.forall_mem_map.mpr fun w hw => nodes w (List.mem_append_left _ hw)
  have hys : ∀ t ∈ ys.map s.tree, t.OfNodes :=
    List.forall_mem_map.mpr fun w hw => nodes w (List.mem_append_right _ hw)
  refine ⟨_, _, runOn_pushAll ha hb notes, merges_merged ha hb.list enda endb lasting, fun o => ⟨?_, ?_, ?_⟩⟩
  · rw [hafter, ha', hb']
    exact Tree.body_append hxs hys
  · intro c f ts htree hwhole hfront hapart
    obtain ⟨rfl, rfl, -, -⟩ := Tree.document.inj (htree.symm.trans (hbefore hapart))
    rw [hafter, hbefore hapart, hb']
    exact Tree.render_inserted hwhole hfront hxs hys
  · intro parts hparts helements
    have htrees : parts.flatMap Tree.elements = xs.map s.tree := helements.trans (congrArg Tree.elements ha')
    rw [ha', ← htrees]
    exact Tree.render_parts hparts fun t ht => hxs t (htrees ▸ ht)

/-- Two documents, the last ones of these objects, whose elements are in one list. -/
def sharingList : Store :=
  ⟨#[.object .clearPage [], .sequence .list [.ref ⟨0⟩], .sequence .list [],
    .object .preamble [("title", .none), ("author", .none), ("elements", .ref ⟨2⟩)],
    .object .document [("document_class", .text "book"), ("preamble", .ref ⟨3⟩), ("elements", .ref ⟨1⟩)],
    .object .document [("document_class", .text "book"), ("preamble", .ref ⟨3⟩), ("elements", .ref ⟨1⟩)]], 0⟩

theorem sharingList_holds (i : Nat) (h : i = 4 ∨ i = 5) : sharingList.HoldsElements ⟨i⟩ ⟨1⟩ [.ref ⟨0⟩] := by
  rcases h with rfl | rfl <;> exact ⟨rfl, rfl, rfl⟩

theorem sharingList_ends : sharingList.Ends (.ref ⟨1⟩) := by
  refine ⟨2, .ref (c := .sequence .list [.ref ⟨0⟩]) rfl fun w hw => ?_⟩
  obtain rfl := List.mem_singleton.mp hw
  exact .ref (c := .object .clearPage []) rfl nofun

theorem sharingList_lasting : sharingList.Lasting (.ref ⟨1⟩) := by
  refine lasting_of_cells nofun fun c hc => ?_
  simp only [sharingList, List.mem_cons, List.not_mem_nil, or_false] at hc
  rcases hc with rfl | rfl | rfl | rfl | rfl | rfl <;> simp [Cell.isIterator, Cell.values, Value.none, Value.text]

theorem sharingList_nodes : ∀ w ∈ [Value.ref ⟨0⟩], (sharingList.tree w).OfNodes := by
  intro w hw
  obtain rfl := List.mem_singleton.mp hw
  exact .clearPage

/-- A document merged with itself. -/
theorem pushAll_concatenates_self :
    sharingList.HoldsElements ⟨4⟩ ⟨1⟩ [.ref ⟨0⟩] ∧ sharingList.Ends (.ref ⟨1⟩) ∧ sharingList.Lasting (.ref ⟨1⟩) ∧
      (∀ w ∈ [Value.ref ⟨0⟩] ++ [.ref ⟨0⟩], (sharingList.tree w).OfNodes) ∧
      ∃ t copies, (call (.ref ⟨4⟩) (.pushAll (.ref ⟨4⟩))).runOn ⟨sharingList, []⟩ = (.ok (.ref ⟨4⟩), ⟨t, []⟩) ∧
        sharingList.Merges t ⟨4⟩ ⟨1⟩ [.ref ⟨0⟩] [.ref ⟨0⟩] copies := by
  have hholds := sharingList_holds 4 (.inl rfl)
  have hnodes := List.forall_mem_append.mpr ⟨sharingList_nodes, sharingList_nodes⟩
  obtain ⟨t, copies, hrun, hmerges, -⟩ := pushAll_concatenates hholds hholds sharingList_ends sharingList_ends
    sharingList_lasting hnodes []
  exact ⟨hholds, sharingList_ends, sharingList_lasting, hnodes, t, copies, hrun, hmerges⟩

/-- A document that shares its list of elements with another one changes with it. -/
theorem pushAll_changes_sharing :
    sharingList.HoldsElements ⟨4⟩ ⟨1⟩ [.ref ⟨0⟩] ∧ sharingList.HoldsElements ⟨5⟩ ⟨1⟩ [.ref ⟨0⟩] ∧
      (∀ w ∈ [Value.ref ⟨0⟩], (sharingList.tree w).OfNodes) ∧
      ∃ t, (call (.ref ⟨4⟩) (.pushAll (.ref ⟨5⟩))).runOn ⟨sharingList, []⟩ = (.ok (.ref ⟨4⟩), ⟨t, []⟩) ∧
        t.tree (.ref ⟨5⟩) ≠ sharingList.tree (.ref ⟨5⟩) := by
  have hfirst := sharingList_holds 4 (.inl rfl)
  have hsecond := sharingList_holds 5 (.inr rfl)
  refine ⟨hfirst, hsecond, sharingList_nodes, _, runOn_pushAll hfirst hsecond [], fun heq => ?_⟩
  have hafter := tree_document hsecond.merged
    (ends_merged hfirst.list hsecond.list sharingList_ends sharingList_ends)
  rw [heq, tree_document hsecond sharingList_ends] at hafter
  have hlength := congrArg (fun t => t.elements.length) hafter
  simp [Tree.elements] at hlength

end Store

end Manuscript
