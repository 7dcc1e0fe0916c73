import Manuscript.Proofs.Confinement
import Manuscript.Proofs.Merging
/-!
# Independence of merged documents

Copied elements share no cell with the ones that they are copies of, so whatever is done to the ones later on does
not show in the others.
-/
namespace Manuscript.Store

open Change

variable {s t u : Store} {a b l m r : Ref} {xs ys : List Value} {d : Nat} {v w : Value}

/-- Nothing that can be reached from one value can be reached from the other. -/
def Separate (s : Store) (v w : Value) : Prop := ∀ r ∈ s.reachable v, r ∉ s.reachable w

/-- The stores that come about when objects are edited that can be reached from some values. The calls and
assignments have arguments that can reach nothing of some other values, and so has whatever is made for them. -/
inductive Edited (edited spared : List Value) (s : Store) : Store → Prop
  | start : Edited edited spared s s
  | call {t : Store} (before : Edited edited spared s t) {r : Ref} (on : ∃ v ∈ edited, r ∈ t.reachable v)
      {c : Call} (arguments : ∀ x ∈ c.arguments, ∀ w ∈ spared, t.Separate x w) (notes : List Note) :
      Edited edited spared s ((Change.call (.ref r) c).runOn ⟨t, notes⟩).2.store
  | assign {t : Store} (before : Edited edited spared s t) {r : Ref} (on : ∃ v ∈ edited, r ∈ t.reachable v)
      (name : String) {new : Value} (argument : ∀ w ∈ spared, t.Separate new w) :
      Edited edited spared s (t.setField (.ref r) name new)
  | make {t : Store} (before : Edited edited spared s t) {c : Cell}
      (arguments : ∀ x ∈ c.values, ∀ w ∈ spared, t.Separate x w) : Edited edited spared s (t.alloc c).1

/-- A reference that can be reached from some values, or one that is still to be given out. -/
def Reached (s : Store) (vs : List Value) (r : Ref) : Prop :=
  (∃ v ∈ vs, r ∈ s.reachable v) ∨ s.cells.size ≤ r.index

theorem reached_in (s : Store) {vs : List Value} (hv : v ∈ vs) : v.In (s.Reached vs) := by
  rintro r rfl
  by_cases hr : r.index < s.cells.size
  · exact .inl ⟨_, hv, mem_reachable_self (Array.getElem?_eq_getElem hr)⟩
  · exact .inr (Nat.le_of_not_lt hr)

theorem confined_reached (s : Store) (vs : List Value) : s.Confined (s.Reached vs) where
  new _ hr := .inr hr
  closed r c hr hc w hw q hq := by
    subst hq
    by_cases hlt : q.index < s.cells.size
    · rcases hr with ⟨v, hv, hr⟩ | hr
      · exact .inl ⟨v, hv, closed_reachable s v r hr c hc q (mem_refs.mpr hw) _ (Array.getElem?_eq_getElem hlt)⟩
      · exact absurd (index_lt hc) (Nat.not_lt.mpr hr)
    · exact .inr (Nat.le_of_not_lt hlt)

/-- What holds after every edit: the edited values are still separate from the spared ones, and of these all cells
are as before. -/
structure Spares (edited spared : List Value) (s t : Store) : Prop where
  separate : ∀ v ∈ edited, ∀ w ∈ spared, t.Separate v w
  same : ∀ w ∈ spared, ∀ r ∈ s.reachable w, t.cell? r = s.cell? r
  size : s.cells.size ≤ t.cells.size

/-- A change within what the edited values and some arguments reach spares whatever is separate from them. -/
theorem Spares.step {edited spared arguments : List Value} (h : Spares edited spared s t)
    (ends : ∀ w ∈ spared, s.Ends w) (harguments : ∀ x ∈ arguments, ∀ w ∈ spared, t.Separate x w)
    (inside : t.Inside (t.Reached (edited ++ arguments)) u) : Spares edited spared s u := by
  have hfree (w : Value) (hw : w ∈ spared) (r : Ref) (hr : r ∈ t.reachable w) :
      ¬ t.Reached (edited ++ arguments) r := by
    rintro (⟨v, hv, hreach⟩ | hnew)
    · rcases List.mem_append.mp hv with hv | hv
      · exact h.separate v hv w hw r hreach hr
      · exact harguments v hv w hw r hreach hr
    · obtain ⟨c, hc⟩ := cell?_of_mem_reachable hr
      exact absurd (index_lt hc) (Nat.not_lt.mpr hnew)
  have hthere (w : Value) (hw : w ∈ spared) (r : Ref) (hr : r ∈ s.reachable w) : r ∈ t.reachable w := by
    obtain ⟨d, hd⟩ := ends w hw
    exact (hd.mem_reachable_congr (h.same w hw)).mpr hr
  have hsame (w : Value) (hw : w ∈ spared) (r : Ref) (hr : r ∈ s.reachable w) : u.cell? r = s.cell? r :=
    (inside.outside r (hfree w hw r (hthere w hw r hr))).trans (h.same w hw r hr)
  refine ⟨fun v hv w hw r hr hspared => ?_, hsame, Nat.le_trans h.size inside.size⟩
  obtain ⟨d, hd⟩ := ends w hw
  have hbefore : r ∈ t.reachable w := hthere w hw r ((hd.mem_reachable_congr (hsame w hw)).mp hspared)
  refine hfree w hw r hbefore (reachable_subset (reached_in t (List.mem_append_left _ hv)) ?_ r hr)
  exact fun p c hp hc q hq => inside.confined.closed p c hp hc _ (mem_refs.mp hq) q rfl

theorem Edited.spares {edited spared : List Value} (h : s.Edited edited spared t) (ends : ∀ w ∈ spared, s.Ends w)
    (separate : ∀ v ∈ edited, ∀ w ∈ spared, s.Separate v w) : Spares edited spared s t := by
  have hon {t : Store} {r : Ref} {arguments : List Value} (on : ∃ v ∈ edited, r ∈ t.reachable v) :
      (Value.ref r).In (t.Reached (edited ++ arguments)) := by
    obtain ⟨v, hv, hr⟩ := on
    exact Value.in_ref.mpr (.inl ⟨v, List.mem_append_left _ hv, hr⟩)
  induction h with
  | start => exact ⟨separate, fun _ _ _ _ => rfl, Nat.le_refl _⟩
  | @call t before r on c arguments notes ih =>
    have hc : ∀ x ∈ c.arguments, x.In (t.Reached (edited ++ c.arguments)) := fun x hx =>
      reached_in t (List.mem_append_right _ hx)
    exact ih.step ends arguments (stays_call (hon on) hc ⟨t, notes⟩ (confined_reached t _)).1
  | @assign t before r on name new argument ih =>
    have hnew : new.In (t.Reached (edited ++ [new])) := reached_in t (by simp)
    exact ih.step ends (by simpa using argument) ((confined_reached t _).setField (hon on) hnew)
  | @make t before c arguments ih =>
    exact ih.step ends arguments
      ((confined_reached t _).alloc fun x hx => reached_in t (List.mem_append_right _ hx)).1

/-- Trees of values that are separate from the edited ones stay as they are. -/
theorem Edited.trees {edited spared : List Value} (h : s.Edited edited spared t) (ends : ∀ w ∈ spared, s.Ends w)
    (separate : ∀ v ∈ edited, ∀ w ∈ spared, s.Separate v w) : spared.map t.tree = spared.map s.tree := by
  have hspares := h.spares ends separate
  refine List.map_congr_left fun w hw => ?_
  obtain ⟨d, hd⟩ := ends w hw
  exact hd.tree (hspares.same w hw) hspares.size

/-- What can be reached from some values is mirrored: each cell by one of its own, which holds the mirror images of
what the cell holds. -/
structure Mirrors (s t : Store) (f : Value → Value) (ys : List Value) : Prop where
  atoms : KeepsAtoms f
  cells : ∀ y ∈ ys, ∀ r ∈ s.reachable y, ∀ c, s.cell? r = some c →
    ∃ q, f (.ref r) = .ref q ∧ t.cell? q = some (c.mapValues f)
  injective : ∀ y ∈ ys, ∀ z ∈ ys, ∀ r ∈ s.reachable y, ∀ q ∈ s.reachable z, f (.ref r) = f (.ref q) → r = q

theorem twinIn_injective {q : Ref} (hr : r ∈ s.reachable v) (hq : q ∈ s.reachable v)
    (h : s.twinIn v (.ref r) = s.twinIn v (.ref q)) : r = q := by
  obtain ⟨i, hi, htwin⟩ := exists_twinIn_ref hr
  obtain ⟨j, hj, htwin'⟩ := exists_twinIn_ref hq
  rw [htwin, htwin'] at h
  obtain rfl : i = j := by simpa using h
  exact Option.some.inj (hi.symm.trans hj)

theorem mirrors_merged (hl : l.index < s.cells.size) (hm : s.cell? m = some (.sequence .list ys))
    (ends : s.Ends (.ref m)) (xs : List Value) : s.Mirrors (s.merged l m xs ys) (s.twinIn (.ref m)) ys where
  atoms := keepsAtoms_twinIn s _
  cells y hy r hr c hc := by
    obtain ⟨q, htwin, hnew, hcell⟩ := cell?_twinIn (reachable_element_subset hm ends hy r hr) hc
    refine ⟨q, htwin, (cell?_merged ?_).trans hcell⟩
    rintro rfl
    exact absurd hl (Nat.not_lt.mpr hnew)
  injective y hy z hz r hr q hq :=
    twinIn_injective (reachable_element_subset hm ends hy r hr) (reachable_element_subset hm ends hz q hq)

theorem separate_merged (ha : s.HoldsElements a l xs) (hm : s.cell? m = some (.sequence .list ys))
    (enda : s.Ends (.ref l)) (endb : s.Ends (.ref m)) (apart : ∀ y ∈ ys, l ∉ s.reachable y) :
    ∀ v ∈ ys.map (s.twinIn (.ref m)), ∀ w ∈ xs ++ ys, (s.merged l m xs ys).Separate v w := by
  intro v hv w hw r hr hreach
  obtain ⟨y, hy, rfl⟩ := List.mem_map.mp hv
  have hl := index_lt ha.list
  have hnew : s.cells.size ≤ r.index := by
    have hcopy := (endb.element hm hy).twin (reachable_element_subset hm endb hy)
    obtain ⟨d, hd⟩ := endb
    refine hd.size_le_of_mem_reachable_twin (fun q hq => ?_) r
      ((hcopy.mem_reachable_congr (cell?_merged_of_reachable_twin hm ⟨d, hd⟩ hy xs hl)).mp hr)
    exact hd.closed hd.self_mem hm (mem_refs.mpr (hq ▸ hy))
  have hold : r.index < s.cells.size := by
    have hends : s.EndsWithin s.depth w ∧ l ∉ s.reachable w := by
      rcases List.mem_append.mp hw with hw | hw
      · exact ⟨enda.element ha.list hw, not_mem_reachable_element enda ha.list hw⟩
      · exact ⟨endb.element hm hw, apart w hw⟩
    obtain ⟨c, hc⟩ := cell?_of_mem_reachable
      ((hends.1.mem_reachable_congr (cell?_merged_of_reachable hends.2)).mp hreach)
    exact index_lt hc
  exact absurd hold (Nat.not_lt.mpr hnew)

/-- Copied elements are independent of the ones that they are copies of, if the list that they are put into cannot
be reached from these: they share nothing with them or with the elements in front of them, and are put together of
shared cells in the same way. So later edits of the ones do not show in the trees of the others. -/
theorem pushAll_independent (ha : s.HoldsElements a l xs) (hb : s.HoldsElements b m ys) (enda : s.Ends (.ref l))
    (endb : s.Ends (.ref m)) (apart : ∀ y ∈ ys, l ∉ s.reachable y) (notes : List Note) :
    ∃ t copies, (Change.call (.ref a) (.pushAll (.ref b))).runOn ⟨s, notes⟩ = (.ok (.ref a), ⟨t, notes⟩) ∧
      t.HoldsElements a l (xs ++ copies) ∧
      (∀ v ∈ copies, ∀ w ∈ xs ++ ys, t.Separate v w) ∧
      (∃ f, copies = ys.map f ∧ s.Mirrors t f ys) ∧
      (∀ u, t.Edited ys copies u → copies.map u.tree = copies.map t.tree) ∧
      ∀ u, t.Edited copies ys u → ys.map u.tree = ys.map t.tree := by
  have hl := index_lt ha.list
  have hseparate := separate_merged ha hb.list enda endb apart
  have hcopies : ∀ v ∈ ys.map (s.twinIn (.ref m)), (s.merged l m xs ys).Ends v :=
    List.forall_mem_map.mpr fun y hy => ⟨_, endsWithin_merged_twin hb.list endb hy hl⟩
  have hys : ∀ y ∈ ys, (s.merged l m xs ys).Ends y := fun y hy =>
    ⟨_, (endb.element hb.list hy).transport (cell?_merged_of_reachable (apart y hy))⟩
  refine ⟨_, _, runOn_pushAll ha hb notes, ha.merged, hseparate, ⟨_, rfl, mirrors_merged hl hb.list endb xs⟩,
    fun u hu => hu.trees hcopies fun w hw v hv r hr hr' => ?_, fun u hu => hu.trees hys fun v hv w hw => ?_⟩
  · exact hseparate v hv w (List.mem_append_right _ hw) r hr' hr
  · exact hseparate v hv w (List.mem_append_right _ hw)

/-- Two documents with one list of elements. -/
theorem pushAll_independent_sharing :
    sharingList.HoldsElements ⟨4⟩ ⟨1⟩ [.ref ⟨0⟩] ∧ sharingList.HoldsElements ⟨5⟩ ⟨1⟩ [.ref ⟨0⟩] ∧
      sharingList.Ends (.ref ⟨1⟩) ∧ (∀ y ∈ [Value.ref ⟨0⟩], (⟨1⟩ : Ref) ∉ sharingList.reachable y) ∧
      ∃ t copies,
        (Change.call (.ref ⟨4⟩) (.pushAll (.ref ⟨5⟩))).runOn ⟨sharingList, []⟩ = (.ok (.ref ⟨4⟩), ⟨t, []⟩) ∧
        ∀ u, t.Edited copies [.ref ⟨0⟩] u → u.tree (.ref ⟨0⟩) = t.tree (.ref ⟨0⟩) := by
  have hfirst := sharingList_holds 4 (.inl rfl)
  have hsecond := sharingList_holds 5 (.inr rfl)
  have hapart : ∀ y ∈ [Value.ref ⟨0⟩], (⟨1⟩ : Ref) ∉ sharingList.reachable y := fun _ hy =>
    not_mem_reachable_element sharingList_ends hfirst.list hy
  obtain ⟨t, copies, hrun, -, -, -, -, hspared⟩ :=
    pushAll_independent hfirst hsecond sharingList_ends sharingList_ends hapart []
  exact ⟨hfirst, hsecond, sharingList_ends, hapart, t, copies, hrun, fun u hu => (List.cons.inj (hspared u hu)).1⟩

/-- Two documents, the last ones of the lists and objects, the first of which is the only element of the second. -/
def nestedDocuments : Store :=
  ⟨#[.sequence .list [], .object .preamble [("title", .none), ("author", .none), ("elements", .ref ⟨0⟩)],
    .sequence .list [],
    .object .document [("document_class", .text "book"), ("preamble", .ref ⟨1⟩), ("elements", .ref ⟨2⟩)],
    .sequence .list [.ref ⟨3⟩],
    .object .document [("document_class", .text "book"), ("preamble", .ref ⟨1⟩), ("elements", .ref ⟨4⟩)]], 0⟩

theorem HoldsElements.mem_reachable_element (h : s.HoldsElements a l xs) {c : Cell} (hx : .ref r ∈ xs)
    (hr : s.cell? r = some c) : r ∈ s.reachable (.ref a) := by
  obtain ⟨q, fields, hq, hcell⟩ := kind?_eq_some.mp h.kind
  obtain rfl := Value.ref.inj hq
  have helements : Cell.fieldIn fields "elements" = .ref l := by
    rw [← fieldIn_of_cell hcell, h.field]
    rfl
  have hlist := closed_reachable s (.ref a) a (mem_reachable_self hcell) _ hcell l
    (mem_refs_of_fieldIn helements) _ h.list
  exact closed_reachable s (.ref a) l hlist _ h.list r (mem_refs.mpr hx) c hr

theorem nestedDocuments_ends : nestedDocuments.EndsWithin 4 (.ref ⟨4⟩) := by
  have hlist (d : Nat) {r : Ref} (h : nestedDocuments.cell? r = some (.sequence .list [])) :
      nestedDocuments.EndsWithin (d + 1) (.ref r) := .ref h nofun
  have hpreamble : nestedDocuments.EndsWithin 2 (.ref ⟨1⟩) :=
    .ref (c := .object .preamble [("title", .none), ("author", .none), ("elements", .ref ⟨0⟩)]) rfl
      (by simpa [Cell.values] using ⟨.atom _ _, hlist 0 rfl⟩)
  have hfirst : nestedDocuments.EndsWithin 3 (.ref ⟨3⟩) :=
    .ref (c := .object .document [("document_class", .text "book"), ("preamble", .ref ⟨1⟩),
      ("elements", .ref ⟨2⟩)]) rfl (by simpa [Cell.values] using ⟨.atom _ _, hpreamble, hlist 1 rfl⟩)
  exact .ref (c := .sequence .list [.ref ⟨3⟩]) rfl (by simpa [Cell.values] using hfirst)

/-- The copy of a document that is put into the document itself can be reached from it. -/
theorem pushAll_nested :
    nestedDocuments.HoldsElements ⟨3⟩ ⟨2⟩ [] ∧ nestedDocuments.HoldsElements ⟨5⟩ ⟨4⟩ [.ref ⟨3⟩] ∧
      nestedDocuments.Ends (.ref ⟨2⟩) ∧ nestedDocuments.Ends (.ref ⟨4⟩) ∧
      ∃ t copy, (Change.call (.ref ⟨3⟩) (.pushAll (.ref ⟨5⟩))).runOn ⟨nestedDocuments, []⟩ =
          (.ok (.ref ⟨3⟩), ⟨t, []⟩) ∧
        t.HoldsElements ⟨3⟩ ⟨2⟩ [copy] ∧ ¬ t.Separate copy (.ref ⟨3⟩) := by
  have hfirst : nestedDocuments.HoldsElements ⟨3⟩ ⟨2⟩ [] := ⟨rfl, rfl, rfl⟩
  have hsecond : nestedDocuments.HoldsElements ⟨5⟩ ⟨4⟩ [.ref ⟨3⟩] := ⟨rfl, rfl, rfl⟩
  have hmerged : (nestedDocuments.merged ⟨2⟩ ⟨4⟩ [] [.ref ⟨3⟩]).HoldsElements ⟨3⟩ ⟨2⟩ _ := hfirst.merged
  refine ⟨hfirst, hsecond, ⟨1, .ref hfirst.list nofun⟩, ⟨4, nestedDocuments_ends⟩, _, _,
    runOn_pushAll hfirst hsecond [], hmerged, fun hseparate => ?_⟩
  have hcell : nestedDocuments.cell? ⟨3⟩ = some (.object .document [("document_class", .text "book"),
      ("preamble", .ref ⟨1⟩), ("elements", .ref ⟨2⟩)]) := rfl
  have hreach := reachable_element_subset hsecond.list ⟨4, nestedDocuments_ends⟩ (List.mem_singleton.mpr rfl)
    ⟨3⟩ (mem_reachable_self hcell)
  obtain ⟨q, htwin, hnew, hcopy⟩ := cell?_twinIn hreach hcell
  have hne : q ≠ ⟨2⟩ := by
    rintro rfl
    exact absurd hnew (by decide)
  have hq : (nestedDocuments.merged ⟨2⟩ ⟨4⟩ [] [.ref ⟨3⟩]).cell? q = _ := (cell?_merged hne).trans hcopy
  rw [htwin] at hseparate
  exact hseparate q (mem_reachable_self hq)
    (hmerged.mem_reachable_element (List.mem_singleton.mpr htwin.symm) hq)

end Manuscript.Store
