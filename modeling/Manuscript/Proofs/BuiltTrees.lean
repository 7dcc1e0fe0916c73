import Mathlib.Data.Set.List
import Mathlib.Logic.Relation
import Manuscript.Proofs.Built
import Manuscript.Proofs.Composition
/-!
# Built trees are valid

The tree of a node is read from the store object by object. If objects fit, the places of every node admit
what stands there, and so a validation finds nothing in any node of a built store.
-/
namespace Manuscript

open Cell (fieldIn)

namespace Store

/-- What an object contains: what it wraps or has in front, and the items of its list. -/
def contents (s : Store) (kind : Kind) (field : String → Value) : List Value :=
  (match kind with
    | .bold | .italic => [field "content"]
    | .document => [field "preamble"]
    | _ => []) ++
  match kind.listField? with
  | some name => (s.list? (field name)).getD []
  | none => []

/-- One object contains another one. -/
def Contains (s : Store) (q r : Ref) : Prop :=
  ∃ kind fields, s.cell? q = some (.object kind fields) ∧ .ref r ∈ s.contents kind (fieldIn fields)

/-- No object contains itself, at any depth. -/
def Acyclic (s : Store) : Prop := ∀ r, ¬ Relation.TransGen s.Contains r r

end Store

namespace Tree

/-- A tree of a kind that may stand wherever its kind is admitted, with nothing to report in it. -/
structure Proper (t : Tree) (k : Kind) : Prop where
  kind : t.kind? = some k
  filled : t.isOverfull = false
  walkable : ∀ s ∈ t.occurrences, s.Walkable
  composed : t.Composed

theorem Proper.admits {t : Tree} {k : Kind} (h : t.Proper k) {slot : Slot} (hk : k ∈ slot.kinds) :
    slot.admits t = true := by
  rw [Slot.admits, h.kind, h.filled]
  simpa using hk

theorem proper_of_slots {t : Tree} {k : Kind} (kind : t.kind? = some k) (filled : t.isOverfull = false)
    (own : t.Walkable) (slots : ∀ p ∈ t.slots, ∃ k ∈ p.1.kinds, p.2.Proper k) : t.Proper k := by
  refine ⟨kind, filled, (forall_occurrences_iff t).mpr ⟨own, fun p hp => ?_⟩,
    (forall_occurrences_iff t).mpr ⟨fun p hp => ?_, fun p hp => ?_⟩⟩
  · obtain ⟨_, _, hproper⟩ := slots p hp
    exact hproper.walkable
  · obtain ⟨_, hk, hproper⟩ := slots p hp
    exact hproper.admits hk
  · obtain ⟨_, _, hproper⟩ := slots p hp
    exact hproper.composed

theorem isOverfull_eq_false {t : Tree} (h : t.kind? ≠ some .tableRow) : t.isOverfull = false := by
  cases hfull : t.isOverfull with
  | false => rfl
  | true => exact absurd (kind?_of_isOverfull hfull) h

end Tree

namespace Store

variable {s : Store} {kind : Kind} {field : String → Value} {child : Value → Tree}

theorem kind?_withText (v : Value) (use : TextUse) {node : String → Tree} {k : Kind}
    (h : ∀ text, (node text).kind? = some k) : (s.withText v use node).kind? = some k := by
  unfold withText
  split
  · exact h _
  · exact h ""

theorem kind?_rowOf (cells columns skip : Value) : (s.rowOf cells columns skip).kind? = some .tableRow := by
  unfold rowOf
  dsimp only
  split <;> rfl

/-- The tree of an object is of its kind. -/
theorem kind?_node (h : kind.isNode = true) (field : String → Value) (child : Value → Tree) :
    (s.node kind field child).kind? = some kind := by
  cases kind with
  | plain =>
    simp only [node]
    split <;> rfl
  | environment =>
    simp only [node, environmentOf]
    split <;> rfl
  | userDefined | preambleLine | equation => exact kind?_withText _ _ fun _ => rfl
  | newCommand | list =>
    simp only [node]
    split <;> rfl
  | tableRow => exact kind?_rowOf _ _ _
  | horizontalRule | columnSettings | typedSettings | rawSettings | baseOptions | latexOptions => cases h
  | _ => rfl

theorem compared_of_asInt? {a : Atom} {n : Int} (h : a.asInt? = some n) (m : Int) :
    a.compared .less (.int m) = .ok (decide (n < m)) := by
  cases a with
  | int i =>
    obtain rfl := Option.some.inj h
    exact Atom.compared_less_int i m
  | bool b =>
    obtain rfl := Option.some.inj h
    exact Atom.compared_less_int _ m
  | _ => cases h

theorem exists_texts {items : List Value} (h : ∀ v ∈ items, ∃ text, v = .text text) :
    ∃ texts : List String, texts.map Value.text = items := by
  have hrange : items ∈ Set.range (List.map Value.text) := by
    rw [Set.range_list_map]
    intro v hv
    obtain ⟨text, rfl⟩ := h v hv
    exact ⟨text, rfl⟩
  exact hrange

/-- A row that records enough columns is walkable, and not overfull. -/
theorem rowOf_filled {cells columns : Value} (skip : Value) {items : List Value} (hcells : s.list? cells = some items)
    (written : ∀ v ∈ items, ∃ text, v = .text text)
    (counted : columns = .none ∨ ∃ n : Int, columns.asInt? = some n ∧ items.length ≤ n) :
    (s.rowOf cells columns skip).Walkable ∧ (s.rowOf cells columns skip).isOverfull = false := by
  obtain ⟨texts, rfl⟩ := exists_texts written
  have hpieces : (texts.map Value.text).map s.pieceOf = texts.map Piece.text := by
    rw [List.map_map]
    rfl
  have hall : allTexts? (texts.map Piece.text) = some texts := by
    rw [allTexts?, Piece.texts_map_text]
    rfl
  rw [List.length_map] at counted
  simp only [rowOf, supply_of_list hcells, hpieces, hall]
  rcases counted with rfl | ⟨n, hn, hle⟩
  · exact ⟨rfl, rfl⟩
  · cases columns with
    | ref q => cases hn
    | atom a =>
      have hnot : decide (n < texts.length) = false := by simpa using hle
      cases a with
      | int i =>
        obtain rfl := Option.some.inj hn
        exact ⟨rfl, by simpa [Tree.isOverfull] using hle⟩
      | bool b =>
        have hdatum : s.datum (.atom (.bool b)) = .atom (.bool b) := by
          rw [datum]
          cases s.depth <;> rfl
        have hcompared : (Datum.atom (.bool b)).compared .less (.int texts.length) = .ok false := by
          rw [← hnot]
          exact compared_of_asInt? (show (Atom.bool b).asInt? = some n from hn) texts.length
        refine ⟨⟨rfl, .inr ⟨false, ?_⟩⟩, ?_⟩
        · rw [hdatum, List.length_map]
          exact hcompared
        · simp only [Tree.isOverfull, hdatum, List.length_map, hcompared]
          simp [Except.toOption]
      | _ => cases hn

theorem isNode_of_mayHold {k : Kind} (h : kind.mayHold k = true) : k.isNode = true := by
  have hinline : k.isInline = true → k.isNode = true := by cases k <;> decide
  have hblock : k.isBlock = true → k.isNode = true := by cases k <;> decide
  have hentry : k.isPreambleEntry = true → k.isNode = true := by cases k <;> decide
  cases kind with
  | paragraph => exact hinline h
  | sectioning | document => exact hblock h
  | preamble => exact hentry h
  | align | list | table =>
    obtain rfl := eq_of_beq h
    rfl
  | _ => cases h

/-- What an object holds gives proper trees for the places of a list. -/
theorem exists_placed (fits : s.Fits kind field)
    (hchild : ∀ v ∈ s.contents kind field, ∀ k, s.kind? v = some k → k.isNode = true → (child v).Proper k)
    (slot : Nat → Slot) {name : String} (hname : kind.listField? = some name) (hrow : kind ≠ .tableRow)
    (kinds : ∀ k, kind.mayHold k = true → ∀ i, k ∈ (slot i).kinds) :
    ∃ items, s.supply (field name) = (.listed, items) ∧
      ∀ p ∈ Tree.placed slot (items.map child), ∃ k ∈ p.1.kinds, p.2.Proper k := by
  obtain ⟨items, hitems, hmay⟩ := fits.listed name hname
  refine ⟨items, supply_of_list hitems, fun p hp => ?_⟩
  obtain ⟨i, hi, rfl⟩ := Tree.mem_placed.mp hp
  have hlt : i < items.length := by simpa using hi
  have hmem : items[i] ∈ items := List.getElem_mem hlt
  have hcontents : items[i] ∈ s.contents kind field := by
    simp only [contents, hname, hitems, Option.getD_some]
    exact List.mem_append_right _ hmem
  have hheld := hmay _ hmem
  rw [mayHold_eq_any hrow] at hheld
  obtain ⟨k, hk, hmayk⟩ := (Option.any_eq_true _ _).mp hheld
  have hproper := hchild _ hcontents k hk (isNode_of_mayHold hmayk)
  exact ⟨k, kinds k hmayk i, by simpa using hproper⟩

theorem mem_inline {k : Kind} (h : k.isInline = true) : k ∈ [Kind.plain, .bold, .italic, .inlineMath] := by
  cases k <;> first | decide | cases h

theorem mem_block {k : Kind} (h : k.isBlock = true) (holder : Holder) (i : Nat) :
    k ∈ (Slot.block holder i).kinds := by
  cases k <;> first | (simp [Slot.kinds]; done) | cases h

theorem mem_entry {k : Kind} (h : k.isPreambleEntry = true) (i : Nat) : k ∈ (Slot.entry i).kinds := by
  cases k <;> first | (simp [Slot.kinds]; done) | cases h

theorem walkable_of_leaf {t : Tree} {k : Kind} (h : t.kind? = some k) (leaf : k.hasSlots = false)
    (hrow : k ≠ .tableRow) : t.Walkable := by
  fun_induction Tree.Walkable t with
  | case1 f node ih => exact ih h
  | case2 row =>
    cases h
    exact absurd rfl hrow
  | case3 t hblocked hloose =>
    cases t with
    | blocked f node => exact absurd rfl (hblocked f node)
    | misfit node =>
      cases node with
      | row row => exact absurd rfl (hloose row)
      | _ => rfl
    | _ => first | rfl | (cases h; cases leaf)

/-- The places of a node are for the kinds of what the object contains. -/
theorem slots_node (h : kind.isNode = true) (fits : s.Fits kind field)
    (hchild : ∀ v ∈ s.contents kind field, ∀ k, s.kind? v = some k → k.isNode = true → (child v).Proper k) :
    (s.node kind field child).Walkable ∧
      ∀ p ∈ (s.node kind field child).slots, ∃ k ∈ p.1.kinds, p.2.Proper k := by
  have hkind := kind?_node (s := s) h field child
  have hwrapped (hkind : kind = .bold ∨ kind = .italic) :
      ∃ k ∈ [Kind.plain, .bold, .italic, .inlineMath], (child (field "content")).Proper k := by
    obtain ⟨k, hk, hinline⟩ := (Option.any_eq_true _ _).mp (fits.wrapped hkind)
    refine ⟨k, mem_inline hinline, hchild _ ?_ k hk (@isNode_of_mayHold .paragraph k hinline)⟩
    rcases hkind with rfl | rfl <;> exact List.mem_cons_self
  cases kind with
  | bold => exact ⟨rfl, List.forall_mem_singleton.mpr (hwrapped (.inl rfl))⟩
  | italic => exact ⟨rfl, List.forall_mem_singleton.mpr (hwrapped (.inr rfl))⟩
  | paragraph =>
    obtain ⟨items, hsupply, hslots⟩ := exists_placed fits hchild .inline rfl (by decide)
      (fun _ hk _ => mem_inline hk)
    simp only [node, hsupply]
    exact ⟨rfl, hslots⟩
  | sectioning =>
    obtain ⟨items, hsupply, hslots⟩ := exists_placed fits hchild
      (.block (.sectioning (s.datum (field "name")).literal)) rfl (by decide) (fun _ hk => mem_block hk _)
    simp only [node, hsupply]
    exact ⟨rfl, hslots⟩
  | preamble =>
    obtain ⟨items, hsupply, hslots⟩ := exists_placed fits hchild .entry rfl (by decide)
      (fun _ hk => mem_entry hk)
    simp only [node, hsupply]
    exact ⟨rfl, hslots⟩
  | document =>
    obtain ⟨items, hsupply, hslots⟩ := exists_placed fits hchild (.block .document) rfl (by decide)
      (fun _ hk => mem_block hk _)
    have hfront := hchild (field "preamble") List.mem_cons_self _ (fits.front rfl) rfl
    simp only [node, hsupply]
    exact ⟨rfl, List.forall_mem_cons.mpr ⟨⟨.preamble, List.mem_cons_self, hfront⟩, hslots⟩⟩
  | align =>
    obtain ⟨items, hsupply, hslots⟩ := exists_placed fits hchild .equation rfl (by decide)
      (fun _ hk _ => List.mem_singleton.mpr (eq_of_beq hk))
    simp only [node, hsupply]
    exact ⟨rfl, hslots⟩
  | list =>
    obtain ⟨items, hsupply, hslots⟩ := exists_placed fits hchild .item rfl (by decide)
      (fun _ hk _ => List.mem_singleton.mpr (eq_of_beq hk))
    simp only [node, hsupply]
    split <;> exact ⟨rfl, hslots⟩
  | table =>
    obtain ⟨items, hsupply, hslots⟩ := exists_placed fits hchild .row rfl (by decide)
      (fun _ hk _ => List.mem_singleton.mpr (eq_of_beq hk))
    simp only [node, hsupply]
    exact ⟨rfl, hslots⟩
  | tableRow =>
    obtain ⟨items, hitems, hmay⟩ := fits.listed "cells" rfl
    obtain ⟨hwalkable, _⟩ := rowOf_filled (field "skip_terminator") hitems
      (fun v hv => mayHold_tableRow.mp (hmay v hv)) (fits.counted rfl items hitems)
    have hslots := Tree.slots_eq_nil hkind rfl
    exact ⟨hwalkable, by simp [hslots]⟩
  | horizontalRule | columnSettings | typedSettings | rawSettings | baseOptions | latexOptions => cases h
  | _ =>
    have hslots := Tree.slots_eq_nil hkind rfl
    exact ⟨walkable_of_leaf hkind rfl (by decide), by simp [hslots]⟩

/-- The tree of an object that fits is proper if those of what it contains are. -/
theorem proper_node (h : kind.isNode = true) (fits : s.Fits kind field)
    (hchild : ∀ v ∈ s.contents kind field, ∀ k, s.kind? v = some k → k.isNode = true → (child v).Proper k) :
    (s.node kind field child).Proper kind := by
  have hkind := kind?_node (s := s) h field child
  obtain ⟨hwalkable, hslots⟩ := slots_node h fits hchild
  refine Tree.proper_of_slots hkind ?_ hwalkable hslots
  by_cases hrow : kind = .tableRow
  · subst hrow
    obtain ⟨items, hitems, hmay⟩ := fits.listed "cells" rfl
    exact (rowOf_filled (field "skip_terminator") hitems (fun v hv => mayHold_tableRow.mp (hmay v hv))
      (fits.counted rfl items hitems)).2
  · exact Tree.isOverfull_eq_false (by simpa [hkind] using hrow)

/-- The way down to an object never comes to the same object again, so it is no longer than the store, and
the depth to which trees are read is enough for all that lies below. -/
theorem proper_treeTo (hs : s.Sound) (acyclic : s.Acyclic) (depth : Nat) {above : List Ref} {r : Ref}
    (nodup : above.Nodup) (range : ∀ q ∈ above, q.index < s.cells.size)
    (way : ∀ q ∈ above, Relation.TransGen s.Contains q r) (enough : s.cells.size < above.length + depth)
    (hk : s.kind? (.ref r) = some kind) (node : kind.isNode = true) :
    (s.treeTo depth (.ref r)).Proper kind := by
  induction depth generalizing above r kind with
  | zero => exact absurd enough (Nat.not_lt.mpr (length_le_of_nodup nodup range))
  | succ depth ih =>
    obtain ⟨q, fields, hq, hcell⟩ := kind?_eq_some.mp hk
    obtain rfl := Value.ref.inj hq
    have htarget : s.target? (.ref r) = some (.object kind fields) := hcell
    simp only [treeTo, htarget, node, if_true]
    refine proper_node node (hs.fits r kind fields hcell) fun v hv k hvk hnode => ?_
    obtain ⟨q, _, rfl, _⟩ := kind?_eq_some.mp hvk
    have hbelow : s.Contains r q := ⟨kind, fields, hcell, hv⟩
    have hfresh : r ∉ above := fun hr => acyclic r (way r hr)
    refine ih (List.nodup_cons.mpr ⟨hfresh, nodup⟩) (List.forall_mem_cons.mpr ⟨index_lt hcell, range⟩)
      (List.forall_mem_cons.mpr ⟨.single hbelow, fun p hp => (way p hp).tail hbelow⟩) ?_ hvk hnode
    rw [List.length_cons]
    omega

/-- Whether every object contains only such as were made before it. -/
def descends (s : Store) : Bool :=
  (List.range s.cells.size).all fun i =>
    match s.cell? ⟨i⟩ with
    | some (.object kind fields) =>
      (s.contents kind (fieldIn fields)).all fun v => v.ref?.all fun r => decide (r.index < i)
    | _ => true

theorem acyclic_of_descends (h : s.descends = true) : s.Acyclic := by
  have hstep : ∀ q r, s.Contains q r → r.index < q.index := by
    rintro q r ⟨kind, fields, hcell, hr⟩
    have hq := List.all_eq_true.mp h q.index (List.mem_range.mpr (index_lt hcell))
    simp only [hcell] at hq
    simpa [Value.ref?] using List.all_eq_true.mp hq _ hr
  intro r hr
  have hlt : ∀ {q}, Relation.TransGen s.Contains r q → q.index < r.index := by
    intro q hq
    induction hq with
    | single hc => exact hstep _ _ hc
    | tail _ hc ih => exact Nat.lt_trans (hstep _ _ hc) ih
  exact Nat.lt_irrefl _ (hlt hr)

/-- In every built store without a node that contains itself a validation finds nothing in any node, and a
call that ends in a fault leaves all cells as they were. A list that is given for the children of a new object must be
empty, and held by no object that may hold other things: this is asked of what is built (`Starts.spare`). -/
theorem Built.valid (built : s.Built) :
    (s.Acyclic → ∀ v kind, s.kind? v = some kind → kind.isNode = true →
      (s.tree v).validate false = .start []) ∧
    ∀ v c notes, (∀ other, c = .pushAll other → s.kind? other = some .document) →
      ∀ f, ((Change.call v c).runOn ⟨s, notes⟩).1 = .error f →
        s.Keeps ((Change.call v c).runOn ⟨s, notes⟩).2.store := by
  refine ⟨fun acyclic v kind hk node => ?_, fun v c notes copied f refused =>
    built.keeps v c notes copied refused⟩
  obtain ⟨r, fields, rfl, hcell⟩ := kind?_eq_some.mp hk
  have hproper : (s.tree (.ref r)).Proper kind :=
    proper_treeTo built.sound acyclic (s.depth + 1) List.nodup_nil nofun nofun (by simp [Store.depth]) hk node
  exact Tree.validate_eq_start hproper.walkable (by simp [hproper.kind]) hproper.composed

theorem built_valid_section :
    let s₁ := ((Change.instantiate .plain [("text", .text "a")]).runOn ⟨.empty, []⟩).2.store
    let s₂ := ((Change.instantiate .paragraph []).runOn ⟨s₁, []⟩).2.store
    let s₃ := ((Change.call (.ref ⟨2⟩) (.push (.ref ⟨0⟩))).runOn ⟨s₂, []⟩).2.store
    let s₄ := ((Change.instantiate .sectioning [("name", .text "b")]).runOn ⟨s₃, []⟩).2.store
    let s := ((Change.call (.ref ⟨4⟩) (.push (.ref ⟨2⟩))).runOn ⟨s₄, []⟩).2.store
    s.Built ∧ s.Acyclic ∧ s.kind? (.ref ⟨4⟩) = some .sectioning ∧
      (s.tree (.ref ⟨4⟩)).validate false = .start [] ∧
      ((Change.call (.ref ⟨2⟩) (.push (.ref ⟨4⟩))).runOn ⟨s, []⟩).1 =
        .error (.unconvertible "Section" .inline) ∧
      s.Keeps ((Change.call (.ref ⟨2⟩) (.push (.ref ⟨4⟩))).runOn ⟨s, []⟩).2.store := by
  intro s₁ s₂ s₃ s₄ s
  have h₁ : s₁.Built := Built.empty.object _ _ [] (starts_of_left_out (by decide) (by decide))
  have h₂ : s₂.Built := h₁.object _ _ [] (starts_of_left_out (by decide) (by decide))
  have h₃ : s₃.Built := h₂.call _ _ [] nofun
  have h₄ : s₄.Built := h₃.object _ _ [] (starts_of_left_out (by decide) (by decide))
  have hbuilt : s.Built := h₄.call _ _ [] nofun
  have hacyclic : s.Acyclic := acyclic_of_descends (by decide +kernel)
  have hkind : s.kind? (.ref ⟨4⟩) = some .sectioning := by decide +kernel
  have hrefused : ((Change.call (.ref ⟨2⟩) (.push (.ref ⟨4⟩))).runOn ⟨s, []⟩).1 =
      .error (.unconvertible "Section" .inline) := by decide +kernel
  obtain ⟨hvalid, hkeeps⟩ := hbuilt.valid
  have hclean := hvalid hacyclic (.ref ⟨4⟩) .sectioning hkind rfl
  have hkept := hkeeps (.ref ⟨2⟩) (.push (.ref ⟨4⟩)) [] nofun (.unconvertible "Section" .inline) hrefused
  exact ⟨hbuilt, hacyclic, hkind, hclean, hrefused, hkept⟩

/-- An empty list is given to a paragraph and to a section. What is pushed to the paragraph, which may hold it, stands
in the section as well, which may not. -/
theorem shared_list_invalid :
    let s₁ := ((Change.instantiate .plain [("text", .text "x")]).runOn ⟨.empty, []⟩).2.store
    let s₂ := (s₁.newList []).1
    let s₃ := ((Change.instantiate .paragraph [("content", .ref ⟨1⟩)]).runOn ⟨s₂, []⟩).2.store
    let s₄ := ((Change.instantiate .sectioning [("name", .text "s"), ("elements", .ref ⟨1⟩)]).runOn ⟨s₃, []⟩).2.store
    let pushed := (Change.call (.ref ⟨2⟩) (.push (.ref ⟨0⟩))).runOn ⟨s₄, []⟩
    let s := pushed.2.store
    s₄.list? (.ref ⟨1⟩) = some [] ∧ ((s₄.tree (.ref ⟨3⟩)).validate false).state = [] ∧
      pushed.1 = .ok (.ref ⟨2⟩) ∧ s.Acyclic ∧ s.kind? (.ref ⟨3⟩) = some .sectioning ∧
      ((s.tree (.ref ⟨3⟩)).validate false).state = [.notBlock (.sectioning "'s'") 0 "Plain"] := by
  intro s₁ s₂ s₃ s₄ pushed s
  have hlist : s₄.list? (.ref ⟨1⟩) = some [] := by decide +kernel
  have hbefore : ((s₄.tree (.ref ⟨3⟩)).validate false).state = [] := by decide +kernel
  have hpushed : pushed.1 = .ok (.ref ⟨2⟩) := by decide +kernel
  have hacyclic : s.Acyclic := acyclic_of_descends (by decide +kernel)
  have hkind : s.kind? (.ref ⟨3⟩) = some .sectioning := by decide +kernel
  exact ⟨hlist, hbefore, hpushed, hacyclic, hkind, by decide +kernel⟩

end Store

end Manuscript
