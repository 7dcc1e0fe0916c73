import Manuscript.Proofs.Counting
import Manuscript.Proofs.Run
import Manuscript.Session.Query
/-!
# Statistics of several walks

A walk that ends in a fault leaves every section that it was in, level by level. So the next walk with the same
statistics starts outside of all sections, and adds to them what it would have recorded on its own.
-/
namespace Manuscript

open Statistics (Mark)

namespace Progress

variable {σ : Type}

/-- Goes on with a walk unless a fault has ended it. -/
def andThen (p : Progress σ) (next : Progress σ → Progress σ) : Progress σ := if p.fault.isSome then p else next p

def mark (p : Progress Statistics) (m : Mark) : Progress Statistics := { p with state := p.state.record m }

/-- The same progress, in some depth of sections. -/
def atDepth (p : Progress Statistics) (depth : Nat) : Progress Statistics :=
  { p with state := { p.state with depth } }

end Progress

/-- Makes some walks one after the other, until a fault. -/
def Progress.through {σ : Type} : List (Progress σ → Progress σ) → Progress σ → Progress σ
  | [], p => p
  | walk :: walks, p => (walk p).andThen (through walks)

/-- Goes through a supply, with one walk for each item. -/
def Supply.through {σ : Type} (s : Supply) (walks : List (Progress σ → Progress σ)) (p : Progress σ) : Progress σ :=
  match s with
  | listed | unsized _ none => Progress.through walks p
  | unsized _ (some source) =>
    if p.taken.contains source then p
    else Progress.through (walks.map fun walk p => walk { p with taken := p.taken ++ [source] }) p
  | missing _ innermost _ => { p with fault := some (.notIterable innermost) }

namespace Tree

/-- Counts each tree of a supply. -/
def countAll (supply : Supply) (ts : List Tree) : Progress Statistics → Progress Statistics :=
  supply.through (ts.map fun t p => p.mark (.counted t.typeName))

mutual
/-- The walk over a tree, level by level. A section is left in any case, also when a fault has ended the walk in it. -/
def survey : Tree → Progress Statistics → Progress Statistics
  | document _ front supply elements, p =>
    ((countAll supply elements (p.mark (.counted front.typeName))).andThen (survey front)).andThen
      (supply.through (surveys elements))
  | preamble _ _ supply elements, p => (countAll supply elements p).andThen (supply.through (surveys elements))
  | sectioning name supply elements, p =>
    (countAll supply elements (p.mark (.named name))).andThen fun p =>
      (supply.through (surveys elements) (p.mark .entered)).mark .left
  | paragraph supply content, p => (countAll supply content p).andThen (supply.through (surveys content))
  | bold content, p => survey content (p.mark (.counted content.typeName))
  | italic content, p => survey content (p.mark (.counted content.typeName))
  | align supply equations, p => (countAll supply equations p).andThen (supply.through (surveys equations))
  | list _ supply items _, p => (countAll supply items p).andThen (supply.through (surveys items))
  | table supply rows _ _, p => (countAll supply rows p).andThen (supply.through (surveys rows))
  | plain text, p => p.mark (.words (Text.wordCount text))
  | foreign value, p => { p with fault := some value.notWalked }
  | misfit (.plain value), p => (plainWords value).run (fun s m => (s.record m, none)) p
  | blocked _ node, p => survey node p
  | _, p => p

def surveys : List Tree → List (Progress Statistics → Progress Statistics)
  | [] => []
  | t :: ts => survey t :: surveys ts
end

end Tree

namespace Statistics

/-- Records the marks of a tally one after the other. -/
def recording (s : Statistics) (m : Mark) : Statistics × Option Fault := (s.record m, none)

/-- A walk goes as a tally does, but for the depth: it ends in the one that it starts from. The tally does so too
unless a fault ends it. -/
def Follows (tally : Tally) (walk : Progress Statistics → Progress Statistics) : Prop :=
  ∀ p : Progress Statistics, p.fault = none →
    walk p = (Step.runAll recording tally p).atDepth p.state.depth ∧
      ((Step.runAll recording tally p).fault = none →
        (Step.runAll recording tally p).state.depth = p.state.depth)

variable {xs ys : Tally} {f g : Progress Statistics → Progress Statistics}

theorem Follows.congr (h : Follows xs f) (heq : ∀ p, g p = f p) : Follows xs g := by
  obtain rfl : g = f := funext heq
  exact h

theorem follows_nil : Follows [] id := fun _ _ => ⟨rfl, fun _ => rfl⟩

/-- A walk that no fault has ended is where the tally is. -/
theorem Follows.eq_of_fault (h : Follows xs f) {p : Progress Statistics} (hp : p.fault = none)
    (hend : (Step.runAll recording xs p).fault = none) : f p = Step.runAll recording xs p := by
  obtain ⟨heq, hdepth⟩ := h p hp
  rw [heq, ← hdepth hend]
  rfl

theorem Follows.append (hx : Follows xs f) (hy : Follows ys g) : Follows (xs ++ ys) fun p => (f p).andThen g := by
  intro p hp
  rw [Step.runAll_append]
  change (f p).andThen g = _ ∧ _
  cases hend : (Step.runAll recording xs p).fault with
  | some fault =>
    rw [Step.runAll_of_fault recording ys (by rw [hend]; rfl), (hx p hp).1]
    refine ⟨?_, fun hnone => by simp [hend] at hnone⟩
    simp [Progress.andThen, Progress.atDepth, hend]
  | none =>
    obtain ⟨heq, hback⟩ := hy _ hend
    rw [hx.eq_of_fault hp hend, ← (hx p hp).2 hend]
    refine ⟨?_, hback⟩
    simp only [Progress.andThen, hend, Option.isSome_none, Bool.false_eq_true, if_false, heq]

theorem runAll_mark {p : Progress Statistics} (hp : p.fault = none) (m : Mark) (xs : Tally) :
    Step.runAll recording (.act m :: xs) p = Step.runAll recording xs (p.mark m) := by
  obtain ⟨s, taken, fault⟩ := p
  obtain rfl : fault = none := hp
  rfl

/-- What is recorded first goes before the walk. -/
theorem Follows.mark (h : Follows xs f) {m : Mark} (hm : ∀ s : Statistics, (s.record m).depth = s.depth) :
    Follows (.act m :: xs) fun p => f (p.mark m) := by
  intro p hp
  rw [runAll_mark hp]
  have hdepth : (p.mark m).state.depth = p.state.depth := hm p.state
  rw [← hdepth]
  exact h (p.mark m) hp

theorem Follows.take (h : Follows xs f) (source : Ref) :
    Follows (.take source :: xs) fun p => f { p with taken := p.taken ++ [source] } := by
  rintro ⟨s, taken, fault⟩ hp
  obtain rfl : fault = none := hp
  exact h ⟨s, taken ++ [source], none⟩ rfl

theorem Follows.once (h : Follows xs f) (source : Ref) :
    Follows [.once source xs []] fun p => if p.taken.contains source then p else f p := by
  intro p hp
  have hrun : Step.runAll recording [.once source xs []] p =
      if p.taken.contains source then p else Step.runAll recording xs p := by
    simp only [Step.runAll, hp, Option.isSome_none, Bool.false_eq_true, if_false, Step.run]
  rw [hrun]
  dsimp only
  split_ifs
  · exact ⟨rfl, fun _ => rfl⟩
  · exact h p hp

theorem follows_halt (fault : Fault) : Follows [.halt fault] fun p => { p with fault := some fault } := by
  rintro ⟨s, taken, before⟩ hp
  obtain rfl : before = none := hp
  exact ⟨rfl, nofun⟩

/-- To enter a section, walk over what is in it, and leave it in any case. -/
theorem Follows.within (h : Follows xs f) :
    Follows (.act .entered :: xs ++ [.act .left]) fun p => (f (p.mark .entered)).mark .left := by
  intro p hp
  have hp' : (p.mark .entered).fault = none := hp
  rw [List.cons_append, runAll_mark hp, Step.runAll_append]
  change (f (p.mark .entered)).mark .left = _ ∧ _
  obtain ⟨heq, hback⟩ := h (p.mark .entered) hp'
  cases hend : (Step.runAll recording xs (p.mark .entered)).fault with
  | some fault =>
    rw [Step.runAll_of_fault recording _ (by rw [hend]; rfl), heq]
    exact ⟨rfl, fun hnone => by simp [hend] at hnone⟩
  | none =>
    rw [h.eq_of_fault hp' hend, runAll_mark hend]
    have hleft : ((Step.runAll recording xs (p.mark .entered)).mark .left).state.depth = p.state.depth := by
      change (Step.runAll recording xs (p.mark .entered)).state.depth - 1 = p.state.depth
      rw [hback hend]
      rfl
    refine ⟨?_, fun _ => hleft⟩
    rw [← hleft]
    rfl

variable {ι : Type} {items : List ι} {tally : ι → Tally} {walk : ι → Progress Statistics → Progress Statistics}

theorem follows_flatten (h : ∀ i ∈ items, Follows (tally i) (walk i)) :
    Follows (items.map tally).flatten (Progress.through (items.map walk)) := by
  induction items with
  | nil => exact follows_nil
  | cons i items ih =>
    obtain ⟨hi, hitems⟩ := List.forall_mem_cons.mp h
    exact hi.append (ih hitems)

/-- To go through a supply, with a walk for each item that follows its tally. -/
theorem follows_each (supply : Supply) (h : ∀ i ∈ items, Follows (tally i) (walk i)) :
    Follows (supply.each (items.map tally) []) (supply.through (items.map walk)) := by
  have hall : Follows ((items.map tally).flatten ++ []) (Progress.through (items.map walk)) := by
    rw [List.append_nil]
    exact follows_flatten h
  cases supply with
  | listed => exact hall
  | missing typeName innermost counts => exact follows_halt _
  | unsized typeName source =>
    cases source with
    | none => exact hall
    | some source =>
      have htaking := follows_flatten fun i hi => (h i hi).take source
      have hsteps : (items.map fun i => Step.take source :: tally i).flatten =
          (items.map tally).flatMap (fun item => .take source :: item) ++ [] := by
        rw [List.append_nil, List.flatMap_def, List.map_map]
        rfl
      rw [hsteps] at htaking
      have hwalks : (items.map fun i (p : Progress Statistics) => walk i { p with taken := p.taken ++ [source] }) =
          (items.map walk).map fun walk p => walk { p with taken := p.taken ++ [source] } := by
        rw [List.map_map]
        rfl
      rw [hwalks] at htaking
      exact htaking.once source

end Statistics

namespace Tree

open Statistics (Follows follows_nil follows_each follows_halt)

theorem surveys_eq_map (ts : List Tree) : surveys ts = ts.map survey := by
  induction ts with
  | nil => rfl
  | cons t ts ih => rw [surveys, ih, List.map_cons]

theorem follows_countedAll (supply : Supply) (ts : List Tree) :
    Follows (countedAll supply ts) (countAll supply ts) :=
  follows_each supply fun _ _ => follows_nil.mark fun _ => rfl

/-- Trees are counted, and then one walks over them. -/
theorem follows_children (supply : Supply) {ts : List Tree} (h : ∀ t ∈ ts, Follows t.tally t.survey) :
    Follows (countedAll supply ts ++ supply.each (tallyAll ts) []) fun p =>
      (countAll supply ts p).andThen (supply.through (surveys ts)) := by
  rw [tallyAll_eq_map, surveys_eq_map]
  exact (follows_countedAll supply ts).append (follows_each supply h)

theorem follows_plainWords (value : Datum) :
    Follows [plainWords value] fun p => (plainWords value).run (fun s m => (s.record m, none)) p := by
  rintro ⟨s, taken, fault⟩ hp
  obtain rfl : fault = none := hp
  unfold plainWords
  split
  · exact ⟨rfl, fun _ => rfl⟩
  · split
    · exact ⟨rfl, fun _ => rfl⟩
    · exact ⟨rfl, nofun⟩

mutual
/-- The walk level by level goes as the tally of a tree does. -/
theorem follows_tally : ∀ t : Tree, Follows t.tally t.survey
  | document _ front supply elements => by
    rw [tally, tallyAll_eq_map]
    have hcounted := (follows_countedAll supply elements).mark (m := .counted front.typeName) fun _ => rfl
    refine ((hcounted.append (follows_tally front)).append (follows_each supply (follows_tallyAll elements))).congr ?_
    intro p
    rw [survey, surveys_eq_map]
  | preamble _ _ supply elements => follows_children supply (follows_tallyAll elements)
  | sectioning name supply elements => by
    rw [tally, tallyAll_eq_map, List.append_assoc]
    have hnamed := (follows_countedAll supply elements).mark (m := .named name) fun _ => rfl
    refine (hnamed.append (follows_each supply (follows_tallyAll elements)).within).congr ?_
    intro p
    rw [survey, surveys_eq_map]
  | paragraph supply content => follows_children supply (follows_tallyAll content)
  | bold content => (follows_tally content).mark fun _ => rfl
  | italic content => (follows_tally content).mark fun _ => rfl
  | align supply equations => follows_children supply (follows_tallyAll equations)
  | list _ supply items _ => follows_children supply (follows_tallyAll items)
  | table supply rows _ _ => follows_children supply (follows_tallyAll rows)
  | plain _ => follows_nil.mark fun _ => rfl
  | foreign _ => follows_halt _
  | misfit (.plain value) => follows_plainWords value
  | blocked _ node => follows_tally node
  | misfit (.environment _ _ _) | misfit (.row _) | inlineMath _ | tableOfContents | titlePage | clearPage
  | environment _ _ | userDefined _ | input _ | usePackage _ _ | newCommand _ _ _ | preambleLine _ | equation _ _ _
  | item _ | tableRow _ => follows_nil

theorem follows_tallyAll : ∀ ts : List Tree, ∀ t ∈ ts, Follows t.tally t.survey
  | [] => nofun
  | t :: ts => List.forall_mem_cons.mpr ⟨follows_tally t, follows_tallyAll ts⟩
end

end Tree

namespace Statistics

/-- Statistics are walked level by level. -/
theorem walk_eq_survey (s : Statistics) (t : Tree) : s.walk t = t.survey (.start s) :=
  ((t.follows_tally (.start s) rfl).1).symm

/-- Statistics are what was there before, and a part that was recorded on top of it. -/
structure Joins (base part whole : Statistics) : Prop where
  counts : ∀ name, countOf name whole.counts = countOf name base.counts + countOf name part.counts
  sectionNames : whole.sectionNames = base.sectionNames ++ part.sectionNames
  maxDepth : whole.maxDepth = max base.maxDepth part.maxDepth
  words : whole.words = base.words + part.words
  depth : whole.depth = part.depth

variable {base part whole : Statistics} {parts : List Statistics}

theorem joins_empty (h : base.depth = 0) : Joins base empty base where
  counts _ := rfl
  sectionNames := (List.append_nil _).symm
  maxDepth := (Nat.max_zero _).symm
  words := rfl
  depth := h

theorem Joins.record (h : Joins base part whole) (m : Mark) : Joins base (part.record m) (whole.record m) := by
  obtain ⟨hcounts, hnames, hmax, hwords, hdepth⟩ := h
  cases m with
  | counted typeName =>
    refine ⟨fun name => ?_, hnames, hmax, hwords, hdepth⟩
    simp only [Statistics.record, countOf_bump, hcounts, Nat.add_assoc]
  | named name => exact ⟨hcounts, by simp [Statistics.record, hnames], hmax, hwords, hdepth⟩
  | entered =>
    refine ⟨hcounts, hnames, ?_, hwords, congrArg (· + 1) hdepth⟩
    simp only [Statistics.record, hmax, hdepth, Nat.max_assoc]
  | left => exact ⟨hcounts, hnames, hmax, hwords, congrArg (· - 1) hdepth⟩
  | words n => exact ⟨hcounts, hnames, hmax, by simp [Statistics.record, hwords, Nat.add_assoc], hdepth⟩

/-- A walk adds what it would record on its own, up to the same fault. -/
theorem walk_related (h : base.depth = 0) (t : Tree) : (empty.walk t).Related (Joins base) (base.walk t) := by
  have hrun : (t.tally.fold Statistics.record empty).Related (Joins base) (t.tally.fold Statistics.record base) :=
    Script.fold_related (fun _ _ m hst => hst.record m) t.tally (joins_empty h)
  obtain ⟨hjoins, htaken, hfault⟩ := hrun
  exact ⟨⟨hjoins.counts, hjoins.sectionNames, hjoins.maxDepth, hjoins.words, h⟩, htaken, hfault⟩

/-- Statistics are some parts together, outside of all sections. -/
structure Sums (parts : List Statistics) (whole : Statistics) : Prop where
  counts : ∀ name, countOf name whole.counts = (parts.map fun s => countOf name s.counts).sum
  sectionNames : whole.sectionNames = parts.flatMap (·.sectionNames)
  maxDepth : whole.maxDepth = (parts.map (·.maxDepth)).foldr max 0
  words : whole.words = (parts.map (·.words)).sum
  depth : whole.depth = 0

theorem sums_nil : Sums [] empty := ⟨fun _ => rfl, rfl, rfl, rfl, rfl⟩

theorem foldr_max_append (ms : List Nat) (n : Nat) : (ms ++ [n]).foldr max 0 = max (ms.foldr max 0) n := by
  induction ms with
  | nil => simp
  | cons m ms ih => simp [ih, Nat.max_assoc]

/-- One more part on top of the others. -/
theorem Sums.append (h : Sums parts base) (hjoins : Joins base part whole) (hdepth : part.depth = 0) :
    Sums (parts ++ [part]) whole where
  counts name := by simp [hjoins.counts, h.counts]
  sectionNames := by simp [hjoins.sectionNames, h.sectionNames]
  maxDepth := by rw [hjoins.maxDepth, h.maxDepth, List.map_append, List.map_singleton, foldr_max_append]
  words := by simp [hjoins.words, h.words]
  depth := hjoins.depth.trans hdepth

end Statistics

namespace Store

/-- The trees of some values, each as it stands when one has walked over those before it. -/
def visited (s : Store) : List Value → List Tree
  | [] => []
  | v :: vs => s.tree v :: (s.takingAll (Statistics.empty.walk (s.tree v)).taken).visited vs

/-- Walks that take nothing from iterators find all trees as they stand at first. -/
theorem visited_of_taken {s : Store} {vs : List Value}
    (h : ∀ v ∈ vs, (Statistics.empty.walk (s.tree v)).taken = []) : s.visited vs = vs.map s.tree := by
  induction vs with
  | nil => rfl
  | cons v vs ih =>
    obtain ⟨hv, hvs⟩ := List.forall_mem_cons.mp h
    rw [visited, hv, List.map_cons]
    exact congrArg _ (ih hvs)

end Store

namespace Session

open Statistics (Sums)

variable {session : Session}

/-- The first walk works on the tree as it stands, the others on what it has left. -/
theorem perform_walks_cons (s : Statistics) (v : Value) (vs : List Value) :
    let p := s.walk (session.store.tree v)
    (session.perform (walks s (v :: vs))).1 =
      (Session.perform { session with store := session.store.takingAll p.taken } (walks p.state vs)).1.map
        fun reports => (p.state, p.fault) :: reports := by
  intro p
  have hrun : session.perform (walks s (v :: vs)) =
      Session.perform { session with store := session.store.takingAll p.taken }
        ((fun reports => (p.state, p.fault) :: reports) <$> walks p.state vs) := rfl
  rw [hrun]
  simp only [perform, ExceptT.run_map, StateT.run_map]
  rfl

/-- Walks with statistics that are some parts together add one part each. -/
theorem exists_walks (vs : List Value) (session : Session) {parts : List Statistics} {s : Statistics}
    (hs : Sums parts s) : ∃ reports, (session.perform (walks s vs)).1 = .ok reports ∧ reports.length = vs.length ∧
      ∀ i report, reports[i]? = some report → ∃ alone : Progress Statistics,
        ((session.store.visited vs).map Statistics.empty.walk)[i]? = some alone ∧ report.2 = alone.fault ∧
          Sums (parts ++ ((session.store.visited vs).map fun t => (Statistics.empty.walk t).state).take (i + 1))
            report.1 := by
  induction vs generalizing session parts s with
  | nil => exact ⟨[], rfl, rfl, nofun⟩
  | cons v vs ih =>
    let t := session.store.tree v
    let p := s.walk t
    obtain ⟨hjoins, htaken, hfault⟩ := Statistics.walk_related hs.depth t
    have hp : Sums (parts ++ [(Statistics.empty.walk t).state]) p.state := hs.append hjoins rfl
    obtain ⟨reports, hrun, hlength, hreports⟩ := ih { session with store := session.store.takingAll p.taken } hp
    refine ⟨(p.state, p.fault) :: reports, ?_, congrArg (· + 1) hlength, fun i report hi => ?_⟩
    · rw [perform_walks_cons, hrun]
      rfl
    · rw [Store.visited, htaken]
      cases i with
      | zero =>
        obtain rfl := Option.some.inj hi
        exact ⟨Statistics.empty.walk t, rfl, hfault.symm, by simpa using hp⟩
      | succ i =>
        obtain ⟨alone, halone, hend, hsums⟩ := hreports i report hi
        refine ⟨alone, halone, hend, ?_⟩
        rwa [List.map_cons, List.take_succ_cons, ← List.singleton_append, ← List.append_assoc]

/-- Statistics of walks one after the other, with or without faults: after each of them one is outside of all
sections, and has what the walks up to it would have recorded on their own. Each walk leaves its sections one by
one. -/
theorem walks_accumulate (session : Session) (vs : List Value) :
    (∃ reports, (session.perform (walks .empty vs)).1 = .ok reports ∧ reports.length = vs.length ∧
      ∀ i report, reports[i]? = some report → ∃ alone : Progress Statistics,
        ((session.store.visited vs).map Statistics.empty.walk)[i]? = some alone ∧ report.2 = alone.fault ∧
          Sums (((session.store.visited vs).map fun t => (Statistics.empty.walk t).state).take (i + 1)) report.1) ∧
      ((∀ v ∈ vs, (Statistics.empty.walk (session.store.tree v)).taken = []) →
        session.store.visited vs = vs.map session.store.tree) ∧
      ∀ (s : Statistics) (t : Tree), s.walk t = t.survey (.start s) ∧
        (t.survey (.start s)).state.depth = s.depth := by
  obtain ⟨reports, hrun, hlength, hreports⟩ := exists_walks vs session Statistics.sums_nil
  refine ⟨⟨reports, hrun, hlength, hreports⟩, Store.visited_of_taken, fun s t => ⟨s.walk_eq_survey t, ?_⟩⟩
  rw [← s.walk_eq_survey t]
  rfl

end Session

end Manuscript
