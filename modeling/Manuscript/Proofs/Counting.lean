import Mathlib.Algebra.Ring.Nat
import Mathlib.Data.List.Nodup
import Mathlib.Data.List.Perm.Basic
import Mathlib.Order.Bounds.Defs
import Mathlib.Order.MinMax
import Manuscript.Proofs.Safety
import Manuscript.Proofs.Slots
/-!
# Counting

The statistics of a tree against what occurs in it: how often each type does, the names of the sections in
order, how many sections lie on one way down at most, and how many words the plain texts have together.
-/
namespace Manuscript

namespace Text

/-- The words of a text: what lies between blank characters, where that is not empty. -/
def words (text : String) : List (List Char) := (text.toList.splitOnP isBlank).filter (!·.isEmpty)

/-- Inside of a word the first run goes on with it, and is not counted again. -/
theorem wordsFrom_eq (cs : List Char) :
    wordsFrom false cs = ((cs.splitOnP isBlank).filter (!·.isEmpty)).length ∧
      wordsFrom true cs = ((cs.splitOnP isBlank).tail.filter (!·.isEmpty)).length := by
  induction cs with
  | nil => exact ⟨rfl, rfl⟩
  | cons c cs ih =>
    obtain ⟨outside, inside⟩ := ih
    rw [List.splitOnP_cons_eq_if_modifyHead]
    by_cases hblank : isBlank c = true
    · simp [wordsFrom, hblank, outside]
    · obtain ⟨run, runs, hruns⟩ := List.exists_cons_of_ne_nil (List.splitOnP_ne_nil isBlank cs)
      rw [hruns] at outside inside
      simp [wordsFrom, hblank, hruns, inside]

theorem wordCount_eq (text : String) : wordCount text = (words text).length :=
  (wordsFrom_eq text.toList).1

end Text

namespace Statistics

/-- Counts without a name that stands twice or was never counted. -/
def Tidy (counts : List (String × Nat)) : Prop :=
  (counts.map Prod.fst).Nodup ∧ ∀ entry ∈ counts, 0 < entry.2

theorem map_fst_bump (name : String) (counts : List (String × Nat)) :
    (bump name counts).map Prod.fst =
      if name ∈ counts.map Prod.fst then counts.map Prod.fst else counts.map Prod.fst ++ [name] := by
  induction counts with
  | nil => rfl
  | cons entry rest ih =>
    obtain ⟨key, n⟩ := entry
    by_cases h : key = name
    · simp [bump, h]
    · rw [bump, if_neg h, List.map_cons, ih]
      by_cases hrest : name ∈ rest.map Prod.fst
      · simp [hrest]
      · simp [hrest, Ne.symm h]

theorem pos_bump {name : String} {counts : List (String × Nat)} (h : ∀ entry ∈ counts, 0 < entry.2) :
    ∀ entry ∈ bump name counts, 0 < entry.2 := by
  induction counts with
  | nil => simp [bump]
  | cons first rest ih =>
    obtain ⟨key, n⟩ := first
    obtain ⟨hfirst, hrest⟩ := List.forall_mem_cons.mp h
    rw [bump]
    split
    · exact List.forall_mem_cons.mpr ⟨Nat.succ_pos n, hrest⟩
    · exact List.forall_mem_cons.mpr ⟨hfirst, ih hrest⟩

theorem Tidy.bump {counts : List (String × Nat)} (h : Tidy counts) (name : String) :
    Tidy (bump name counts) := by
  refine ⟨?_, pos_bump h.2⟩
  rw [map_fst_bump]
  split
  · exact h.1
  · rename_i hnew
    exact List.nodup_append.mpr ⟨h.1, List.nodup_singleton name, by
      rintro a ha b hb rfl
      exact hnew (List.mem_singleton.mp hb ▸ ha)⟩

theorem Tidy.mem_iff {counts : List (String × Nat)} (h : Tidy counts) (name : String) (n : Nat) :
    (name, n) ∈ counts ↔ countOf name counts = n ∧ 0 < n := by
  induction counts with
  | nil =>
    simp [countOf]
    omega
  | cons entry rest ih =>
    obtain ⟨key, m⟩ := entry
    obtain ⟨hnodup, hpos⟩ := h
    obtain ⟨hkey, hrest⟩ := List.nodup_cons.mp hnodup
    obtain ⟨hm, hposRest⟩ := List.forall_mem_cons.mp hpos
    rw [List.mem_cons, countOf_cons]
    by_cases hname : name = key
    · subst hname
      have hnew : (name, n) ∉ rest := fun hin => hkey (List.mem_map.mpr ⟨_, hin, rfl⟩)
      simp only [hnew, or_false, Prod.mk.injEq, true_and, if_true]
      constructor
      · rintro rfl
        exact ⟨rfl, hm⟩
      · exact fun hcount => hcount.1.symm
    · simp [hname, ih ⟨hrest, hposRest⟩]

/-- Names counted one after the other. -/
def bumpAll (names : List String) (counts : List (String × Nat)) : List (String × Nat) :=
  names.foldl (fun counts name => bump name counts) counts

theorem countOf_bumpAll (name : String) (names : List String) (counts : List (String × Nat)) :
    countOf name (bumpAll names counts) = countOf name counts + names.count name := by
  induction names generalizing counts with
  | nil => rfl
  | cons first rest ih =>
    rw [bumpAll, List.foldl_cons, ← bumpAll, ih, countOf_bump, List.count_cons]
    by_cases h : name = first
    · simp [h]
      omega
    · simp [h, Ne.symm h]

theorem Tidy.bumpAll {counts : List (String × Nat)} (h : Tidy counts) (names : List String) :
    Tidy (bumpAll names counts) := by
  induction names generalizing counts with
  | nil => exact h
  | cons first rest ih => exact ih (h.bump first)

theorem tidy_bumpAll_nil (names : List String) : Tidy (bumpAll names []) :=
  Tidy.bumpAll ⟨by simp, by simp⟩ names

/-- The counts of some names have one entry for each of them, and no others. -/
theorem mem_bumpAll_nil (names : List String) (name : String) (n : Nat) :
    (name, n) ∈ bumpAll names [] ↔ n = names.count name ∧ 0 < n := by
  rw [(tidy_bumpAll_nil names).mem_iff, countOf_bumpAll]
  simp [countOf, eq_comm]

/-- What a walk adds to statistics: the types that it counts, the sections that it names, how deep it gets,
and words. -/
structure Share where
  types : List String
  sectionNames : List Datum
  height : Nat
  words : Nat

def add (s : Statistics) (share : Share) : Statistics where
  counts := bumpAll share.types s.counts
  sectionNames := s.sectionNames ++ share.sectionNames
  maxDepth := max s.maxDepth (s.depth + share.height)
  words := s.words + share.words
  depth := s.depth

/-- Marks that add a share to whatever statistics they are recorded in. -/
def Adds (marks : List Mark) (share : Share) : Prop :=
  ∀ s : Statistics, s.depth ≤ s.maxDepth → marks.foldl record s = s.add share

theorem adds_nil : Adds [] ⟨[], [], 0, 0⟩ := by
  intro s h
  simp [add, bumpAll, max_eq_left h]

theorem adds_words (n : Nat) : Adds [.words n] ⟨[], [], 0, n⟩ := by
  intro s h
  simp [add, bumpAll, record, max_eq_left h]

theorem adds_counted (names : List String) : Adds (names.map .counted) ⟨names, [], 0, 0⟩ := by
  intro s h
  induction names generalizing s with
  | nil => exact adds_nil s h
  | cons name rest ih =>
    rw [List.map_cons, List.foldl_cons, ih (s.record (.counted name)) h]
    rfl

theorem Adds.append {ms ns : List Mark} {a b : Share} (hm : Adds ms a) (hn : Adds ns b) :
    Adds (ms ++ ns)
      ⟨a.types ++ b.types, a.sectionNames ++ b.sectionNames, max a.height b.height, a.words + b.words⟩ := by
  intro s h
  have hdepth : (s.add a).depth ≤ (s.add a).maxDepth := le_max_of_le_left h
  rw [List.foldl_append, hm s h, hn _ hdepth]
  simp only [add, bumpAll, List.foldl_append, List.append_assoc, Nat.add_assoc, max_assoc, Nat.add_max_add_left]

/-- A section is named first, and all that is walked over within it lies one level deeper. -/
theorem Adds.within {before ms : List Mark} {a b : Share} (hbefore : Adds before a) (hm : Adds ms b)
    (flat : a.height = 0) (name : Datum) :
    Adds (.named name :: before ++ .entered :: ms ++ [.left])
      ⟨a.types ++ b.types, name :: (a.sectionNames ++ b.sectionNames), b.height + 1, a.words + b.words⟩ := by
  intro s h
  let named := (s.record (.named name)).add a
  have hnamed : before.foldl record (s.record (.named name)) = named := hbefore _ h
  have hentered : ms.foldl record (named.record .entered) = (named.record .entered).add b :=
    hm _ (le_max_right _ _)
  simp only [List.foldl_append, List.foldl_cons, List.foldl_nil, hnamed, hentered]
  simp [named, add, record, bumpAll, flat]
  omega

end Statistics

namespace Tree

variable {t : Tree}

/-- The name of a section. -/
def sectionName? : Tree → Option Datum
  | sectioning name _ _ => some name
  | blocked _ node => node.sectionName?
  | _ => none

/-- The text of a plain run. -/
def plainText? : Tree → Option String
  | plain text => some text
  | misfit (.plain value) => value.asText?
  | blocked _ node => node.plainText?
  | _ => none

/-- A node whose children are in a list, or a plain run of a text. -/
def Countable : Tree → Prop
  | foreign _ => False
  | misfit (.plain value) => ∃ text, value.asText? = some text
  | misfit _ => True
  | blocked _ node => node.Countable
  | t => t.supply = .listed

/-- The nodes on a way down from a tree. -/
inductive Path : Tree → List Tree → Prop
  | here (t : Tree) : Path t [t]
  | down {t : Tree} {p : Slot × Tree} {path : List Tree} (child : p ∈ t.slots) (rest : Path p.2 path) :
      Path t (t :: path)

def sectionsOn (path : List Tree) : Nat := path.countP fun s => s.sectionName?.isSome

/-- The most sections on one way down. -/
def nesting (t : Tree) : Nat :=
  sectionsOn [t] + (t.slots.attach.map fun p => nesting p.1.2).foldr max 0
  termination_by sizeOf t
  decreasing_by exact sizeOf_of_mem_slots p.2

theorem nesting_eq (t : Tree) : t.nesting = sectionsOn [t] + (t.slots.map fun p => p.2.nesting).foldr max 0 := by
  rw [nesting, List.attach_map_val (f := fun p : Slot × Tree => p.2.nesting)]

theorem foldr_max_cases (ns : List Nat) : ns.foldr max 0 = 0 ∨ ns.foldr max 0 ∈ ns := by
  induction ns with
  | nil => exact .inl rfl
  | cons n ns ih =>
    rw [List.foldr_cons]
    rcases max_choice n (ns.foldr max 0) with h | h <;> rw [h]
    · exact .inr List.mem_cons_self
    · exact ih.imp_right (List.mem_cons_of_mem n)

theorem le_foldr_max {ns : List Nat} {n : Nat} (h : n ∈ ns) : n ≤ ns.foldr max 0 := by
  induction h with
  | head => exact le_max_left _ _
  | tail _ _ ih => exact le_max_of_le_right ih

theorem sectionsOn_cons (t : Tree) (path : List Tree) :
    sectionsOn (t :: path) = sectionsOn [t] + sectionsOn path := by
  rw [sectionsOn, sectionsOn, sectionsOn, ← List.countP_append]
  rfl

theorem sectionsOn_le_nesting {path : List Tree} (h : t.Path path) : sectionsOn path ≤ t.nesting := by
  induction h with
  | here t =>
    rw [nesting_eq]
    exact Nat.le_add_right _ _
  | down child rest ih =>
    rw [nesting_eq, sectionsOn_cons]
    exact Nat.add_le_add_left (ih.trans (le_foldr_max (List.mem_map.mpr ⟨_, child, rfl⟩))) _

theorem exists_path_nesting (t : Tree) : ∃ path, t.Path path ∧ sectionsOn path = t.nesting := by
  induction t using slots_induction with
  | step t ih =>
    rw [nesting_eq]
    rcases foldr_max_cases (t.slots.map fun p => p.2.nesting) with h | h
    · exact ⟨[t], .here t, by rw [h, Nat.add_zero]⟩
    · obtain ⟨p, hp, hnesting⟩ := List.mem_map.mp h
      obtain ⟨path, hpath, hsections⟩ := ih p hp
      exact ⟨t :: path, .down hp hpath, by rw [sectionsOn_cons, hsections, hnesting]⟩

/-- The nesting is the largest number of sections on one way down from the root. -/
theorem isGreatest_nesting (t : Tree) :
    IsGreatest {n | ∃ path, t.Path path ∧ sectionsOn path = n} t.nesting := by
  refine ⟨exists_path_nesting t, ?_⟩
  rintro n ⟨path, hpath, rfl⟩
  exact sectionsOn_le_nesting hpath

/-- The marks of what a node is itself: the words of a plain run. -/
def ownMarks (t : Tree) : List Statistics.Mark :=
  (t.plainText?.map fun text => .words (Text.wordCount text)).toList

/-- The marks that count the children of a node. -/
def countedMarks (t : Tree) : List Statistics.Mark := t.slots.map fun p => .counted p.2.typeName

/-- The walks over the children of a node, one after the other. -/
def innerTally (t : Tree) : Tally := t.slots.flatMap fun p => p.2.tally

theorem tallyAll_eq_map (ts : List Tree) : tallyAll ts = ts.map tally := by
  induction ts with
  | nil => rfl
  | cons t ts ih => rw [tallyAll, ih, List.map_cons]

theorem countedAll_placed (slot : Nat → Slot) (ts : List Tree) :
    countedAll .listed ts = Script.acts ((placed slot ts).map fun p => .counted p.2.typeName) := by
  have hcounted : countedAll .listed ts = ts.map counted := by
    rw [countedAll, Supply.each_listed, List.append_nil, ← List.flatMap_def]
    exact List.map_eq_flatMap.symm
  conv_lhs => rw [hcounted, ← map_snd_placed slot ts, List.map_map]
  rw [Script.acts, List.map_map]
  rfl

theorem tallyAll_placed (slot : Nat → Slot) (ts : List Tree) :
    Supply.listed.each (tallyAll ts) [] = (placed slot ts).flatMap fun p => p.2.tally := by
  rw [Supply.each_listed, List.append_nil, tallyAll_eq_map, flatMap_placed_snd]

theorem tally_plain_misfit {value : Datum} {text : String} (h : value.asText? = some text) :
    plainWords value = .act (.words (Text.wordCount text)) := by
  unfold plainWords
  split
  · cases h
  · rw [h]

/-- The walk over a node that is no section. -/
theorem tally_other (h : t.Countable) (other : t.sectionName? = none) :
    t.tally = Script.acts (t.ownMarks ++ t.countedMarks) ++ t.innerTally := by
  fun_induction slots t with
  | case1 content | case2 content =>
    simp [tally, ownMarks, plainText?, countedMarks, innerTally, slots, Script.acts, counted]
  | case3 supply content =>
    obtain rfl : supply = .listed := h
    rw [tally, countedAll_placed .inline, tallyAll_placed .inline]
    rfl
  | case4 name supply elements => cases other
  | case5 title author supply elements =>
    obtain rfl : supply = .listed := h
    rw [tally, countedAll_placed .entry, tallyAll_placed .entry]
    rfl
  | case6 documentClass front supply elements =>
    obtain rfl : supply = .listed := h
    rw [tally, countedAll_placed (.block .document), tallyAll_placed (.block .document)]
    simp [ownMarks, plainText?, countedMarks, innerTally, slots, Script.acts, counted]
  | case7 supply equations =>
    obtain rfl : supply = .listed := h
    rw [tally, countedAll_placed .equation, tallyAll_placed .equation]
    rfl
  | case8 kind supply items argument =>
    obtain rfl : supply = .listed := h
    rw [tally, countedAll_placed .item, tallyAll_placed .item]
    rfl
  | case9 supply rows settings standard =>
    obtain rfl : supply = .listed := h
    rw [tally, countedAll_placed .row, tallyAll_placed .row]
    rfl
  | case10 f node ih => exact ih h other
  | case11 t =>
    cases t with
    | foreign value => exact h.elim
    | misfit node =>
      cases node with
      | plain value =>
        obtain ⟨text, htext⟩ := h
        simp [tally, tally_plain_misfit htext, ownMarks, plainText?, htext, countedMarks, innerTally, slots,
          Script.acts]
      | _ => rfl
    | _ => first | rfl | grind

/-- The walk over a section. -/
theorem tally_section (h : t.Countable) {name : Datum} (hname : t.sectionName? = some name) :
    t.tally = .act (.named name) :: Script.acts t.countedMarks ++ .act .entered :: t.innerTally ++
      [.act .left] := by
  fun_induction sectionName? t with
  | case1 name supply elements =>
    obtain rfl : supply = .listed := h
    cases hname
    rw [tally, countedAll_placed (.block (.sectioning name.literal)),
      tallyAll_placed (.block (.sectioning name.literal))]
    rfl
  | case2 f node ih => exact ih h hname
  | case3 => cases hname

/-- The types of what stands under a node. -/
def typesBelow (t : Tree) : List String := t.slots.flatMap fun p => p.2.occurrences.map typeName

def sectionNames (t : Tree) : List Datum := t.occurrences.filterMap sectionName?

/-- The number of words of all plain runs. -/
def plainWordCount (t : Tree) : Nat :=
  ((t.occurrences.filterMap plainText?).map fun text => (Text.words text).length).sum

theorem map_typeName_occurrences (t : Tree) :
    t.occurrences.map typeName = t.typeName :: t.typesBelow := by
  rw [occurrences_eq, List.map_cons, List.map_flatMap]
  rfl

theorem sectionNames_eq (t : Tree) :
    t.sectionNames = t.sectionName?.toList ++ t.slots.flatMap fun p => p.2.sectionNames := by
  rw [sectionNames, occurrences_eq]
  cases h : t.sectionName? <;> simp [h, List.filterMap_flatMap, sectionNames]

theorem plainWordCount_eq (t : Tree) :
    t.plainWordCount = ((t.plainText?.map Text.wordCount).getD 0) +
      (t.slots.map fun p => p.2.plainWordCount).sum := by
  rw [plainWordCount, occurrences_eq]
  have hsum : ((t.slots.flatMap fun p => p.2.occurrences.filterMap plainText?).map fun text =>
      (Text.words text).length).sum = (t.slots.map fun p => p.2.plainWordCount).sum := by
    rw [List.map_flatMap, List.flatMap_def, List.sum_flatten, List.map_map]
    rfl
  cases h : t.plainText? with
  | none => simpa [h, List.filterMap_flatMap] using hsum
  | some text => simpa [h, List.filterMap_flatMap, Text.wordCount_eq] using hsum

/-- What the walk over a tree adds: its types in some order, the tree itself not among them. -/
def Tallied (t : Tree) : Prop :=
  ∃ marks types, t.tally = Script.acts marks ∧ types.Perm t.typesBelow ∧
    Statistics.Adds marks ⟨types, t.sectionNames, t.nesting, t.plainWordCount⟩

/-- The walk over some children adds what the walks over each of them do. -/
theorem tallied_children {ps : List (Slot × Tree)} (h : ∀ p ∈ ps, p.2.Tallied) :
    ∃ marks types, (ps.flatMap fun p => p.2.tally) = Script.acts marks ∧
      types.Perm (ps.flatMap fun p => p.2.typesBelow) ∧
      Statistics.Adds marks ⟨types, ps.flatMap fun p => p.2.sectionNames,
        (ps.map fun p => p.2.nesting).foldr max 0, (ps.map fun p => p.2.plainWordCount).sum⟩ := by
  induction ps with
  | nil => exact ⟨[], [], rfl, .nil, Statistics.adds_nil⟩
  | cons p ps ih =>
    obtain ⟨hfirst, hrest⟩ := List.forall_mem_cons.mp h
    obtain ⟨marks, types, htally, hperm, hadds⟩ := hfirst
    obtain ⟨more, others, htallies, hperms, haddsAll⟩ := ih hrest
    refine ⟨marks ++ more, types ++ others, ?_, ?_, hadds.append haddsAll⟩
    · rw [List.flatMap_cons, htally, htallies, Script.acts_append]
    · rw [List.flatMap_cons]
      exact hperm.append hperms

/-- The children of a node and what stands under them are what stands under the node. -/
theorem typesBelow_perm (t : Tree) :
    ((t.slots.map fun p => p.2.typeName) ++ t.slots.flatMap fun p => p.2.typesBelow).Perm t.typesBelow := by
  rw [List.map_eq_flatMap]
  refine (List.flatMap_append_perm _ _ _).trans (List.Perm.of_eq ?_)
  rw [typesBelow]
  congr 1
  funext p
  exact (map_typeName_occurrences p.2).symm

theorem plainText?_of_section {name : Datum} (h : t.sectionName? = some name) : t.plainText? = none := by
  fun_induction sectionName? t with
  | case1 => rfl
  | case2 f node ih => exact ih h
  | case3 => cases h

theorem adds_ownMarks (t : Tree) :
    Statistics.Adds t.ownMarks ⟨[], [], 0, (t.plainText?.map Text.wordCount).getD 0⟩ := by
  rw [ownMarks]
  cases t.plainText? with
  | none => exact Statistics.adds_nil
  | some text => exact Statistics.adds_words _

/-- The walk over a tree adds what occurs in it. -/
theorem tallied (h : ∀ s ∈ t.occurrences, s.Countable) : t.Tallied := by
  induction t using slots_induction with
  | step t ih =>
    obtain ⟨own, inner⟩ := (forall_occurrences_iff t).mp h
    obtain ⟨marks, types, htally, hperm, hadds⟩ := tallied_children fun p hp => ih p hp (inner p hp)
    let names := t.slots.map fun p => p.2.typeName
    have htypes : (names ++ types).Perm t.typesBelow := (hperm.append_left names).trans t.typesBelow_perm
    have hcounted : t.countedMarks = names.map .counted := List.map_map.symm
    have hinner : t.innerTally = Script.acts marks := htally
    cases hname : t.sectionName? with
    | some name =>
      have htree : t.tally = Script.acts
          (.named name :: names.map .counted ++ .entered :: marks ++ [.left]) := by
        rw [tally_section own hname, hinner, hcounted]
        simp [Script.acts]
      have hnames : t.sectionNames = name :: ([] ++ t.slots.flatMap fun p => p.2.sectionNames) := by
        rw [sectionNames_eq, hname]
        rfl
      have hheight : t.nesting = (t.slots.map fun p => p.2.nesting).foldr max 0 + 1 := by
        rw [nesting_eq, Nat.add_comm]
        simp [sectionsOn, hname]
      have hwords : t.plainWordCount = 0 + (t.slots.map fun p => p.2.plainWordCount).sum := by
        rw [plainWordCount_eq, plainText?_of_section hname]
        rfl
      refine ⟨_, names ++ types, htree, htypes, ?_⟩
      rw [hnames, hheight, hwords]
      exact (Statistics.adds_counted names).within hadds rfl name
    | none =>
      have htree : t.tally = Script.acts (t.ownMarks ++ names.map .counted ++ marks) := by
        rw [tally_other own hname, hinner, hcounted, ← Script.acts_append]
      have hnames : t.sectionNames = [] ++ [] ++ t.slots.flatMap fun p => p.2.sectionNames := by
        rw [sectionNames_eq, hname]
        rfl
      have hheight : t.nesting = max (max 0 0) ((t.slots.map fun p => p.2.nesting).foldr max 0) := by
        rw [nesting_eq]
        simp [sectionsOn, hname]
      refine ⟨_, [] ++ names ++ types, htree, htypes, ?_⟩
      rw [hnames, hheight, plainWordCount_eq]
      exact (t.adds_ownMarks.append (Statistics.adds_counted names)).append hadds

/-- To start with, the tree itself is counted. -/
theorem ofTree_eq (h : ∀ s ∈ t.occurrences, s.Countable) :
    ∃ types : List String, types.Perm (t.occurrences.map typeName) ∧
      Statistics.ofTree t =
        .start (Statistics.empty.add ⟨types, t.sectionNames, t.nesting, t.plainWordCount⟩) := by
  obtain ⟨marks, types, htally, hperm, hadds⟩ := tallied h
  have hall : t.counted :: t.tally = Script.acts (.counted t.typeName :: marks) := by
    rw [htally]
    rfl
  refine ⟨t.typeName :: types, ?_, ?_⟩
  · rw [map_typeName_occurrences]
    exact hperm.cons t.typeName
  · rw [Statistics.ofTree, Statistics.recordAll, hall, Script.fold_acts, List.foldl_cons, hadds _ (le_refl 0)]
    rfl

/-- The statistics of a tree of nodes tell how often each type occurs in it, and of no other type, the names
of its sections in order, how many sections lie on one way down at most, and how many words its plain texts
have. -/
theorem ofTree_reference (h : ∀ s ∈ t.occurrences, s.Countable) :
    let p := Statistics.ofTree t
    p.fault = none ∧ (p.state.counts.map Prod.fst).Nodup ∧
      (∀ name n, (name, n) ∈ p.state.counts ↔
        n = t.occurrences.countP (fun s => s.typeName = name) ∧ 0 < n) ∧
      p.state.sectionNames = t.occurrences.filterMap sectionName? ∧
      IsGreatest {n | ∃ path, t.Path path ∧ sectionsOn path = n} p.state.maxDepth ∧
      p.state.words = ((t.occurrences.filterMap plainText?).map fun text => (Text.words text).length).sum := by
  obtain ⟨types, hperm, hstate⟩ := ofTree_eq h
  have hcount (name : String) :
      types.count name = t.occurrences.countP (fun s => s.typeName = name) := by
    rw [hperm.count_eq, List.count, List.countP_map]
    rfl
  have hdepth : max 0 (0 + t.nesting) = t.nesting := by omega
  intro p
  rw [show p = _ from hstate]
  refine ⟨rfl, (Statistics.tidy_bumpAll_nil types).1, ?_, rfl, ?_, Nat.zero_add _⟩
  · intro name n
    rw [← hcount]
    exact Statistics.mem_bumpAll_nil types name n
  · change IsGreatest _ (max 0 (0 + t.nesting))
    rw [hdepth]
    exact t.isGreatest_nesting

theorem ofTree_reference_nested :
    let t := document (.standard .article) (preamble none none .listed [preambleLine "%"]) .listed
      [sectioning (.text "One") .listed
        [paragraph .listed [plain "two words"], sectioning (.text "Two") .listed []]]
    let p := Statistics.ofTree t
    (∀ s ∈ t.occurrences, s.Countable) ∧ p.state.counts.lookup "Section" = some 2 ∧ p.state.words = 2 ∧
      p.fault = none ∧ (p.state.counts.map Prod.fst).Nodup ∧
      (∀ name n, (name, n) ∈ p.state.counts ↔
        n = t.occurrences.countP (fun s => s.typeName = name) ∧ 0 < n) ∧
      p.state.sectionNames = t.occurrences.filterMap sectionName? ∧
      IsGreatest {n | ∃ path, t.Path path ∧ sectionsOn path = n} p.state.maxDepth ∧
      p.state.words =
        ((t.occurrences.filterMap plainText?).map fun text => (Text.words text).length).sum := by
  intro t p
  have hleaf {u : Tree} (leaf : u.slots = []) (own : u.Countable) : ∀ s ∈ u.occurrences, s.Countable :=
    forall_occurrences_leaf leaf own
  have hone {u : Tree} {q : Slot × Tree} (only : u.slots = [q]) (own : u.Countable)
      (h : ∀ s ∈ q.2.occurrences, s.Countable) : ∀ s ∈ u.occurrences, s.Countable := by
    rw [forall_occurrences_iff, only]
    exact ⟨own, List.forall_mem_singleton.mpr h⟩
  have hfront := hone (u := preamble none none .listed [preambleLine "%"]) rfl rfl (hleaf rfl rfl)
  have hcountable : ∀ s ∈ t.occurrences, s.Countable := by
    refine (forall_occurrences_iff t).mpr ⟨rfl, List.forall_mem_cons.mpr ⟨hfront, ?_⟩⟩
    refine List.forall_mem_singleton.mpr ((forall_occurrences_iff _).mpr ⟨rfl, List.forall_mem_cons.mpr ⟨?_, ?_⟩⟩)
    · exact hone rfl rfl (hleaf rfl rfl)
    · exact List.forall_mem_singleton.mpr (hleaf rfl rfl)
  exact ⟨hcountable, by decide, by decide, ofTree_reference hcountable⟩

end Tree

end Manuscript
