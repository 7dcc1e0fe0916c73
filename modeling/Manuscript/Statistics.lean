import Manuscript.Script
import Manuscript.Text.Blank
import Manuscript.Tree
/-!
# Statistics

How many nodes of each type a tree holds, the names of its sections in order, how deep they are nested, and
how many words its plain text has. A walk adds to what earlier walks have left. A walk that meets a value
that is not a node ends there, with all that was recorded until then, and with the nesting it started from.
-/
namespace Manuscript

/-- `counts` has one entry for every type that was counted, in the order of first occurrence. -/
structure Statistics where
  counts : List (String × Nat)
  sectionNames : List Datum
  maxDepth : Nat
  words : Nat
  depth : Nat

namespace Statistics

def empty : Statistics := ⟨[], [], 0, 0, 0⟩

/-- Adds one to the entry of a name. -/
def bump (name : String) : List (String × Nat) → List (String × Nat)
  | [] => [(name, 1)]
  | (key, n) :: rest => if key = name then (key, n + 1) :: rest else (key, n) :: bump name rest

/-- The number that was counted for a name. -/
def countOf (name : String) (counts : List (String × Nat)) : Nat := (counts.lookup name).getD 0

/-- What a walk records. A section is named before its children are counted, and entered after that. -/
inductive Mark
  | counted (typeName : String)
  | named (name : Datum)
  | entered
  | left
  | words (n : Nat)
  deriving DecidableEq, Repr

def record (s : Statistics) : Mark → Statistics
  | .counted typeName => { s with counts := bump typeName s.counts }
  | .named name => { s with sectionNames := s.sectionNames ++ [name] }
  | .entered => { s with depth := s.depth + 1, maxDepth := max s.maxDepth (s.depth + 1) }
  | .left => { s with depth := s.depth - 1 }
  | .words n => { s with words := s.words + n }

theorem countOf_cons (other key : String) (n : Nat) (rest : List (String × Nat)) :
    countOf other ((key, n) :: rest) = if other = key then n else countOf other rest := by
  by_cases h : other = key <;> simp [countOf, List.lookup_cons, h, beq_eq_false_iff_ne.mpr]

theorem countOf_bump (name other : String) (counts : List (String × Nat)) :
    countOf other (bump name counts) = countOf other counts + if other = name then 1 else 0 := by
  induction counts with
  | nil =>
    rw [bump, countOf_cons]
    simp [countOf]
  | cons entry rest ih =>
    obtain ⟨key, n⟩ := entry
    by_cases h : key = name
    · subst h
      by_cases ho : other = key <;> simp [bump, countOf_cons, ho]
    · by_cases ho : other = key <;> simp_all [bump, countOf_cons]

end Statistics

abbrev Tally := Script Statistics.Mark

namespace Tree

open Statistics

/-- Counts a tree. -/
def counted (t : Tree) : Step Mark := .act (.counted t.typeName)

/-- Counts each tree of a supply. -/
def countedAll (supply : Supply) (ts : List Tree) : Tally := supply.each (ts.map fun t => [t.counted]) []

/-- The words of a plain run. Bytes have words of their own, and other values none at all. -/
def plainWords : Datum → Step Mark
  | .atom (.bytes bs) => .act (.words (Text.byteWordCount bs))
  | value =>
    match value.asText? with
    | some text => .act (.words (Text.wordCount text))
    | none => .halt (value.lacking "split")

mutual
/-- The walk over one tree. The children of a node are counted before the walk goes down to them. -/
def tally : Tree → Tally
  | document _ front supply elements =>
    front.counted :: countedAll supply elements ++ tally front ++ supply.each (tallyAll elements) []
  | preamble _ _ supply elements => countedAll supply elements ++ supply.each (tallyAll elements) []
  | sectioning name supply elements =>
    .act (.named name) :: countedAll supply elements ++
      .act .entered :: supply.each (tallyAll elements) [] ++ [.act .left]
  | paragraph supply content => countedAll supply content ++ supply.each (tallyAll content) []
  | bold content => content.counted :: tally content
  | italic content => content.counted :: tally content
  | align supply equations => countedAll supply equations ++ supply.each (tallyAll equations) []
  | list _ supply items _ => countedAll supply items ++ supply.each (tallyAll items) []
  | table supply rows _ _ => countedAll supply rows ++ supply.each (tallyAll rows) []
  | plain text => [.act (.words (Text.wordCount text))]
  | foreign value => [.halt value.notWalked]
  | misfit (.plain value) => [plainWords value]
  | blocked _ node => tally node
  | _ => []

/-- The walk over each tree of a list. -/
def tallyAll : List Tree → List Tally
  | [] => []
  | t :: ts => tally t :: tallyAll ts
end

end Tree

namespace Statistics

/-- Carries out a tally. A fault leaves no section open that was entered on the way to it. -/
def recordAll (s : Statistics) (tally : Tally) : Progress Statistics :=
  let p := tally.fold record s
  { p with state := { p.state with depth := s.depth } }

/-- The statistics after a walk over a tree. -/
def walk (s : Statistics) (t : Tree) : Progress Statistics := s.recordAll t.tally

/-- The statistics of a tree, its root included. -/
def ofTree (t : Tree) : Progress Statistics := empty.recordAll (t.counted :: t.tally)

end Statistics

end Manuscript
