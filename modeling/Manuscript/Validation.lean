import Manuscript.Script
import Manuscript.Tree
/-!
# Validation

A walk over a tree that reports every violation of the composition rules. It goes down only into children
that are in their place. A strict walk stops at the first report; what it has found by then ends with that
report.
-/
namespace Manuscript

abbrev Reports := Script Violation

namespace Tree

/-- A report for each tree of a list for which `violation?` names a violation, by its position. -/
def reports (violation? : Nat → Tree → Option Violation) (ts : List Tree) : List Reports :=
  ts.mapIdx fun i t => ((violation? i t).map Step.act).toList

def blockViolation? (holder : Holder) (i : Nat) (t : Tree) : Option Violation :=
  if t.isBlock then none else some (.notBlock holder i t.typeName)

def entryViolation? (i : Nat) (t : Tree) : Option Violation :=
  if t.isPreambleEntry then none else some (.notPreambleEntry i t.typeName)

def equationViolation? (i : Nat) (t : Tree) : Option Violation :=
  if t.kind? = some .equation then none else some (.notEquation i t.typeName)

def itemViolation? (i : Nat) (t : Tree) : Option Violation :=
  if t.kind? = some .item then none else some (.notItem i t.typeName)

/-- A row must not record fewer columns than it has cells. -/
def rowViolation? (i : Nat) (row : Row) : Option Violation :=
  match row.columns with
  | some n => if n < row.cells.length then some (.tooManyCells i row.cells.length (toString n)) else none
  | none => none

/-- A loose row, whose cells must be counted and compared with what it records. -/
def reportLooseRow (i : Nat) (row : LooseRow) : Reports :=
  if row.columns = .none then []
  else
    match row.supply.length row.cells.length with
    | .error f => [.halt f]
    | .ok cells =>
      match row.columns.compared .less (.int cells) with
      | .error f => [.halt f]
      | .ok true => [.act (.tooManyCells i cells row.columns.printed)]
      | .ok false => []

/-- A row of a table must be a row. -/
def reportRow (i : Nat) : Tree → Reports
  | tableRow row => ((rowViolation? i row).map Step.act).toList
  | misfit (.row row) => reportLooseRow i row
  | t => if t.kind? = some .tableRow then [] else [.act (.notRow i t.typeName)]

mutual
/-- The walk over a tree. The children of documents and sections are all reported before the walk goes down
to them. It cannot start at a value that is not a node. -/
def check : Tree → Reports
  | document _ front supply elements =>
    (if front.kind? = some .preamble then check front else [.act (.notPreamble front.typeName)]) ++
      supply.each (reports (blockViolation? .document) elements) (checkBlocks elements)
  | sectioning name supply elements =>
    supply.each (reports (blockViolation? (.sectioning name.literal)) elements) (checkBlocks elements)
  | paragraph supply content => supply.each (checkInlines 0 content) []
  | bold content =>
    if content.isInline then check content else [.act (.wrapsNoInline .bold content.typeName)]
  | italic content =>
    if content.isInline then check content else [.act (.wrapsNoInline .italic content.typeName)]
  | preamble _ _ supply elements => supply.each (reports entryViolation? elements) []
  | align supply equations => supply.each (reports equationViolation? equations) []
  | list _ supply items _ => supply.each (reports itemViolation? items) []
  | table supply rows _ _ => supply.each (rows.mapIdx reportRow) []
  | foreign value => [.halt value.notWalked]
  | blocked _ node => check node
  | _ => []

/-- The walk over those children that are blocks. -/
def checkBlocks : List Tree → Reports
  | [] => []
  | t :: ts => (if t.isBlock then check t else []) ++ checkBlocks ts

/-- The walk over each child of a paragraph, counted from `i` on. -/
def checkInlines (i : Nat) : List Tree → List Reports
  | [] => []
  | t :: ts =>
    (if t.isInline then check t else [.act (.notInline i t.typeName)]) :: checkInlines (i + 1) ts
end

/-- Carries out the walk: the violations found, and the fault that ended it. A strict walk makes a fault of
the first violation. -/
def validate (strict : Bool) (t : Tree) : Progress (List Violation) :=
  t.check.run (fun found v => (found ++ [v], if strict then some (.violation v) else none)) []

end Tree

end Manuscript
