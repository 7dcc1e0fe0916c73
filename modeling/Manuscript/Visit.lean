import Manuscript.Script
import Manuscript.Tree
/-!
# Visits

A visit goes through a tree in document order and leaves a trace. Every visitor goes the same way, by the
default walk; visitors differ in the methods they have of their own, that is in what they record on the way
and in whether they go down into sections.
-/
namespace Manuscript

/-- What a visitor records where a method of its own is called: at a node without children, at a plain run,
at a section, and at a child of a document or a section before going on to the child. A plain run is a node
without children like all others, unless there is a method for it. `answer` is what the visitor gives back
for a node that it does not go down into. -/
structure Visitor where
  atLeaf : Tree → List Datum := fun _ => []
  atPlain : Tree → List Datum := atLeaf
  atSection : Tree → List Datum := fun _ => []
  atElement : Tree → List Datum := fun _ => []
  entersSections : Bool := true
  answer : Tree → Datum := fun _ => .none

namespace Tree

def typeNote (t : Tree) : List Datum := [.text t.typeName]

/-- The value of a plain run, a text or another one. -/
def plainNote : Tree → List Datum
  | plain text => [.text text]
  | misfit (.plain value) => [value]
  | _ => []

def sectionNote : Tree → List Datum
  | sectioning name _ _ => [name]
  | _ => []

end Tree

namespace Visitor

/-- Records nothing. -/
def none : Visitor := {}

/-- Records the type of every node without children. -/
def leaves : Visitor := { atLeaf := Tree.typeNote, answer := fun t => .text t.typeName }

/-- Records the type of every node without children, and of a section in place of what is in it. -/
def outside : Visitor :=
  { atLeaf := Tree.typeNote, atSection := Tree.typeNote, entersSections := false,
    answer := fun t => .text t.typeName }

/-- Records the texts of plain runs. -/
def plainTexts : Visitor := { atPlain := Tree.plainNote }

/-- Records the names of sections. -/
def sections : Visitor := { atSection := Tree.sectionNote }

/-- Records the types of the children of documents and sections. -/
def elements : Visitor := { atElement := Tree.typeNote }

end Visitor

namespace Tree

mutual
/-- The walk of a visitor over a tree. -/
def visit (v : Visitor) : Tree → Script Datum
  | document _ front supply elements => visit v front ++ supply.each (visitElements v elements) []
  | sectioning name supply elements =>
    Script.acts (v.atSection (sectioning name supply elements)) ++
      if v.entersSections then supply.each (visitElements v elements) [] else []
  | preamble _ _ supply elements => supply.each (visitAll v elements) []
  | paragraph supply content => supply.each (visitAll v content) []
  | bold content => visit v content
  | italic content => visit v content
  | align supply equations => supply.each (visitAll v equations) []
  | list _ supply items _ => supply.each (visitAll v items) []
  | table supply rows _ _ => supply.each (visitAll v rows) []
  | plain text => Script.acts (v.atPlain (plain text))
  | misfit (.plain value) => Script.acts (v.atPlain (misfit (.plain value)))
  | foreign value => [.halt value.notWalked]
  | blocked _ node => visit v node
  | leaf => Script.acts (v.atLeaf leaf)

/-- The walk over each tree of a list. -/
def visitAll (v : Visitor) : List Tree → List (Script Datum)
  | [] => []
  | t :: ts => visit v t :: visitAll v ts

/-- The walk over each child of a document or a section. -/
def visitElements (v : Visitor) : List Tree → List (Script Datum)
  | [] => []
  | t :: ts => (Script.acts (v.atElement t) ++ visit v t) :: visitElements v ts
end

/-- Carries out a visit: its trace, and the fault that ended it. -/
def traced (v : Visitor) (t : Tree) : Progress (List Datum) :=
  (t.visit v).fold (fun trace d => trace ++ [d]) []

/-- What a visit that reaches its end gives back. There is no answer for a node that the visitor goes down
into. -/
def visitAnswer (v : Visitor) (t : Tree) : Datum :=
  let holds := match t.kind? with
    | some .document | some .preamble | some .paragraph | some .bold | some .italic | some .align
    | some .list | some .table => true
    | some .sectioning => v.entersSections
    | _ => false
  if holds then .none else v.answer t

end Tree

end Manuscript
