import Manuscript.Kind
/-!
# Violations of the composition rules

What can be wrong with the way a document is composed, and how it is reported.
-/
namespace Manuscript

/-- What a misplaced child was found in: a document, or a section by the literal of its name. -/
inductive Holder
  | document
  | sectioning (nameLiteral : String)
  deriving DecidableEq, Repr

def Holder.text : Holder → String
  | document => "Document"
  | sectioning nameLiteral => "Section " ++ nameLiteral

/-- A breach of a composition rule, with the type of what was found and its position in its list. The
columns that a row records are held by their text. -/
inductive Violation
  | notPreamble (typeName : String)
  | notPreambleEntry (index : Nat) (typeName : String)
  | notBlock (holder : Holder) (index : Nat) (typeName : String)
  | notInline (index : Nat) (typeName : String)
  | wrapsNoInline (wrapper : Kind) (typeName : String)
  | notEquation (index : Nat) (typeName : String)
  | notItem (index : Nat) (typeName : String)
  | notRow (index : Nat) (typeName : String)
  | tooManyCells (index cells : Nat) (columns : String)
  deriving DecidableEq, Repr

def Violation.message : Violation → String
  | notPreamble t => "Document preamble must be a Preamble, got " ++ t
  | notPreambleEntry i t => "Preamble element " ++ toString i ++ " is " ++ t
  | notBlock holder i t =>
    holder.text ++ " can only contain block elements, but child " ++ toString i ++ " is " ++ t
  | notInline i t =>
    "Paragraph can only contain inline nodes, but child " ++ toString i ++ " is " ++ t
  | wrapsNoInline wrapper t => wrapper.name ++ " must wrap an inline node, got " ++ t
  | notEquation i t => "Align equation " ++ toString i ++ " is " ++ t
  | notItem i t => "List item " ++ toString i ++ " is " ++ t
  | notRow i t => "Table row " ++ toString i ++ " is " ++ t
  | tooManyCells i cells columns =>
    "Table row " ++ toString i ++ " has " ++ toString cells ++ " cells but records " ++
      columns ++ " columns"

end Manuscript
