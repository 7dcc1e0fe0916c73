import Manuscript.Fault
/-!
# Supplies

How a field gives the items of a node, when one goes through it. A list can be gone through again and again,
and its items can be counted beforehand. Other values give items but cannot say how many, and some of them
give each item only once. All others give nothing: to go through them is a fault.
-/
namespace Manuscript

/-- `unsized` values have a source if they give their items only once, namely the iterator that the items
are taken from. A `missing` supply is that of a value without items: `innermost` is the type of what stands
in the place of items in the end, and `counts` tells whether the value counts as true. -/
inductive Supply
  | listed
  | unsized (typeName : String) (source : Option Ref)
  | missing (typeName innermost : String) (counts : Bool)
  deriving DecidableEq, Repr

namespace Supply

/-- Whether a supply of some number of items counts as true. -/
def counts (s : Supply) (items : Nat) : Bool :=
  match s with
  | listed => items != 0
  | unsized _ _ => true
  | missing _ _ counts => counts

/-- The number of items, if it can be told without going through them. -/
def length (s : Supply) (items : Nat) : Except Fault Nat :=
  match s with
  | listed => .ok items
  | unsized typeName _ | missing typeName _ _ => .error (.noLength typeName)

@[simp] theorem counts_listed (n : Nat) : listed.counts n = (n != 0) := rfl

@[simp] theorem length_listed (n : Nat) : listed.length n = .ok n := rfl

end Supply

end Manuscript
