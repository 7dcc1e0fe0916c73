/-!
# Binary floating-point numbers

A number of the 64-bit binary format, as sign, significand and exponent: a finite number is
`± significand · 2 ^ exponent`. Comparison is exact, and so is addition up to the one rounding at its end.
-/
namespace Manuscript

/-- A number of whatever form: a fraction with a positive denominator, or one of the two infinities. -/
inductive Quantity
  | fraction (numerator : Int) (denominator : Nat)
  | infinite (negative : Bool)
  deriving DecidableEq, Repr

namespace Quantity

def ofInt (i : Int) : Quantity := fraction i 1

def same : Quantity → Quantity → Bool
  | fraction n d, fraction m e => n * e == m * d
  | infinite a, infinite b => a == b
  | _, _ => false

def less : Quantity → Quantity → Bool
  | fraction n d, fraction m e => n * e < m * d
  | fraction _ _, infinite negative => !negative
  | infinite negative, fraction _ _ => negative
  | infinite a, infinite b => a && !b

@[simp] theorem less_ofInt (i j : Int) : (ofInt i).less (ofInt j) = decide (i < j) := by simp [ofInt, less]

end Quantity

inductive Double
  | infinite (negative : Bool)
  | finite (negative : Bool) (significand : Nat) (exponent : Int)
  deriving DecidableEq, Repr

namespace Double

/-- The number that a pattern of 64 bits stands for: a sign bit, eleven exponent bits, and 52 bits of
the significand, whose leading one is left out unless the exponent bits are all zero. Some patterns stand
for no number. -/
def ofBits? (bits : UInt64) : Option Double :=
  let word := bits.toNat
  let negative := word / Nat.pow 2 63 = 1
  let exponent : Nat := word / Nat.pow 2 52 % Nat.pow 2 11
  let fraction := word % Nat.pow 2 52
  if exponent = 2047 then if fraction = 0 then some (infinite negative) else none
  else if exponent = 0 then some (finite negative fraction (-1074))
  else some (finite negative (Nat.pow 2 52 + fraction) ((exponent : Int) - 1075))

def quantity : Double → Quantity
  | infinite negative => .infinite negative
  | finite negative significand exponent =>
    let scaled : Int := (significand * Nat.pow 2 exponent.toNat : Nat)
    .fraction (if negative then -scaled else scaled) (Nat.pow 2 (-exponent).toNat)

def isZero : Double → Bool
  | finite _ 0 _ => true
  | _ => false

/-- The number nearest to `± m · 2 ^ q`, the one with an even significand in a tie. Significands have 53
bits, unless the exponent is the least one. -/
def nearest (negative : Bool) (m : Nat) (q : Int) : Double :=
  let exponent := max (-1074) (q + m.log2 - 52)
  let shift := (exponent - q).toNat
  let unit := Nat.pow 2 shift
  let whole := m * Nat.pow 2 (q - exponent).toNat / unit
  let rest := m * Nat.pow 2 (q - exponent).toNat % unit
  let up := unit < 2 * rest ∨ (unit = 2 * rest ∧ whole % 2 = 1)
  let rounded := if up then whole + 1 else whole
  if rounded = Nat.pow 2 53 then finite negative (Nat.pow 2 52) (exponent + 1)
  else finite negative rounded exponent

/-- One more than a number. -/
def plusOne : Double → Double
  | infinite negative => infinite negative
  | finite negative significand exponent =>
    let q := min exponent 0
    let scaled : Int := (significand * Nat.pow 2 (exponent - q).toNat : Nat)
    let sum := (if negative then -scaled else scaled) + (Nat.pow 2 (-q).toNat : Nat)
    nearest (sum < 0) sum.natAbs q

end Double

end Manuscript
