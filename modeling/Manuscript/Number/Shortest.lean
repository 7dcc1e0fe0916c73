import Manuscript.Number.Double
/-!
# Shortest decimal text

The decimal digits of a finite number are the fewest that single it out among all numbers of the format,
and the nearest to it of that many. `nearby` finds them in exact arithmetic: on the grid of each digit
count it tries the two points around the number. `Double.text` lays the digits out.
-/
namespace Manuscript.Double

/-- The reals that round to a positive number, everything times four and over one denominator: the
number itself, the lower and the upper end, and whether the ends belong to it. -/
structure Span where
  value : Nat
  lower : Nat
  upper : Nat
  denominator : Nat
  closed : Bool

/-- The span of `significand · 2 ^ exponent`. Below a power of two the format is twice as fine. -/
def span (significand : Nat) (exponent : Int) : Span :=
  let scale := Nat.pow 2 exponent.toNat
  let below := if significand = Nat.pow 2 52 ∧ exponent ≠ -1074 then 1 else 2
  { value := 4 * significand * scale
    lower := (4 * significand - below) * scale
    upper := (4 * significand + 2) * scale
    denominator := 4 * Nat.pow 2 (-exponent).toNat
    closed := significand % 2 = 0 }

/-- Whether `n / d` lies in the span. -/
def Span.has (s : Span) (n d : Nat) : Bool :=
  let low := s.lower * d
  let high := s.upper * d
  let point := n * s.denominator
  if s.closed then low ≤ point && point ≤ high else low < point && point < high

def digits (n : Nat) : List Char := (toString n).toList

/-- The least `p` with `n / d < 10 ^ p`, for a positive fraction. -/
def magnitude (n d : Nat) : Int :=
  let guess : Int := (digits n).length - (digits d).length
  if n * Nat.pow 10 (-guess).toNat < d * Nat.pow 10 guess.toNat then guess else guess + 1

/-- The point `k · 10 ^ place` as a fraction. -/
def gridPoint (k : Nat) (place : Int) : Nat × Nat := (k * Nat.pow 10 place.toNat, Nat.pow 10 (-place).toNat)

/-- The point of the grid `10 ^ place` that stands for the number: of the two points around it the nearer
one that lies in the span, the even one in a tie. -/
def Span.onGrid? (s : Span) (place : Int) : Option Nat :=
  let unit := Nat.pow 10 place.toNat * s.denominator
  let scaled := s.value * Nat.pow 10 (-place).toNat
  let below := scaled / unit
  let past := scaled % unit
  let inside (k : Nat) : Bool := s.has (gridPoint k place).1 (gridPoint k place).2
  match inside below, inside (below + 1) with
  | false, false => none
  | true, false => some below
  | false, true => some (below + 1)
  | true, true =>
    if 2 * past < unit then some below
    else if unit < 2 * past then some (below + 1)
    else if below % 2 = 0 then some below else some (below + 1)

/-- The grid point of the first digit count from `count` on that has one, with its grid. -/
def Span.search (s : Span) (top : Int) : Nat → Nat → Nat × Int
  | 0, count => (s.value / s.denominator, count)
  | fuel + 1, count =>
    match s.onGrid? (top - count) with
    | some k => (k, top - count)
    | none => s.search top fuel (count + 1)

/-- The shortest digits of a positive number `k · 10 ^ place`, without zeros at their end, and the place
of the decimal point, counted from before the first digit. -/
def nearby (significand : Nat) (exponent : Int) : List Char × Int :=
  let s := span significand exponent
  let (k, place) := s.search (magnitude s.value s.denominator) 17 1
  let ds := digits k
  ((ds.reverse.dropWhile (· == '0')).reverse, place + ds.length)

/-- An exponent is written with a sign and at least two digits. -/
def exponentText (e : Int) : String :=
  let ds := digits e.natAbs
  (if e < 0 then "e-" else "e+") ++ String.ofList (List.replicate (2 - ds.length) '0' ++ ds)

/-- Numbers from `10 ^ -4` up to `10 ^ 16` are written positionally, with at least one digit on either
side of the point; all others in scientific notation. -/
def layout (ds : List Char) (point : Int) : String :=
  if -4 < point ∧ point ≤ 16 then
    if point ≤ 0 then "0." ++ String.ofList (List.replicate (-point).toNat '0' ++ ds)
    else
      let whole := ds.take point.toNat
      let rest := ds.drop point.toNat
      String.ofList (whole ++ List.replicate (point.toNat - whole.length) '0') ++ "." ++
        (if rest.isEmpty then "0" else String.ofList rest)
  else
    let tail := ds.drop 1
    String.ofList (ds.take 1) ++ (if tail.isEmpty then "" else "." ++ String.ofList tail) ++
      exponentText (point - 1)

/-- The shortest text that reads back as the number. -/
def text : Double → String
  | infinite negative => if negative then "-inf" else "inf"
  | finite negative significand exponent =>
    let sign := if negative then "-" else ""
    if significand = 0 then sign ++ "0.0"
    else
      let (ds, point) := nearby significand exponent
      sign ++ layout ds point

end Manuscript.Double
