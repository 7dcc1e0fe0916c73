import Manuscript.Fault
/-!
# Order of values

Numbers are compared by their values, texts by their characters, byte strings by their bytes, paths by
their parts, and sequences of one form by the first items in which they differ. No other values can be
compared. On whole numbers this is their usual order.
-/
namespace Manuscript

namespace Relation

/-- Whether two things that stand in an order are in the relation. -/
def holds (r : Relation) (order : Ordering) : Bool :=
  match r with
  | less => order == .lt
  | atMost => order != .gt
  | greater => order == .gt

end Relation

namespace Atom

/-- The order of two lists by the first items in which they differ. A list comes before its extensions. -/
def listOrder {α : Type} (order : α → α → Ordering) : List α → List α → Ordering
  | [], [] => .eq
  | [], _ :: _ => .lt
  | _ :: _, [] => .gt
  | x :: xs, y :: ys => (order x y).then (listOrder order xs ys)

def quantityOrder (p q : Quantity) : Ordering :=
  if p.less q then .lt else if q.less p then .gt else .eq

def charOrder (c d : Char) : Ordering := compare c.toNat d.toNat

def textOrder (s t : String) : Ordering := listOrder charOrder s.toList t.toList

/-- Whether a number stands in no order because it has no value. -/
def isUnordered (x y : Atom) : Bool :=
  match x, y with
  | nan _, nan _ => true
  | nan _, y => y.quantity?.isSome
  | x, nan _ => x.quantity?.isSome
  | _, _ => false

/-- The order of two atoms of kinds that are put in order. -/
def order? (x y : Atom) : Option Ordering :=
  match x.quantity?, y.quantity?, x.asText?, y.asText? with
  | some p, some q, _, _ => some (quantityOrder p q)
  | _, _, some s, some t => some (textOrder s t)
  | _, _, _, _ =>
    match x, y with
    | bytes bs, bytes cs => some (listOrder (fun b c => compare b.toNat c.toNat) bs cs)
    | path p, path q => some (listOrder textOrder (Path.parts p) (Path.parts q))
    | _, _ => Option.none

def compared (r : Relation) (x y : Atom) : Except Fault Bool :=
  match x.order? y with
  | some order => .ok (r.holds order)
  | Option.none =>
    if x.isUnordered y then .ok false else .error (.notOrdered r x.typeName y.typeName)

theorem compared_int (r : Relation) (i j : Int) :
    compared r (.int i) (.int j) = .ok (r.holds (quantityOrder (.ofInt i) (.ofInt j))) := rfl

theorem compared_less_int (i j : Int) : compared .less (.int i) (.int j) = .ok (decide (i < j)) := by
  rw [compared_int]
  unfold Relation.holds quantityOrder
  by_cases h : i < j <;> by_cases g : j < i <;> simp [h, g]

theorem compared_greater_int (i j : Int) :
    compared .greater (.int i) (.int j) = .ok (decide (j < i)) := by
  rw [compared_int]
  unfold Relation.holds quantityOrder
  by_cases h : i < j
  · simp [h, Int.not_lt.mpr (Int.le_of_lt h)]
  · by_cases g : j < i <;> simp [h, g]

theorem compared_atMost_int (i j : Int) :
    compared .atMost (.int i) (.int j) = .ok (decide (i ≤ j)) := by
  rw [compared_int]
  unfold Relation.holds quantityOrder
  by_cases h : i < j
  · simp [h, Int.le_of_lt h]
  · by_cases g : j < i
    · simp [h, g]
    · simp [h, g, Int.not_lt.mp g]

end Atom

namespace Datum

mutual
/-- Whether a relation holds between two data. -/
def compared (r : Relation) : Datum → Datum → Except Fault Bool
  | atom a, atom b => a.compared r b
  | sequence .list xs, sequence .list ys => itemsCompared r xs ys
  | sequence .tuple xs, sequence .tuple ys => itemsCompared r xs ys
  | x, y => .error (.notOrdered r x.typeName y.typeName)

/-- Whether a relation holds between two lists of items. -/
def itemsCompared (r : Relation) : List Datum → List Datum → Except Fault Bool
  | [], [] => .ok (r.holds .eq)
  | [], _ :: _ => .ok (r.holds .lt)
  | _ :: _, [] => .ok (r.holds .gt)
  | x :: xs, y :: ys => if x.sameItem y then itemsCompared r xs ys else compared r x y
end

end Datum

end Manuscript
