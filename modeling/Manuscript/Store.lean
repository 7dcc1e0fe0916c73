import Manuscript.Supply
/-!
# Stores

Containers and objects live in a store and are known by references, so that one of them can sit in several
places and a change through one reference shows through all. A reference is given out once, in ascending
order, and never taken back.
-/
namespace Manuscript

/-- What a variable, a field or a place in a container holds. -/
inductive Value
  | atom (a : Atom)
  | ref (r : Ref)
  deriving DecidableEq, Repr

/-- An iterator holds the items that it has not given yet. An object may carry other attributes behind its
fields. -/
inductive Cell
  | sequence (shape : Shape) (items : List Value)
  | iterator (items : List Value)
  | dict (entries : List (Value × Value))
  | object (kind : Kind) (fields : List (String × Value))
  deriving DecidableEq, Repr

/-- `identities` counts the identities given out, to values that would otherwise look alike. -/
structure Store where
  cells : Array Cell
  identities : Nat
  deriving Repr

namespace Value

def none : Value := atom .none
def text (s : String) : Value := atom (.text s)
def bool (b : Bool) : Value := atom (.bool b)
def int (i : Int) : Value := atom (.int i)

def ref? : Value → Option Ref
  | ref r => some r
  | atom _ => Option.none

/-- The integer that a whole number or a truth value stands for. -/
def asInt? : Value → Option Int
  | atom a => a.asInt?
  | ref _ => Option.none

end Value

namespace Cell

/-- The values in a cell, in order. -/
def values : Cell → List Value
  | sequence _ items | iterator items => items
  | dict entries => entries.flatMap fun e => [e.1, e.2]
  | object _ fields => fields.map (·.2)

def mapValues (f : Value → Value) : Cell → Cell
  | sequence shape items => sequence shape (items.map f)
  | iterator items => iterator (items.map f)
  | dict entries => dict (entries.map fun e => (f e.1, f e.2))
  | object kind fields => object kind (fields.map fun e => (e.1, f e.2))

/-- The references in a cell. -/
def refs (c : Cell) : List Ref := c.values.filterMap Value.ref?

@[simp] theorem values_mapValues (f : Value → Value) (c : Cell) :
    (c.mapValues f).values = c.values.map f := by
  cases c <;> simp [mapValues, values, List.map_flatMap, List.flatMap_map]

end Cell

namespace Store

def empty : Store := ⟨#[], 0⟩

def cell? (s : Store) (r : Ref) : Option Cell := s.cells[r.index]?

/-- Gives out a new reference to a cell. -/
def alloc (s : Store) (c : Cell) : Store × Value :=
  ({ s with cells := s.cells.push c }, .ref ⟨s.cells.size⟩)

/-- Changes the cell of a reference. -/
def put (s : Store) (r : Ref) (c : Cell) : Store := { s with cells := s.cells.setIfInBounds r.index c }

/-- Gives out a new identity. -/
def mint (s : Store) : Store × Nat := ({ s with identities := s.identities + 1 }, s.identities)

theorem cell?_alloc (s : Store) (c : Cell) (r : Ref) (h : r.index < s.cells.size) :
    (s.alloc c).1.cell? r = s.cell? r := by
  simp [alloc, cell?, Array.getElem?_push, Nat.ne_of_lt h]

theorem cell?_put_of_ne (s : Store) (r q : Ref) (c : Cell) (h : q ≠ r) :
    (s.put r c).cell? q = s.cell? q := by
  have : r.index ≠ q.index := fun e => h (by cases q; cases r; simp_all)
  simp [put, cell?, this]

theorem cell?_put_self (s : Store) (r : Ref) (c : Cell) (h : r.index < s.cells.size) :
    (s.put r c).cell? r = some c := by
  simp [put, cell?, h]

/-- The cell that a value refers to. -/
def target? (s : Store) (v : Value) : Option Cell := v.ref?.bind s.cell?

def kind? (s : Store) (v : Value) : Option Kind :=
  match s.target? v with
  | some (.object kind _) => some kind
  | _ => none

def typeName (s : Store) (v : Value) : String :=
  match v with
  | .atom a => a.typeName
  | .ref r =>
    match s.cell? r with
    | some (.sequence shape _) => shape.typeName
    | some (.iterator _) => "list_iterator"
    | some (.dict _) => "dict"
    | some (.object kind _) => kind.name
    | none => "NoneType"

/-- The fault of looking for an attribute that a value does not have. -/
def lacking (s : Store) (v : Value) (name : String) : Fault :=
  match v with
  | .atom a => (Datum.atom a).lacking name
  | v => .noAttribute (.value (s.typeName v)) name

/-- The value of a field of an object. -/
def field? (s : Store) (v : Value) (name : String) : Option Value :=
  match s.target? v with
  | some (.object _ fields) => fields.lookup name
  | _ => none

/-- An attribute of a value: a field of an object, or a standard value that a class carries. -/
def attribute? (s : Store) (v : Value) (name : String) : Option Value :=
  match v with
  | .atom (.classRef className) => (Class.attribute? className name).map .atom
  | v => s.field? v name

/-- Gives a field of an object a new value. A name that the object does not have is added to it. -/
def setField (s : Store) (v : Value) (name : String) (new : Value) : Store :=
  match v with
  | .ref r =>
    match s.cell? r with
    | some (.object kind fields) =>
      let changed :=
        if fields.any (·.1 == name) then
          fields.map fun e => if e.1 = name then (name, new) else e
        else fields ++ [(name, new)]
      s.put r (.object kind changed)
    | _ => s
  | .atom _ => s

/-- Puts other items into a list. -/
def setItems (s : Store) (list : Value) (f : List Value → List Value) : Store :=
  match list with
  | .ref r =>
    match s.cell? r with
    | some (.sequence .list items) => s.put r (.sequence .list (f items))
    | _ => s
  | .atom _ => s

/-- Adds values at the end of a list. -/
def extend (s : Store) (list : Value) (new : List Value) : Store := s.setItems list (· ++ new)

def newList (s : Store) (items : List Value) : Store × Value := s.alloc (.sequence .list items)

def newObject (s : Store) (kind : Kind) (fields : List (String × Value)) : Store × Value :=
  s.alloc (.object kind fields)

/-- The datum that a value stands for, looking up references at most `depth` deep. Of an object it has the
fields of its kind only. -/
def datumTo (s : Store) : Nat → Value → Datum
  | _, .atom a => .atom a
  | 0, .ref _ => .none
  | depth + 1, .ref r =>
    match s.cell? r with
    | some (.sequence shape items) => .sequence shape (items.map (s.datumTo depth))
    | some (.iterator _) => .iterator r
    | some (.dict entries) =>
      .dict (entries.map fun e => (s.datumTo depth e.1, s.datumTo depth e.2))
    | some (.object kind fields) =>
      .object kind
        ((fields.filter fun e => kind.fields.contains e.1).map fun e => (e.1, s.datumTo depth e.2))
    | none => .none

/-- A chain of references through a store without cycles is no longer than the store has cells. -/
def depth (s : Store) : Nat := s.cells.size

def datum (s : Store) (v : Value) : Datum := s.datumTo s.depth v

/-- The type of the first value, among one and all that it is made of, that keeps it from being a key.
References are looked up at most `depth` deep. -/
def unhashableTo (s : Store) : Nat → Value → Option String
  | _, .atom _ => none
  | 0, .ref _ => none
  | depth + 1, .ref r =>
    match s.cell? r with
    | some (.sequence .tuple items) => items.findSome? (s.unhashableTo depth)
    | some (.object kind fields) =>
      if kind.isFrozen then
        (fields.filter fun e => kind.fields.contains e.1).findSome? fun e => s.unhashableTo depth e.2
      else some kind.name
    | some (.iterator _) => none
    | some (.sequence .list _) => some "list"
    | some (.dict _) => some "dict"
    | none => none

/-- Whether a value can be a key. -/
def checkKey (s : Store) (v : Value) : Except Fault Unit :=
  match s.unhashableTo s.depth v with
  | some typeName => .error (.unhashable typeName)
  | none => .ok ()

/-- Entries with one value for each key, the last one, at the place of the first. -/
def mergedEntries (s : Store) : List (Value × Value) → List (Value × Value)
  | [] => []
  | (k, v) :: es =>
    let again (e : Value × Value) : Bool := (s.datum e.1).sameItem (s.datum k)
    let rest := s.mergedEntries es
    (k, ((rest.find? again).map (·.2)).getD v) :: rest.filter (!again ·)

def newDict (s : Store) (entries : List (Value × Value)) : Store × Value :=
  s.alloc (.dict (s.mergedEntries entries))

/-- Gives a key of a dictionary a value. -/
def setEntry (s : Store) (dict key new : Value) : Store :=
  match dict with
  | .ref r =>
    match s.cell? r with
    | some (.dict entries) => s.put r (.dict (s.mergedEntries (entries ++ [(key, new)])))
    | _ => s
  | .atom _ => s

/-- The items that an atom gives: the characters of a text, bytes as numbers, the members of an
enumeration. -/
def atomItems? (a : Atom) : Option (List Value) :=
  match a with
  | .bytes bs => some (bs.map fun b => .int b.toNat)
  | .classRef name => (Class.enumeration? name).map fun e => e.members.map fun m => .atom (.member m)
  | a => a.asText?.map fun text => text.toList.map fun c => .text (String.singleton c)

/-- How a value gives items, and the items, looking up references at most `depth` deep. A dictionary gives
its keys, an object the items of one of its fields. -/
def supplyTo (s : Store) : Nat → Value → Supply × List Value
  | _, .atom a =>
    match atomItems? a with
    | some items => (.listed, items)
    | none => (.missing a.typeName a.typeName a.isTrue, [])
  | 0, .ref _ => (.listed, [])
  | depth + 1, .ref r =>
    match s.cell? r with
    | some (.sequence _ items) => (.listed, items)
    | some (.dict entries) => (.listed, entries.map (·.1))
    | some (.iterator items) => (.unsized "list_iterator" (some r), items)
    | some (.object kind fields) =>
      match kind.itemField?.bind fun name => fields.lookup name with
      | none => (.missing kind.name kind.name true, [])
      | some field =>
        match s.supplyTo depth field with
        | (.listed, items) => (.unsized kind.name none, items)
        | (.unsized _ source, items) => (.unsized kind.name source, items)
        | (.missing _ innermost _, items) => (.missing kind.name innermost true, items)
    | none => (.listed, [])

def supply (s : Store) (v : Value) : Supply × List Value := s.supplyTo s.depth v

/-- The store after an iterator has given its next item. -/
def taking (s : Store) (source : Ref) : Store :=
  match s.cell? source with
  | some (.iterator items) => s.put source (.iterator items.tail)
  | _ => s

/-- The store after iterators have given an item for each time that they are listed. -/
def takingAll (s : Store) (taken : List Ref) : Store := taken.foldl taking s

end Store

end Manuscript
