import Manuscript.Atom
/-!
# Data

A datum is a value with nothing left to look up: an atom, a sequence, a dictionary or an object with the
data of its fields. Only an iterator stays what it is: the place that its items are taken from.
-/
namespace Manuscript

/-- The place of a container or an object in a store. -/
structure Ref where
  index : Nat
  deriving DecidableEq, Repr

/-- The two forms of sequences. -/
inductive Shape
  | list | tuple
  deriving DecidableEq, Repr

def Shape.typeName : Shape → String
  | list => "list"
  | tuple => "tuple"

inductive Datum
  | atom (value : Atom)
  | sequence (shape : Shape) (items : List Datum)
  | iterator (source : Ref)
  | dict (entries : List (Datum × Datum))
  | object (kind : Kind) (fields : List (String × Datum))
  deriving Repr

/-- What a value is called when it lacks an attribute: a value by its type, a class by its own name, and an
enumeration not at all. -/
inductive Owner
  | value (typeName : String)
  | theClass (name : String)
  | enumeration
  deriving DecidableEq, Repr

namespace Datum

instance : Inhabited Datum := ⟨.atom .none⟩

def none : Datum := atom .none
def text (s : String) : Datum := atom (.text s)
def int (i : Int) : Datum := atom (.int i)

mutual
/-- Whether two data are written the same way. -/
def decEq : (x y : Datum) → Decidable (x = y)
  | atom a, atom b => if h : a = b then isTrue (by rw [h]) else isFalse (by simp [h])
  | sequence s xs, sequence t ys =>
    if h : s = t then
      match decEqItems xs ys with
      | isTrue hs => isTrue (by rw [h, hs])
      | isFalse hs => isFalse (by simp [hs])
    else isFalse (by simp [h])
  | iterator r, iterator q => if h : r = q then isTrue (by rw [h]) else isFalse (by simp [h])
  | dict es, dict fs =>
    match decEqEntries es fs with
    | isTrue h => isTrue (by rw [h])
    | isFalse h => isFalse (by simp [h])
  | object k fs, object l gs =>
    if h : k = l then
      match decEqFields fs gs with
      | isTrue hs => isTrue (by rw [h, hs])
      | isFalse hs => isFalse (by simp [hs])
    else isFalse (by simp [h])
  | atom _, sequence _ _ | atom _, iterator _ | atom _, dict _ | atom _, object _ _ => isFalse nofun
  | sequence _ _, atom _ | sequence _ _, iterator _ | sequence _ _, dict _
  | sequence _ _, object _ _ => isFalse nofun
  | iterator _, atom _ | iterator _, sequence _ _ | iterator _, dict _ | iterator _, object _ _ =>
    isFalse nofun
  | dict _, atom _ | dict _, sequence _ _ | dict _, iterator _ | dict _, object _ _ => isFalse nofun
  | object _ _, atom _ | object _ _, sequence _ _ | object _ _, iterator _ | object _ _, dict _ =>
    isFalse nofun

def decEqItems : (xs ys : List Datum) → Decidable (xs = ys)
  | [], [] => isTrue rfl
  | [], _ :: _ | _ :: _, [] => isFalse nofun
  | x :: xs, y :: ys =>
    match decEq x y, decEqItems xs ys with
    | isTrue h, isTrue hs => isTrue (by rw [h, hs])
    | isFalse h, _ => isFalse (by simp [h])
    | _, isFalse hs => isFalse (by simp [hs])

def decEqEntries : (es fs : List (Datum × Datum)) → Decidable (es = fs)
  | [], [] => isTrue rfl
  | [], _ :: _ | _ :: _, [] => isFalse nofun
  | (k, v) :: es, (l, w) :: fs =>
    match decEq k l, decEq v w, decEqEntries es fs with
    | isTrue h, isTrue hv, isTrue hs => isTrue (by rw [h, hv, hs])
    | isFalse h, _, _ => isFalse (by simp [h])
    | _, isFalse h, _ => isFalse (by simp [h])
    | _, _, isFalse hs => isFalse (by simp [hs])

def decEqFields : (fs gs : List (String × Datum)) → Decidable (fs = gs)
  | [], [] => isTrue rfl
  | [], _ :: _ | _ :: _, [] => isFalse nofun
  | (name, v) :: fs, (other, w) :: gs =>
    if h : name = other then
      match decEq v w, decEqFields fs gs with
      | isTrue hv, isTrue hs => isTrue (by rw [h, hv, hs])
      | isFalse hv, _ => isFalse (by simp [hv])
      | _, isFalse hs => isFalse (by simp [hs])
    else isFalse (by simp [h])
end

instance : DecidableEq Datum := decEq

def typeName : Datum → String
  | atom a => a.typeName
  | sequence shape _ => shape.typeName
  | iterator _ => "list_iterator"
  | dict _ => "dict"
  | object kind _ => kind.name

/-- How the type of a datum is shown. -/
def typeLiteral : Datum → String
  | atom a => a.typeLiteral
  | d => Class.literal d.typeName

def owner : Datum → Owner
  | atom (.classRef name) => if (Class.enumeration? name).isSome then .enumeration else .theClass name
  | d => .value d.typeName

def asText? : Datum → Option String
  | atom a => a.asText?
  | _ => Option.none

def asInt? : Datum → Option Int
  | atom a => a.asInt?
  | _ => Option.none

def isTrue : Datum → Bool
  | atom a => a.isTrue
  | sequence _ items => !items.isEmpty
  | dict entries => !entries.isEmpty
  | iterator _ | object _ _ => true

/-- The literals of a sequence between brackets. A tuple of one item keeps a comma. -/
def bracketed (shape : Shape) (literals : List String) : String :=
  match shape, literals with
  | .tuple, [x] => "(" ++ x ++ ",)"
  | .tuple, _ => "(" ++ ", ".intercalate literals ++ ")"
  | .list, _ => "[" ++ ", ".intercalate literals ++ "]"

mutual
def literal : Datum → String
  | atom a => a.literal
  | sequence shape items => bracketed shape (literals items)
  | iterator _ => "<list_iterator object>"
  | dict entries => "\x7b" ++ ", ".intercalate (entryLiterals entries) ++ "\x7d"
  | object kind fields => kind.name ++ "(" ++ ", ".intercalate (fieldLiterals fields) ++ ")"

def literals : List Datum → List String
  | [] => []
  | d :: ds => literal d :: literals ds

def entryLiterals : List (Datum × Datum) → List String
  | [] => []
  | (k, v) :: es => (literal k ++ ": " ++ literal v) :: entryLiterals es

def fieldLiterals : List (String × Datum) → List String
  | [] => []
  | (name, v) :: fs => (name ++ "=" ++ literal v) :: fieldLiterals fs
end

/-- What a template inserts: the literal, except for atoms. -/
def printed : Datum → String
  | atom a => a.printed
  | d => d.literal

mutual
/-- Equality of the values in containers. Sequences of one form are equal item by item, objects of one kind
field by field, dictionaries if each key has the same value in both. An iterator equals only itself. -/
def sameItem : Datum → Datum → Bool
  | atom a, atom b => a.sameItem b
  | sequence .list xs, sequence .list ys => allSame xs ys
  | sequence .tuple xs, sequence .tuple ys => allSame xs ys
  | iterator r, iterator q => r == q
  | dict es, dict fs => es.length == fs.length && allEntriesIn es fs
  | object k fs, object l gs => k == l && allFieldsSame fs gs
  | _, _ => false

def allSame : List Datum → List Datum → Bool
  | [], [] => true
  | x :: xs, y :: ys => sameItem x y && allSame xs ys
  | _, _ => false

def allEntriesIn : List (Datum × Datum) → List (Datum × Datum) → Bool
  | [], _ => true
  | (k, v) :: es, fs => fs.any (fun f => sameItem k f.1 && sameItem v f.2) && allEntriesIn es fs

def allFieldsSame : List (String × Datum) → List (String × Datum) → Bool
  | [], [] => true
  | (_, v) :: fs, (_, w) :: gs => sameItem v w && allFieldsSame fs gs
  | _, _ => false
end

/-- Equality of values. Only of atoms does it differ from equality inside a container. -/
def same : Datum → Datum → Bool
  | atom a, atom b => a.same b
  | x, y => x.sameItem y

end Datum

end Manuscript
