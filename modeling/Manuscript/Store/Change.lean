import Manuscript.Note
import Manuscript.Store
/-!
# Changes to a store

A change works on a store step by step: it gives an answer or ends in a fault, and in both cases leaves the
store as far as it got. To go through an iterator changes the store too. Notes gather beside the store.
-/
namespace Manuscript

/-- A store under change, with the notes that were left on the way. -/
structure Draft where
  store : Store
  notes : List Note

abbrev Change (α : Type) := ExceptT Fault (StateM Draft) α

namespace Change

variable {α : Type}

/-- Runs a change on a draft. -/
def runOn (draft : Draft) (change : Change α) : Except Fault α × Draft := change.run.run draft

def refuse (f : Fault) : Change α := throw f

def settle : Except Fault α → Change α
  | .ok a => pure a
  | .error f => refuse f

/-- Looks at the store. -/
def look (f : Store → α) : Change α := do return f (← get).store

def alter (f : Store → Store) : Change Unit :=
  modify fun draft => { draft with store := f draft.store }

/-- Changes the store in a way that gives a value. -/
def make (f : Store → Store × Value) : Change Value := do
  let draft ← get
  let (store, v) := f draft.store
  set { draft with store }
  return v

def leave (note : Note) : Change Unit :=
  modify fun draft => { draft with notes := draft.notes ++ [note] }

/-- A number without a value is never the same as another one. -/
def newNan : Change Value :=
  make fun s =>
    let (s, identity) := s.mint
    (s, .atom (.nan identity))

/-- A failure is never the same as another one. -/
def newFailure (className message : String) : Change Value :=
  make fun s =>
    let (s, identity) := s.mint
    (s, .atom (.failure identity className message))

def newList (items : List Value) : Change Value := make (·.newList items)

def newObject (kind : Kind) (fields : List (String × Value)) : Change Value :=
  make (·.newObject kind fields)

def typeName (v : Value) : Change String := look (·.typeName v)

/-- An attribute of a value, or the fault of lacking it. -/
def attributeOf (v : Value) (name : String) : Change Value := do
  match ← look (·.attribute? v name) with
  | some found => return found
  | none => refuse (← look (·.lacking v name))

/-- The field of an object that has it for certain. -/
def field (v : Value) (name : String) : Change Value := look fun s => (s.field? v name).getD .none

/-- The items of a value. An iterator gives all that it has left. -/
def items (v : Value) : Change (List Value) := do
  match ← look (·.supply v) with
  | (.listed, found) | (.unsized _ none, found) => return found
  | (.unsized _ (some source), found) =>
    alter (·.put source (.iterator []))
    return found
  | (.missing _ innermost _, _) => refuse (.notIterable innermost)

/-- The number of items of a value that can be counted without going through it. -/
def length (v : Value) : Change Nat := do
  let (supply, found) ← look (·.supply v)
  settle (supply.length found.length)

/-- Refuses what is done to a value that is no list. -/
def requireList (v : Value) (name : String) : Change Unit := do
  match ← look (·.target? v) with
  | some (.sequence .list _) => return ()
  | _ => refuse (← look (·.lacking v name))

/-- Adds values at the end of a list. -/
def extend (list : Value) (new : List Value) : Change Unit := alter (·.extend list new)

@[simp] theorem runOn_pure (a : α) (draft : Draft) :
    (pure a : Change α).runOn draft = (.ok a, draft) := rfl

@[simp] theorem runOn_refuse (f : Fault) (draft : Draft) :
    (refuse f : Change α).runOn draft = (.error f, draft) := rfl

/-- A change after another one works on what that has left. After a fault it does nothing. -/
theorem runOn_bind {β : Type} (change : Change α) (next : α → Change β) (draft : Draft) :
    (change >>= next).runOn draft =
      match change.runOn draft with
      | (.ok a, after) => (next a).runOn after
      | (.error f, after) => (.error f, after) := by
  simp only [runOn, ExceptT.run_bind, StateT.run_bind]
  rcases (ExceptT.run change).run draft with ⟨_ | _, after⟩ <;> rfl

@[simp] theorem runOn_look (f : Store → α) (draft : Draft) :
    (look f).runOn draft = (.ok (f draft.store), draft) := rfl

@[simp] theorem runOn_alter (f : Store → Store) (draft : Draft) :
    (alter f).runOn draft = (.ok (), { draft with store := f draft.store }) := rfl

@[simp] theorem runOn_settle (result : Except Fault α) (draft : Draft) :
    (settle result).runOn draft = (result, draft) := by
  cases result <;> rfl

end Change

end Manuscript
