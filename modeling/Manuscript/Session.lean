import Manuscript.Delivery
import Manuscript.Store.Builder
/-!
# Sessions

A session keeps a store with the notes that gather, variables bound to values, renderers with their
options, and files. An action works on a session: it gives an answer or ends in a fault, and in both cases
leaves the session as far as it got.
-/
namespace Manuscript

/-- A way to write down a value: an atom, a new container or object, or the value of a variable. Of failures
and of numbers without a value, each one written down is another one. -/
inductive Expression
  | atom (a : Atom)
  | nan
  | failure (className message : String)
  | sequence (shape : Shape) (items : List Expression)
  | iterator (items : List Expression)
  | dict (entries : List (Expression × Expression))
  | object (kind : Kind) (fields : List (String × Expression))
  | variable (name : String)

/-- A renderer is known by the value that its options were given as. -/
structure Session extends Draft where
  bindings : List (String × Value)
  renderers : List (String × Value)
  files : Files

namespace Session

def start : Session := ⟨⟨.empty, []⟩, [], [], .empty⟩

abbrev Action (α : Type) := ExceptT Fault (StateM Session) α

def fail {α : Type} (f : Fault) : Action α := throw f

def ofExcept {α : Type} : Except Fault α → Action α
  | .ok a => pure a
  | .error f => fail f

/-- Looks at the store. -/
def look {α : Type} (f : Store → α) : Action α := do return f (← get).store

/-- Carries out a change to the store. -/
def change {α : Type} (c : Change α) : Action α := do
  let session ← get
  let (result, draft) := c.runOn session.toDraft
  set { session with toDraft := draft }
  ofExcept result

/-- Takes from iterators what a walk has taken from them. -/
def takeFrom (taken : List Ref) : Action Unit := change (Change.alter (·.takingAll taken))

def leave (notes : List Note) : Action Unit :=
  modify fun session => { session with notes := session.notes ++ notes }

/-- Takes the notes that have gathered. -/
def takeNotes (session : Session) : List Note × Session := (session.notes, { session with notes := [] })

def bind (name : String) (v : Value) : Action Unit :=
  modify fun session =>
    { session with bindings := (name, v) :: session.bindings.filter (·.1 != name) }

/-- What is bound to a name. -/
def bound (name : String) (values : List (String × Value)) : Action Value :=
  match values.lookup name with
  | some v => pure v
  | none => fail (.unbound name)

mutual
/-- Makes the value of an expression, part by part in order. -/
def eval : Expression → Action Value
  | .atom a => pure (.atom a)
  | .nan => change Change.newNan
  | .failure className message => change (Change.newFailure className message)
  | .sequence shape items => do
    let vs ← evalAll items
    change (Change.make (·.alloc (.sequence shape vs)))
  | .iterator items => do
    let vs ← evalAll items
    change (Change.make (·.alloc (.iterator vs)))
  | .dict entries => do
    let es ← evalEntries entries
    change (Change.make (·.newDict es))
  | .object kind fields => do
    let given ← evalFields fields
    change (Change.instantiate kind given)
  | .variable name => do bound name (← get).bindings

def evalAll : List Expression → Action (List Value)
  | [] => pure []
  | e :: es => do
    let v ← eval e
    let vs ← evalAll es
    return v :: vs

/-- Entries one by one. A key that cannot be one is found out when its entry is complete. -/
def evalEntries : List (Expression × Expression) → Action (List (Value × Value))
  | [] => pure []
  | (k, e) :: es => do
    let key ← eval k
    let v ← eval e
    ofExcept (← look (·.checkKey key))
    let rest ← evalEntries es
    return (key, v) :: rest

def evalFields : List (String × Expression) → Action (List (String × Value))
  | [] => pure []
  | (name, e) :: es => do
    let v ← eval e
    let rest ← evalFields es
    return (name, v) :: rest
end

def evalOptional : Option Expression → Action Value
  | some e => eval e
  | none => pure .none

def datum (v : Value) : Action Datum := look (·.datum v)

/-- The tree of an expression's value. -/
def evalTree (e : Expression) : Action Tree := do
  let v ← eval e
  look (·.tree v)

/-- Runs an action on a session. -/
def perform {α : Type} (session : Session) (action : Action α) : Except Fault α × Session :=
  action.run.run session

/-- Runs an action without letting its fault end the one around it. -/
def attempt {α : Type} (action : Action α) : Action (Except Fault α) := do
  let session ← get
  let (result, after) := session.perform action
  set after
  return result

end Session

end Manuscript
