import Manuscript.Report
import Manuscript.Session
import Manuscript.Statistics
import Manuscript.Validation
import Manuscript.Visit
/-!
# Questions and calls of a session

What can be asked about values, and the calls and assignments that change them. To walk over a tree takes
from iterators what the walk has taken from them.
-/
namespace Manuscript.Session

/-- The conversions that can be asked for by name. -/
inductive ConversionForm
  | element | inline | row | columnSettings
  deriving DecidableEq, Repr

def ConversionForm.convert : ConversionForm → Value → Change Value
  | element => Change.toElement
  | inline => Change.toInline
  | row => Change.toRow
  | columnSettings => Change.toColumnSettings

/-- Converts a value, and tells whether it was the right value already. -/
def converted (form : ConversionForm) (e : Expression) : Action (Datum × Bool) := do
  let v ← eval e
  let new ← change (form.convert v)
  return (← datum new, new == v)

/-- A value with its text escaped. -/
def escaped (e : Expression) : Action Datum := do
  let v ← eval e
  ofExcept (← datum v).escaped

def isElement (e : Expression) : Action Bool := do
  let v ← eval e
  look fun s => (s.kind? v).any Kind.isBlock

/-- The member of an enumeration with a value. A member is its own value. -/
def member (enumeration : Enumeration) (e : Expression) : Action Datum := do
  let v ← eval e
  let d ← datum v
  let found := enumeration.members.find? fun m =>
    v == .atom (.member m) || (Datum.atom (.text m.value)).same d
  match found with
  | some m => return .atom (.member m)
  | none => fail (.notMember d.literal enumeration)

/-- The name of a document class: a member stands for its value, any other value for itself. -/
def documentClassName (e : Expression) : Action Datum := do
  match ← eval e with
  | .atom (.member (.documentClass c)) => return .atom (.text c.name)
  | v => datum v

def shown (e : Expression) : Action Datum := do datum (← eval e)

def equal (a b : Expression) : Action Bool := do
  let v ← eval a
  let w ← eval b
  return (← datum v).same (← datum w)

/-- The items that one gets by going through a value. -/
def itemsOf (e : Expression) : Action (List Datum) := do
  let v ← eval e
  let found ← change (Change.items v)
  look fun s => found.map s.datum

/-- All there is to know about a table. -/
structure TableInfo where
  rows : List Datum
  numberColumns : Datum
  isEmpty : Bool
  spec : Datum
  settingsEmpty : Datum
  effective : Except Fault (List Datum)

/-- Refuses a value that is not a table, and so has no rows to go through. -/
def requireTable (v : Value) : Action Unit := do
  match ← look (·.kind? v), v with
  | some .table, _ => return ()
  | _, .atom (.classRef "Table") => fail (.missingArgument "Table.iter_rows" "self")
  | _, v => fail (← look (·.lacking v "iter_rows"))

/-- Answers the questions about a table one after the other. Rows that an iterator gives are gone after the
first of them. -/
def tableInfo (e : Expression) : Action TableInfo := do
  let table ← eval e
  requireTable table
  let rowsField ← change (Change.field table "rows")
  let rows ← change (Change.items rowsField)
  let numberColumns ← change (Change.numberColumns table)
  let spec ← change (Change.columnSpec table)
  let settings ← change (Change.field table "column_settings")
  let settingsEmpty ← change (Change.call settings .isEmpty)
  let effective ← attempt (change (Change.effectiveColumns table))
  let s ← look id
  return {
    rows := rows.map s.datum
    numberColumns
    isEmpty := !s.isTrue rowsField
    spec
    settingsEmpty := s.datum settingsEmpty
    effective := effective.map (·.map s.datum) }

def statistics (e : Expression) : Action Statistics := do
  let p := Statistics.ofTree (← evalTree e)
  takeFrom p.taken
  match p.fault with
  | some f => fail f
  | none => return p.state

/-- The statistics after each of some walks, all made with one set of statistics. -/
def walks (statistics : Statistics) : List Value → Action (List (Statistics × Option Fault))
  | [] => return []
  | v :: vs => do
    let p := statistics.walk (← look (·.tree v))
    takeFrom p.taken
    return (p.state, p.fault) :: (← walks p.state vs)

def statisticsRuns (es : List Expression) : Action (List (Statistics × Option Fault)) := do
  walks .empty (← evalAll es)

/-- The violations found, and the fault that the walk was stopped by. -/
def validate (e : Expression) (strict : Bool) : Action (List Violation × Option Fault) := do
  let p := (← evalTree e).validate strict
  takeFrom p.taken
  return (p.state, p.fault)

/-- The answer and the trace of a visit. -/
def visit (e : Expression) (visitor : Visitor) : Action (Datum × List Datum) := do
  let tree ← evalTree e
  let p := tree.traced visitor
  takeFrom p.taken
  match p.fault with
  | some f => fail f
  | none => return (tree.visitAnswer visitor, p.state)

/-- A report made from the given arguments. -/
def report (kind : ReportKind) (arguments : List (String × Expression)) : Action Report := do
  let given ← evalFields arguments
  ofExcept (Report.make kind (← look fun s => given.map fun a => (a.1, s.datum a.2)))

/-- The classes that a value belongs to: its own, and the more general ones. -/
def classesOf (s : Store) (v : Value) : List String :=
  s.typeName v ::
    match s.kind? v with
    | some .latexOptions => ["BaseRendererOptions", "CloneFrozenMixin"]
    | some .baseOptions => ["CloneFrozenMixin"]
    | some kind => if kind.isNode then ["Node"] else []
    | none => []

/-- Refuses options of another class than the expected one. -/
def checkOptionsType (options : Expression) (expected renderer : String) : Action Unit := do
  let v ← eval options
  let s ← look id
  if v == .none || (classesOf s v).contains expected then return ()
  else fail (.wrongOptions renderer expected (s.typeName v))

/-- An attribute that an object, a member, a path or an enumeration derives from its own value. -/
def derived (s : Store) (v : Value) (name : String) : Except Fault Value :=
  let field (name : String) : Value := (s.field? v name).getD .none
  match v, s.kind? v, name with
  | _, some .document, "is_part" => .ok (.bool (s.documentClassOf (field "document_class")).isPart)
  | _, some .newCommand, "command" =>
    match Store.asText? (field "name") with
    | some given => .ok (.text (commandName given))
    | none => .error (s.commandFault (field "name"))
  | .atom (.member (.listKind k)), _, "environment_name" => .ok (.text k.environmentName)
  | .atom (.member (.alignment a)), _, "code" => .ok (.text a.code)
  | .atom (.member m), _, "value" => .ok (.text m.value)
  | .atom (.member m), _, "name" => .ok (.text m.name)
  | .atom (.path p), _, "name" => .ok (.text ((Path.steps p).getLast?.getD ""))
  | .atom (.classRef c), _, name =>
    match (Class.enumeration? c).bind fun e => e.members.find? (·.name == name) with
    | some m => .ok (.atom (.member m))
    | none => .error (s.lacking v name)
  | v, _, name => .error (s.lacking v name)

/-- An attribute of a value. -/
def attributeOf (s : Store) (v : Value) (name : String) : Except Fault Value :=
  match s.attribute? v name with
  | some found => .ok found
  | none => derived s v name

/-- Whether a name is that of an attribute that can only be read. -/
def fixedFault? (s : Store) (v : Value) (name : String) : Option Fault :=
  let noSetter : Fault := .noSetter (s.typeName v) name
  match v, s.kind? v, name with
  | _, some .document, "is_part" | _, some .newCommand, "command" => some noSetter
  | .atom (.member (.listKind _)), _, "environment_name" | .atom (.member (.alignment _)), _, "code" =>
    some noSetter
  | .atom (.member _), _, "name" | .atom (.member _), _, "value" => some (.fixedMember name)
  | .atom (.member _), _, _ | .atom (.failure _ _ _), _, _ | .atom (.classRef _), _, _ => none
  | _, some kind, name => if kind.isFrozen then some (.frozenField name) else none
  | v, none, name => some (s.lacking v name)

/-- An item of a sequence by its position. A negative position counts from the end. -/
def sequenceItem (typeName : String) (items : List Value) (index : Int) : Except Fault Value :=
  let position := if index < 0 then index + items.length else index
  if index < -Int.pow 2 63 ∨ Int.pow 2 63 ≤ index then .error .indexTooLarge
  else
    match if position < 0 then none else items[position.toNat]? with
    | some item => .ok item
    | none => .error (.itemOutOfRange typeName)

/-- An item of a value: of a sequence by its position, of a dictionary by its key. -/
def itemAt (s : Store) (v : Value) (index : Int) : Except Fault Value :=
  let missing : Fault := .missingKey (toString index)
  match s.target? v, v with
  | some (.dict entries), _ =>
    match entries.find? fun e => (s.datum e.1).sameItem (.int index) with
    | some e => .ok e.2
    | none => .error missing
  | _, .atom (.classRef name) =>
    .error (if (Class.enumeration? name).isSome then missing else .classNotSubscriptable name)
  | _, v =>
    match s.supply v with
    | (.listed, items) => sequenceItem (s.typeName v) items index
    | _ => .error (.notSubscriptable (s.typeName v))

/-- Reads an attribute, or an item of it, and binds it to a variable if there is one. -/
def get (e : Expression) (name : String) (index : Option Int) (binding? : Option String) :
    Action Datum := do
  let v ← eval e
  let s ← look id
  let found ← ofExcept (attributeOf s v name)
  let item ← match index with
    | some i => ofExcept (itemAt s found i)
    | none => pure found
  if let some variableName := binding? then bind variableName item
  datum item

/-- What a call gives back: the object that it was made on, or something else. -/
inductive Returned
  | itself
  | other (d : Datum)
  deriving Repr

/-- Makes a call. The state is that of the object afterwards, however the call ended. -/
def call (on : Expression) (c : Action Call) (binding? : Option String) :
    Action (Except Fault Returned × Datum) := do
  let v ← eval on
  let call ← c
  let result ← attempt do
    let returned ← change (Change.call v call)
    if let some variableName := binding? then bind variableName returned
    return returned
  let state ← datum v
  match result with
  | .error f => return (.error f, state)
  | .ok returned =>
    if returned == v && v.ref?.isSome then return (.ok .itself, state)
    else return (.ok (.other (← datum returned)), state)

/-- Assigns an attribute. Frozen objects refuse, and so do most values that are not objects. -/
def assign (on : Expression) (name : String) (new : Expression) : Action (Option Fault × Datum) := do
  let v ← eval on
  let w ← eval new
  match ← look (fixedFault? · v name) with
  | some f => return (some f, ← datum v)
  | none =>
    change (Change.alter (·.setField v name w))
    return (none, ← datum v)

/-- Adds a value to the list in a field, as it is. -/
def append (on : Expression) (name : String) (new : Expression) : Action (Option Fault × Datum) := do
  let v ← eval on
  let w ← eval new
  let result ← attempt do
    let list ← ofExcept (attributeOf (← look id) v name)
    change (Change.requireList list "append")
    change (Change.extend list [w])
  match result with
  | .error f => return (some f, ← datum v)
  | .ok _ => return (none, ← datum v)

end Manuscript.Session
