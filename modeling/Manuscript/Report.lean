import Manuscript.Fault
/-!
# Reports

The failures that can be made by hand: each kind keeps a message and attributes of its own, and words the
message itself where none is given.
-/
namespace Manuscript

inductive ReportKind
  | general | validation | invalidOptions | rendering | writing | encoding
  deriving DecidableEq, Repr

/-- The kind itself and the more general ones, up to the most general. -/
def ReportKind.lineage : ReportKind → List ReportKind
  | general => [general]
  | validation => [validation, general]
  | invalidOptions => [invalidOptions, validation, general]
  | rendering => [rendering, general]
  | writing => [writing, rendering, general]
  | encoding => [encoding, rendering, general]

/-- A report: its message is the attribute of that name. -/
structure Report where
  kind : ReportKind
  message : Datum
  attributes : List (String × Datum)
  deriving Repr

namespace Report

def isNone : Datum → Bool
  | .atom .none => true
  | _ => false

/-- The name of a class. No other value has one. -/
def className : Datum → Except Fault String
  | .atom (.classRef name) => .ok name
  | d => .error (d.lacking "__name__")

/-- What is reported of options of another class than the expected one. -/
def optionsText (renderer expected received : Datum) : Except Fault String := do
  let expectedName ← className expected
  let receivedName ← className received
  return (Fault.wrongOptions renderer.printed expectedName receivedName).message

/-- The cause at the end of a message, if there is one. -/
def causeText (cause : Datum) : String := if isNone cause then "" else ": " ++ cause.printed

/-- The given message, or a standard one where none is given. -/
def messageOr (given : Datum) (standard : Except Fault String) : Except Fault Datum :=
  if isNone given then standard.map .text else .ok given

/-- The message of a report from the arguments that are given; the others are nothing. -/
def messageOf (kind : ReportKind) (argument : String → Datum) : Except Fault Datum :=
  let cause := causeText (argument "original_error")
  match kind with
  | .invalidOptions =>
    messageOr (argument "message")
      (optionsText (argument "renderer_name") (argument "expected_type") (argument "received_type"))
  | .writing =>
    messageOr (argument "message")
      (.ok ("Failed to write output to " ++ (argument "destination").printed ++ cause))
  | .encoding =>
    messageOr (argument "message")
      (.ok ("Rendered output cannot be encoded as " ++ (argument "encoding").printed ++ cause))
  | .general | .validation | .rendering => .ok (argument "message")

/-- The attributes of a report that only its kind has. -/
def ownAttributes (kind : ReportKind) (argument : String → Datum) : List (String × Datum) :=
  let given (name : String) : String × Datum := (name, argument name)
  match kind with
  | .general => []
  | .validation => [given "parameter_name", given "parameter_value"]
  | .invalidOptions =>
    [("parameter_name", .text "options"), ("parameter_value", argument "received_type"),
      given "renderer_name", given "expected_type", given "received_type"]
  | .rendering => [given "rendering_stage"]
  | .writing => [("rendering_stage", .text "write"), given "destination"]
  | .encoding => [("rendering_stage", .text "encode"), given "encoding"]

/-- A report from the arguments that are given; the others are nothing. -/
def make (kind : ReportKind) (arguments : List (String × Datum)) : Except Fault Report :=
  let argument (name : String) : Datum := (arguments.lookup name).getD .none
  (messageOf kind argument).map fun message =>
    ⟨kind, message,
      ("message", message) :: ("original_error", argument "original_error") :: ownAttributes kind argument⟩

end Report

end Manuscript
