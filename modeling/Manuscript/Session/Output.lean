import Manuscript.Session
/-!
# Output of a session

Renderers, the outlets that output can be sent to, and what is left in an outlet afterwards.
-/
namespace Manuscript.Session

/-- A place to send output to. An outlet that is closed from the start refuses everything. `value` is any
value in the place of a destination; nothing at all asks for the text itself. -/
inductive Outlet
  | textBuffer (content : String) (closed : Bool)
  | byteBuffer (content : List UInt8) (closed : Bool)
  | wrapper (encodingName : String) (handling : Handling)
  | path (value : Atom)
  | file (path mode encodingName : String) (raw closed : Bool)
  | recorder (mode name encoding : Option Expression) (limit : Option Nat) (fault : Fault)
  | value (e : Expression)

/-- What is in an outlet. A file that is not there has no content. -/
inductive OutletState
  | text (content : String)
  | bytes (content : List UInt8) (closed : Bool)
  | closed
  | file (content : Option (List UInt8))
  | entries (es : List Entry)
  | nothing
  deriving DecidableEq, Repr

/-- An open outlet: the destination it stands for, if it stands for one, and how to look at it. -/
structure OpenOutlet where
  destination : Option Destination
  outlet : Outlet

/-- The place of a file that is opened in a mode. A new file must not be there before. -/
def filePlace (files : Files) (path : String) (isNew : Bool) : Except Fault Place :=
  match files.locate path, isNew with
  | .error (.isDirectory path), true => .error (.fileExists path)
  | .ok place, true => if (files.content? place).isSome then .error (.fileExists path) else .ok place
  | result, _ => result

/-- Opens a file in a mode: reading makes an empty file first, appending keeps what is there, and all else
starts from nothing. -/
def openFile [Codecs] (path mode encodingName : String) (raw closed : Bool) : Action Destination := do
  let session ← getThe Session
  let has (c : Char) : Bool := mode.toList.contains c
  let place ← ofExcept (filePlace session.files path (has 'x'))
  let content := if has 'a' then (session.files.content? place).getD [] else []
  set { session with files := session.files.put place content }
  let writable := has 'w' || has 'a' || has 'x' || has '+'
  if has 'b' then
    return .bytes ⟨if raw then .rawFile else .byteFile, content, closed, writable⟩ (.text path)
  else
    let writer ← ofExcept (Writer.forText encodingName .strict !content.isEmpty)
    return .text (.stream ⟨⟨.textFile, content, closed, writable⟩, writer⟩) (.text path) (some (.text encodingName))

/-- The value of an optional attribute of a recorder. -/
def optionalDatum : Option Expression → Action (Option Datum)
  | none => pure none
  | some e => do return some (← datum (← eval e))

/-- The atom that a datum is, if it counts as text. -/
def textAtom? : Datum → Option Atom
  | .atom a => if a.isText then some a else none
  | _ => none

/-- The name that a value goes by: a text that it carries as its name, or its type. -/
def valueName (s : Store) (v : Value) : Atom :=
  let carried : Option Value := match v with
    | .atom (.member m) => some (.text m.name)
    | v => s.attribute? v "name"
  (carried.bind fun name => textAtom? (s.datum name)).getD (.text ("<" ++ s.typeName v ++ ">"))

def valueDestination (s : Store) (v : Value) : Destination :=
  match v with
  | .atom (.path p) => .path p (.text p)
  | .atom (.text p) => .path p (.text p)
  | .atom (.member (.documentClass c)) => .path c.name (.text (Member.documentClass c).fullName)
  | v => .unsupported (s.datum v).typeLiteral (valueName s v)

/-- Opens an outlet, in the directories that are made first. -/
def openOutlet [Codecs] (directories : List String) (outlet : Outlet) : Action OpenOutlet := do
  modify fun session => { session with files := directories.foldl Files.makeDirectory session.files }
  match outlet with
  | .textBuffer content closed =>
    return ⟨some (.text (.buffer content closed) (.text "<StringIO>") none), outlet⟩
  | .byteBuffer content closed =>
    return ⟨some (.bytes ⟨.byteBuffer, content, closed, true⟩ (.text "<BytesIO>")), outlet⟩
  | .wrapper encodingName handling =>
    let writer ← ofExcept (Writer.forText encodingName handling false)
    return ⟨some (.text (.stream ⟨⟨.textFile, [], false, true⟩, writer⟩) (.text "<TextIOWrapper>")
      (some (.text encodingName))), outlet⟩
  | .path value => return ⟨some (.path value.printed (.text value.printed)), outlet⟩
  | .file path mode encodingName raw closed =>
    return ⟨some (← openFile path mode encodingName raw closed), outlet⟩
  | .recorder mode name encoding limit fault =>
    let mode ← optionalDatum mode
    let name ← optionalDatum name
    let encoding ← optionalDatum encoding
    let shownName := (name.bind textAtom?).getD (.text "<RecordingSink>")
    let recorder : Recorder := ⟨[], limit, fault⟩
    if (mode.bind Datum.asText?).any (·.toList.contains 'b') then
      return ⟨some (.byteRecorder recorder shownName encoding), outlet⟩
    else return ⟨some (.text (.recorder recorder) shownName encoding), outlet⟩
  | .value e =>
    match ← eval e with
    | .atom .none => return ⟨none, outlet⟩
    | v => return ⟨some (valueDestination (← look id) v), outlet⟩

/-- The destination of an outlet. Nothing at all is no destination that takes output. -/
def OpenOutlet.target (o : OpenOutlet) : Destination :=
  o.destination.getD (.unsupported Datum.none.typeLiteral (.text "<NoneType>"))

def destinationBytes : Destination → List UInt8
  | .text (.stream s) _ _ => s.bytes.content
  | .bytes s _ => s.content
  | _ => []

/-- Looks at an outlet after use. A file is closed first. -/
def inspect (o : OpenOutlet) : Action OutletState := do
  match o.outlet, o.target with
  | .textBuffer _ closed, .text (.buffer content _) _ _ =>
    return if closed then .closed else .text content
  | .byteBuffer _ closed, d => return if closed then .closed else .bytes (destinationBytes d) false
  | .wrapper _ _, d => return .bytes (destinationBytes d) false
  | .path value, _ =>
    return .file ((← getThe Session).files.read? value.printed)
  | .file path _ _ _ closed, d =>
    let session ← getThe Session
    if let .ok place := session.files.locate path then
      set { session with files := session.files.put place (destinationBytes d) }
    return .bytes (destinationBytes d) closed
  | .recorder _ _ _ _ _, .text (.recorder r) _ _ => return .entries r.entries
  | .recorder _ _ _ _ _, .byteRecorder r _ _ => return .entries r.entries
  | _, _ => return .nothing

/-- Makes a renderer, if it accepts what is given as options: the value of its options. -/
def newRenderer (v : Value) : Action Value := do
  let _ ← ofExcept (← look (·.given v)).accepted
  match v with
  | .atom .none => change (Change.instantiate .latexOptions [])
  | v => return v

/-- Makes a renderer and binds it to a variable. -/
def bindRenderer (name : String) (options : Option Expression) : Action Datum := do
  let renderer ← newRenderer (← evalOptional options)
  modify fun session => { session with renderers := (name, renderer) :: session.renderers }
  datum renderer

/-- The renderer of a variable, or a new one. -/
def rendererFor (binding? : Option String) (options : Value) : Action Value := do
  match binding? with
  | some name => bound name (← getThe Session).renderers
  | none => newRenderer options

/-- The options of a renderer as they stand. -/
def optionsOf (renderer : Value) : Action Options := do ofExcept (← look (·.given renderer)).accepted

/-- Takes over what an operation has left, and its answer. -/
def settle {α : Type} (o : Outcome α) : Action α := do
  leave o.notes
  takeFrom o.taken
  ofExcept o.result

/-- Renders a value to a text. -/
def renderText (o : Options) (v : Value) : Action String := do
  settle (renderString o (← look (·.tree v)))

/-- Renders a value into an open outlet. -/
def renderInto [Codecs] (o : Options) (v : Value) (outlet : OpenOutlet) :
    Action (Except Fault Unit × OutletState) := do
  let session ← getThe Session
  let done := deliver o (session.store.tree v) outlet.target session.files
  set { session with files := done.files }
  let result ← attempt (settle done.outcome)
  let state ← inspect { outlet with destination := outlet.destination.map fun _ => done.destination }
  return (result, state)

/-- What a rendering needs: what is to be rendered, and the renderer of a variable or one with the given
options. -/
structure Job where
  node : Expression
  keywords : List (String × Expression)
  options : Option Expression
  renderer : Option String

/-- The parts of a job, made in order: what is to be rendered, the overrides and the options. -/
def Job.parts (job : Job) : Action (Value × Overrides × Value) := do
  let v ← eval job.node
  let keywords ← evalFields job.keywords
  let options ← evalOptional job.options
  return (v, ← look (·.overrides keywords), options)

/-- What is to be rendered, and the options of the renderer that is to do it. -/
def Job.prepared (job : Job) : Action (Value × Options) := do
  let (v, _, options) ← job.parts
  return (v, ← optionsOf (← rendererFor job.renderer options))

def renderToString (job : Job) : Action String := do
  let (v, options) ← job.prepared
  renderText options v

def renderToBytes [Codecs] (job : Job) : Action (List UInt8) := do
  let (v, options) ← job.prepared
  settle (renderBytes options (← look (·.tree v)))

def renderTo [Codecs] (job : Job) (directories : List String) (outlet : Outlet) :
    Action (Except Fault Unit × OutletState) := do
  let (v, options) ← job.prepared
  renderInto options v (← openOutlet directories outlet)

/-- Renders to a text with options and overrides. -/
def publishString (job : Job) (notes : List Note) : Action String := do
  let (v, overrides, given) ← job.parts
  let s ← look id
  settle (Manuscript.publishString (s.given given) overrides (s.tree v) notes)

/-- Renders into an outlet with options and overrides. Without a destination the answer is the text. -/
def publish [Codecs] (job : Job) (directories : List String) (outlet : Outlet) :
    Action (Except Fault Datum × OutletState) := do
  let (v, overrides, given) ← job.parts
  let outlet ← openOutlet directories outlet
  let session ← getThe Session
  let s := session.store
  let done := Manuscript.publish (s.given given) overrides (s.tree v) outlet.destination session.files
  set { session with files := done.files }
  let result ← attempt (settle done.outcome)
  let answer : Option String → Datum := fun text => (text.map Datum.text).getD .none
  return (result.map answer, ← inspect { outlet with destination := done.destination })

/-- Writes texts to an outlet one by one, in an encoding that is any value: how many were taken, what is in
the outlet, and the fault. -/
def writeTexts [Codecs] (directories : List String) (outlet : Outlet) (encoding : Expression)
    (texts : List String) : Action (Nat × OutletState × Option Fault) := do
  let outlet ← openOutlet directories outlet
  let encoding ← datum (← eval encoding)
  let session ← getThe Session
  match outlet.target.openedFor encoding session.files with
  | (files, .error f) =>
    set { session with files }
    return (0, ← inspect outlet, some f)
  | (files, .ok sink) =>
    let (n, last, fault) := sink.writeAll texts
    let (destination, files) := outlet.target.released last files
    set { session with files }
    return (n, ← inspect { outlet with destination := some destination }, fault)

/-- Whether an outlet expects bytes, and the name it goes by. -/
def outletInfo [Codecs] (directories : List String) (outlet : Outlet) : Action (Bool × Atom) := do
  let outlet ← openOutlet directories outlet
  return (outlet.target.isBinary, outlet.target.name)

/-- The bytes of a one-line stand-in for a rendering, in the encoding of the options. -/
def outlineBytes [Codecs] (options node : Expression) : Action (List UInt8 × Datum) := do
  let given ← eval options
  let v ← eval node
  let options ← match given with
    | .atom .none => change (Change.instantiate .baseOptions [])
    | given => pure given
  let name ← change (Change.attributeOf options "encoding")
  let s ← look id
  let writer ← ofExcept (Writer.forBytes (s.printed name))
  let bytes ← ofExcept (writer.bytes ("stub:" ++ s.typeName v ++ "\n"))
  return (bytes, ← datum options)

/-- A stand-in for a rendering has no text form. What it is made from is made first. -/
def outlineText (options node : Expression) : Action String := do
  let _ ← eval options
  let _ ← eval node
  fail (.noStringForm "StubRenderer")

end Manuscript.Session
