import Manuscript.Destination
import Manuscript.Emission
/-!
# Renderers

A renderer carries out the events of a rendering on its target, until the first of them that cannot be. What
the target refuses is reported as a failed write or a failed encoding; other faults are passed on. The
renderer has a target only while it renders: it lets go of it however the rendering ends.
-/
namespace Manuscript

/-- How the fault of a refused piece is reported. -/
def reportedFault (destination : Atom) (encoding : Datum) (f : Fault) : Fault :=
  match f with
  | .unencodable _ | .raised .encoding _ _ => .encodingFailed encoding f
  | f => if f.isOutputFault then .writeFailed destination f else f

/-- What a renderer writes to, the encoding that it declares as its own, and what reports call it. -/
structure Target where
  sink : Sink
  declared : Option Datum
  name : Atom

structure Renderer where
  options : Options
  target : Option Target

/-- A rendering in progress: the renderer, and the notes left so far. -/
structure Rendering where
  renderer : Renderer
  notes : List Note

namespace Renderer

/-- A renderer that is not rendering. -/
def idle (o : Options) : Renderer := ⟨o, none⟩

/-- The encoding that a report of a failed encoding names: the one that the target declares, if it does. -/
def reportedEncoding (r : Renderer) (g : Target) : Datum :=
  match g.declared with
  | some a => if a.isTrue then a else .text r.options.encodingName
  | none => .text r.options.encodingName

/-- How the renderer reports the fault of a piece that its target has refused. -/
def reported (r : Renderer) (g : Target) (f : Fault) : Fault :=
  reportedFault g.name (r.reportedEncoding g) f

/-- Puts something into the target's sink. There is none outside of a rendering. -/
def put (r : Renderer) (into : Sink → Except Fault Sink) : Except Fault Renderer :=
  match r.target with
  | none => .error (.raised .other "AssertionError" "_write called outside of a render")
  | some g =>
    match into g.sink with
    | .ok sink => .ok { r with target := some { g with sink } }
    | .error f => .error (r.reported g f)

end Renderer

namespace Rendering

/-- Carries out one event. -/
def perform (r : Rendering) (event : Event) : Rendering × Option Fault :=
  let after (result : Except Fault Renderer) : Rendering × Option Fault :=
    match result with
    | .ok renderer => ({ r with renderer }, none)
    | .error f => (r, some f)
  match event with
  | .write piece => after (r.renderer.put (·.write piece))
  | .writeValue value => after (r.renderer.put (·.writeValue value))
  | .note n => ({ r with notes := r.notes ++ [n] }, none)

/-- The sink as far as it has been written to. -/
def sink? (r : Rendering) : Option Sink := r.renderer.target.map (·.sink)

end Rendering

/-- The end of an operation: the fault it ended in, or its answer, with the notes it left and the iterators
that it took items from. -/
structure Outcome (α : Type) where
  notes : List Note
  taken : List Ref
  result : Except Fault α

namespace Outcome

/-- The end of a rendering. The timing note comes last and only if nothing went wrong. -/
def of {α : Type} (p : Progress Rendering) (answer : α) : Outcome α :=
  match p.fault with
  | none => ⟨p.state.notes ++ [.finished], p.taken, .ok answer⟩
  | some f => ⟨p.state.notes, p.taken, .error f⟩

def map {α β : Type} (f : α → β) (o : Outcome α) : Outcome β := { o with result := o.result.map f }

end Outcome

/-- A destination and the files after a rendering, with its outcome. -/
structure Delivery where
  destination : Destination
  files : Files
  outcome : Outcome Unit

namespace Renderer

/-- Walks a tree with a target to write to, after some notes. -/
def walk (r : Renderer) (t : Tree) (g : Target) (notes : List Note) : Progress Rendering :=
  (t.emit r.options).run Rendering.perform ⟨{ r with target := some g }, notes⟩

/-- The renderer after a walk, however it ended. -/
def released (p : Progress Rendering) : Renderer := { p.state.renderer with target := none }

/-- Renders to a text. -/
def renderString (r : Renderer) (t : Tree) : Renderer × Outcome String :=
  let p := r.walk t ⟨.buffer "" false, none, .text "<string>"⟩ []
  (released p, .of p (match p.state.sink? with
    | some (.buffer content _) => content
    | _ => ""))

/-- Renders to a destination. One that cannot be opened is never a target. -/
def deliver [Codecs] (r : Renderer) (t : Tree) (d : Destination) (fs : Files) : Renderer × Delivery :=
  match d.opened r.options.encodingName fs with
  | (fs, .error f) =>
    (r, ⟨d, fs, [.writingTo d.name.printed], [],
      .error (if f.isOutputFault then .writeFailed d.name f else f)⟩)
  | (fs, .ok sink) =>
    let p := r.walk t ⟨sink, d.declared, d.name⟩ [.writingTo d.name.printed]
    let (d, fs) := match p.state.sink? with
      | some last => d.released last fs
      | none => (d, fs)
    (released p, ⟨d, fs, .of p ()⟩)

/-- Renders to bytes, through a stream in memory. -/
def renderBytes [Codecs] (r : Renderer) (t : Tree) : Renderer × Outcome (List UInt8) :=
  let (r, done) := r.deliver t (.bytes ⟨.byteBuffer, [], false, true⟩ (.text "<BytesIO>")) .empty
  (r, done.outcome.map fun _ =>
    match done.destination with
    | .bytes s _ => s.content
    | _ => [])

end Renderer

end Manuscript
