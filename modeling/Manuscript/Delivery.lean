import Manuscript.Renderer
/-!
# Delivery

Trees are rendered by a renderer of their own, or through a rendering call, which settles the options first
and answers with the text itself where it is given no destination.
-/
namespace Manuscript

/-- Renders to a text. -/
def renderString (o : Options) (t : Tree) : Outcome String := ((Renderer.idle o).renderString t).2

/-- Renders to a destination. -/
def deliver [Codecs] (o : Options) (t : Tree) (d : Destination) (fs : Files) : Delivery :=
  ((Renderer.idle o).deliver t d fs).2

/-- Renders to bytes. -/
def renderBytes [Codecs] (o : Options) (t : Tree) : Outcome (List UInt8) := ((Renderer.idle o).renderBytes t).2

/-- The whole text of a tree, or the fault that its rendering ends in. -/
def Tree.render (o : Options) (t : Tree) : Except Fault String := (renderString o t).result

/-- A rendering call for the text alone. Its options are settled before anything else is done, and only then does
it leave some notes of its own. -/
def publishString (g : Given) (overrides : Overrides) (t : Tree) (notes : List Note) : Outcome String :=
  match g.resolved overrides with
  | .error f => ⟨[], [], .error f⟩
  | .ok o =>
    let done := renderString o t
    { done with notes := notes ++ done.notes }

/-- What a rendering call leaves: its destination, if it was given one, and the files, with its outcome. -/
structure Publication where
  destination : Option Destination
  files : Files
  outcome : Outcome (Option String)

/-- A rendering call. Its options are settled before anything else is done. -/
def publish [Codecs] (g : Given) (overrides : Overrides) (t : Tree) (d : Option Destination) (fs : Files) :
    Publication :=
  match g.resolved overrides, d with
  | .error f, d => ⟨d, fs, [], [], .error f⟩
  | .ok o, none =>
    let done := renderString o t
    ⟨none, fs, .noDestination :: done.notes, done.taken, done.result.map some⟩
  | .ok o, some d =>
    let done := deliver o t d fs
    ⟨some done.destination, done.files, done.outcome.map fun _ => none⟩

end Manuscript
