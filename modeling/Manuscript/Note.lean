/-!
# Notes

The notes that operations leave while they work, for whoever wants to follow them.
-/
namespace Manuscript

/-- Column specifications are held by their literals. `finished` stands for a note that also tells how long
the work took. -/
inductive Note
  | noDestination
  | writingTo (destination : String)
  | document (className : String) (elements : Nat)
  | table (rows : Nat) (specLiteral : String)
  | replacingRawSettings (specLiteral : String)
  | finished
  deriving DecidableEq, Repr

namespace Note

/-- The channel that a note is sent to. -/
def channel : Note → String
  | noDestination => "texdoc.api"
  | replacingRawSettings _ => "texdoc.ast.tables"
  | _ => "texdoc.renderers.latex"

/-- The text of a note, with `#` for the number of milliseconds. -/
def text : Note → String
  | noDestination => "No output destination given, returning LaTeX as a string"
  | writingTo destination => "Writing LaTeX output to " ++ destination
  | document className elements =>
    "Rendering " ++ className ++ " document with " ++ toString elements ++ " top-level elements"
  | table rows spec =>
    "Rendering table with " ++ toString rows ++ " rows, column spec " ++ spec
  | replacingRawSettings spec =>
    "Replacing raw column spec " ++ spec ++ " with default typed settings"
  | finished => "Rendering (latex) completed in #ms"

end Note

end Manuscript
