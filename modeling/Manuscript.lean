import Manuscript.Proofs.Destinations
import Manuscript.Proofs.Interruption
import Manuscript.Proofs.Safety
import Manuscript.Session.Output
import Manuscript.Session.Query
import Manuscript.Proofs.Unencodable
import Manuscript.Proofs.InlineReading
import Manuscript.Proofs.Segments
import Manuscript.Proofs.ControlCharacters
import Manuscript.Proofs.Balance
import Manuscript.Proofs.Nesting
import Manuscript.Proofs.FirstReport
import Manuscript.Proofs.Counting
import Manuscript.Proofs.BuiltTrees
import Manuscript.Proofs.Visits
import Manuscript.Proofs.Escaping
import Manuscript.Proofs.Alike
import Manuscript.Proofs.Reaching
import Manuscript.Proofs.Merging
import Manuscript.Proofs.Confinement
import Manuscript.Proofs.Independence
import Manuscript.Proofs.Tokens
import Manuscript.Proofs.ColumnPrefix
import Manuscript.Proofs.SharedSettings
import Manuscript.Proofs.Accumulation
import Manuscript.Proofs.Recutting
import Manuscript.Proofs.LineStarts
import Manuscript.Proofs.WrongOptions
import Manuscript.Proofs.OptionChains
