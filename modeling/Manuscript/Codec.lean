import Manuscript.Encoding
import Manuscript.Encoding.Names
/-!
# Codecs

A name of an encoding stands for a codec: for one of the supported encodings, whose bytes are described here, or for
another one, of which nothing is known but its name.
-/
namespace Manuscript

inductive Codec
  | supported (e : Encoding)
  | other (name : String)
  deriving DecidableEq, Repr

namespace Codec

/-- The supported encodings by the own names of their codecs. -/
def encodings : List (String × Encoding) :=
  [("utf_8", .utf8), ("utf_8_sig", .utf8Marked), ("ascii", .ascii), ("latin_1", .latin1), ("cp1252", .codePage),
    ("utf_16", .utf16Marked), ("utf_16_le", .utf16Little), ("utf_16_be", .utf16Big), ("utf_32", .utf32Marked),
    ("utf_32_le", .utf32Little), ("utf_32_be", .utf32Big)]

/-- What a name is told apart by: letters, digits and full stops. -/
def isNameCharacter (c : Char) : Bool := c.isAlphanum || c = '.'

/-- The form in which a name is looked up. Case makes no difference, nor does what is between the words of a name. -/
def normalizedName (name : String) : String :=
  let words := (name.toList.splitOnP fun c => !isNameCharacter c).filter (!·.isEmpty)
  "_".intercalate (words.map fun word => String.ofList (word.map Char.toLower))

/-- A codec's own name. Its other names are looked at first, also with underscores for full stops. -/
def ownName? (form : String) : Option String :=
  let other? (form : String) := codecNames.find? (·.2.contains form)
  let underscored := String.ofList (form.toList.map fun c => if c = '.' then '_' else c)
  (((other? form).or (other? underscored)).or (codecNames.find? (·.1 = form))).map (·.1)

/-- The codec of an own name. -/
def ofOwnName (own : String) : Codec := ((encodings.lookup own).map supported).getD (other own)

/-- The codec that a name stands for. A name with a null character stands for none. -/
def ofName? (name : String) : Option Codec :=
  if name.toList.contains '\x00' then none else (ownName? (normalizedName name)).map ofOwnName

def isKnown (name : String) : Bool := (ofName? name).isSome

example : ofName? "Windows-1252" = some (.supported .codePage) ∧ ofName? "iso 8859.1" = some (.supported .latin1) ∧
    ofName? "KOI8-R" = some (.other "koi8_r") ∧ ofName? "klingon" = none := by decide +kernel

end Codec

end Manuscript
