import Manuscript.Fault
import Manuscript.Datum
import Manuscript.Text.Letter
/-!
# Rendering options

The encoding of byte output, whether plain text is escaped, and the command of section headings. Options
are made only from a known encoding and a heading command of letters; `Options.checked` tells why others
are refused. What a caller gives as options, with overrides, is settled by `Given.resolved`.
-/
namespace Manuscript

/-- The heading command is a text, or a value that stands for one. -/
structure Options where
  encodingName : String
  escapePlainText : Bool
  sectionCommand : Atom
  deriving DecidableEq, Repr

namespace Options

def standard : Options := ⟨"utf-8", false, .text "section"⟩

/-- A heading command is a non-empty word of letters. -/
def isCommandName (s : String) : Bool := !s.isEmpty && s.toList.all Text.isLetter

/-- The bytes of the letters of ASCII. -/
def isLetterByte (b : UInt8) : Bool := (Char.ofNat b.toNat).isAlpha && b.toNat < 128

/-- The name of a known encoding. -/
def checkedEncoding (value : Datum) : Except Fault String :=
  match value.asText? with
  | some name =>
    if name.toList.contains '\x00' then .error .nullCharacter
    else if Codec.isKnown name then .ok name
    else .error (.unknownEncoding value.literal)
  | none => .error (.encodingIsNoText value.typeName)

/-- A heading command. Whatever counts as false is refused as empty. Bytes can make up a word too. -/
def checkedCommand (value : Datum) : Except Fault Atom :=
  if !value.isTrue then .error (.badSectionCommand value.literal)
  else
    match value with
    | .atom (.bytes bs) =>
      if bs.all isLetterByte then .ok (.bytes bs) else .error (.badSectionCommand value.literal)
    | .atom a =>
      match a.asText? with
      | some s => if isCommandName s then .ok a else .error (.badSectionCommand a.literal)
      | none => .error (value.lacking "isalpha")
    | value => .error (value.lacking "isalpha")

/-- Options from the values of their fields. The encoding is looked at first. -/
def checked (encoding escapePlainText sectionCommand : Datum) : Except Fault Options :=
  match checkedEncoding encoding with
  | .error f => .error f
  | .ok encodingName => (checkedCommand sectionCommand).map (⟨encodingName, escapePlainText.isTrue, ·⟩)

end Options

/-- New values for some of the fields of options. -/
structure Overrides where
  encoding : Option Datum
  escapePlainText : Option Datum
  sectionCommand : Option Datum
  deriving Repr

namespace Overrides

def isEmpty (o : Overrides) : Bool :=
  o.encoding.isNone && o.escapePlainText.isNone && o.sectionCommand.isNone

/-- Options with the new values in place of the old ones. -/
def applied (o : Overrides) (old : Options) : Except Fault Options :=
  Options.checked (o.encoding.getD (.atom (.text old.encodingName)))
    (o.escapePlainText.getD (.atom (.bool old.escapePlainText)))
    (o.sectionCommand.getD (.atom old.sectionCommand))

end Overrides

/-- What a caller gives as options. Options of the general class name an encoding only. -/
inductive Given
  | absent
  | options (o : Options)
  | general (encodingName : String)
  | other (value : Datum)
  deriving DecidableEq, Repr

namespace Given

def typeName : Given → String
  | absent => "NoneType"
  | options _ => "LatexRendererOptions"
  | general _ => "BaseRendererOptions"
  | other value => value.typeName

/-- The options of a renderer: the standard ones if none are given, and no others than those of its own
class. -/
def accepted : Given → Except Fault Options
  | absent => .ok .standard
  | options o => .ok o
  | g => .error (.wrongOptions "latex" "LatexRendererOptions" g.typeName)

/-- General options with overrides, which can be for the encoding only. -/
def generalOverridden (encodingName : String) (o : Overrides) : Except Fault Given :=
  if o.escapePlainText.isSome then .error (.unknownField "BaseRendererOptions" "escape_plain_text")
  else if o.sectionCommand.isSome then .error (.unknownField "BaseRendererOptions" "section_command")
  else (Options.checkedEncoding (o.encoding.getD (.atom (.text encodingName)))).map general

/-- The fault of updating a value that is not options. A class of options can be updated by none of its
own. -/
def notUpdated (value : Datum) : Fault :=
  match value with
  | .atom (.classRef name) =>
    if name = "LatexRendererOptions" ∨ name = "BaseRendererOptions" then
      .missingArgument "CloneFrozenMixin.create_updated" "self"
    else value.lacking "create_updated"
  | value => value.lacking "create_updated"

/-- Overrides are put over the given options. A value that counts as false gives way to the standard
options before they are, and one of another class has no way to be updated. -/
def overridden (g : Given) (o : Overrides) : Except Fault Given :=
  if o.isEmpty then .ok g
  else
    match g with
    | options old => (o.applied old).map options
    | general name => generalOverridden name o
    | absent => (o.applied .standard).map options
    | other value => if value.isTrue then .error (notUpdated value) else (o.applied .standard).map options

/-- The options that a rendering call works with. -/
def resolved (g : Given) (o : Overrides) : Except Fault Options :=
  match g.overridden o with
  | .error f => .error f
  | .ok merged => merged.accepted

end Given

end Manuscript
