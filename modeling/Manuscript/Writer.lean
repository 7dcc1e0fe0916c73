import Manuscript.Fault
/-!
# Writers

A writer stands in front of a stream of bytes and turns the pieces of a text into them. The writers of the supported
encodings are described here. Those of all other codecs come from outside, as an instance of `Codecs`.
-/
namespace Manuscript

/-- What becomes of characters that a stream's encoding does not represent. -/
inductive Handling
  | strict | replace | ignore
  deriving DecidableEq, Repr

/-- The text that is encoded in place of a given one. -/
def Handling.prepared (h : Handling) (e : Encoding) (text : String) : String :=
  match h with
  | strict => text
  | replace => String.ofList (text.toList.map fun c => if e.represents c then c else '?')
  | ignore => String.ofList (text.toList.filter e.represents)

/-- An encoder and whether it has written before. -/
structure Encoder where
  encoding : Encoding
  handling : Handling
  started : Bool
  deriving DecidableEq, Repr

/-- The bytes of a piece: those of its text, after the mark if it is the first. -/
def Encoder.bytes (e : Encoder) (piece : String) : Except Fault (List UInt8) :=
  match e.encoding.body (e.handling.prepared e.encoding piece) with
  | .error r => .error (.unencodable r)
  | .ok bytes => .ok ((if e.started then [] else e.encoding.mark) ++ bytes)

/-- What a codec makes of a piece after the pieces that it has written, and why it refuses a value that is no text.
The same text may come to other bytes if it is cut into other pieces. -/
structure CodecWriter where
  bytes (written : List String) (piece : String) : Except Fault (List UInt8)
  refusal (written : List String) (value : Datum) : Fault

/-- The writers of the codecs that are no supported encodings, in front of the bytes of a text stream, which may have
begun before, and in front of a byte stream. A codec may have none. -/
class Codecs where
  textWriter (own : String) (handling : Handling) (started : Bool) : Except Fault CodecWriter
  byteWriter (own : String) : Except Fault CodecWriter

/-- Where nothing is said of other codecs, there are none. -/
instance (priority := low) : Codecs where
  textWriter own _ _ := .error (.noSuchEncoding own)
  byteWriter own := .error (.noSuchEncoding own)

inductive Writer
  | encoder (e : Encoder)
  | codec (w : CodecWriter) (written : List String)

namespace Writer

/-- The bytes of the next piece. -/
def bytes : Writer → String → Except Fault (List UInt8)
  | encoder e, piece => e.bytes piece
  | codec w written, piece => w.bytes written piece

/-- The writer after a piece. -/
def after : Writer → String → Writer
  | encoder e, _ => encoder { e with started := true }
  | codec w written, piece => codec w (written ++ [piece])

/-- Why a value that is no text is refused. -/
def refusal : Writer → Datum → Fault
  | encoder e, value => .notText value.typeName (.encoder (e.encoding.writerName e.started))
  | codec w written, value => w.refusal written value

@[simp] theorem bytes_encoder (e : Encoder) : (encoder e).bytes = e.bytes := rfl

@[simp] theorem after_encoder (e : Encoder) (piece : String) :
    (encoder e).after piece = encoder { e with started := true } := rfl

/-- The writer of a text stream, for an encoding that is named. -/
def forText [Codecs] (encodingName : String) (handling : Handling) (started : Bool) : Except Fault Writer := do
  match ← Codec.find encodingName with
  | .supported e => return encoder ⟨e, handling, started⟩
  | .other own => return codec (← Codecs.textWriter own handling started) []

/-- The writer in front of a byte stream, for an encoding that is named. -/
def forBytes [Codecs] (encodingName : String) : Except Fault Writer := do
  match ← Codec.find encodingName with
  | .supported e => return encoder ⟨e, .strict, false⟩
  | .other own => return codec (← Codecs.byteWriter own) []

theorem forText_supported [Codecs] {encodingName : String} {e : Encoding}
    (h : Codec.ofName? encodingName = some (.supported e)) (handling : Handling) (started : Bool) :
    forText encodingName handling started = .ok (encoder ⟨e, handling, started⟩) := by
  rw [forText, Codec.find, h]
  rfl

theorem forBytes_supported [Codecs] {encodingName : String} {e : Encoding}
    (h : Codec.ofName? encodingName = some (.supported e)) :
    forBytes encodingName = .ok (encoder ⟨e, .strict, false⟩) := by
  rw [forBytes, Codec.find, h]
  rfl

end Writer

end Manuscript
