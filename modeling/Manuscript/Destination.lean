import Manuscript.Files
import Manuscript.Options
import Manuscript.Sink
/-!
# Destinations

Where rendered text can be sent. A destination is opened to a sink, and left in the state that the sink has
come to: files are closed, streams stay open.
-/
namespace Manuscript

/-- Where rendered text can be sent. The name, which counts as text, is what reports call it; `encoding` is
what a stream declares as its own encoding. A value that is neither a path nor a stream takes no output. -/
inductive Destination
  | path (text : String) (name : Atom)
  | text (sink : Sink) (name : Atom) (encoding : Option Datum)
  | bytes (s : ByteStream) (name : Atom)
  | byteRecorder (r : Recorder) (name : Atom) (encoding : Option Datum)
  | unsupported (typeLiteral : String) (name : Atom)

namespace Destination

def name : Destination → Atom
  | path _ name => name
  | text _ name _ => name
  | bytes _ name => name
  | byteRecorder _ name _ => name
  | unsupported _ name => name

/-- The encoding that a destination declares as its own. -/
def declared : Destination → Option Datum
  | text _ _ encoding => encoding
  | byteRecorder _ _ encoding => encoding
  | _ => none

/-- Whether the destination expects bytes. -/
def isBinary : Destination → Bool
  | bytes _ _ | byteRecorder _ _ _ => true
  | _ => false

/-- Whether the destination needs an encoding. -/
def encodes : Destination → Bool
  | path _ _ => true
  | d => d.isBinary

/-- The sink for an encoding, and the files once it is open. A file is made or emptied before its encoding
is looked up. -/
def opened [Codecs] (d : Destination) (encodingName : String) (fs : Files) : Files × Except Fault Sink :=
  match d with
  | text sink _ _ => (fs, .ok sink)
  | unsupported typeLiteral _ => (fs, .error (.unsupportedOutput typeLiteral))
  | path p _ =>
    match fs.locate p with
    | .error f => (fs, .error f)
    | .ok place =>
      (fs.put place [], (Writer.forText encodingName .strict false).map fun writer =>
        .stream ⟨⟨.textFile, [], false, true⟩, writer⟩)
  | bytes s _ => (fs, (Writer.forBytes encodingName).map (.encodedStream · s))
  | byteRecorder r _ _ => (fs, (Writer.forBytes encodingName).map (.encodedRecorder · r))

/-- Opens a destination for an encoding that is any value. A file takes no other value than a text or
nothing at all, which stands for the standard encoding; text destinations do not ask. -/
def openedFor [Codecs] (d : Destination) (encoding : Datum) (fs : Files) : Files × Except Fault Sink :=
  match d, encoding.asText? with
  | d, some name =>
    if d.encodes && name.toList.contains '\x00' then (fs, .error .nullCharacter) else d.opened name fs
  | path _ _, none =>
    if encoding = .none then d.opened Options.standard.encodingName fs
    else (fs, .error (.fileEncodingIsNoText encoding.typeName))
  | bytes _ _, none | byteRecorder _ _ _, none => (fs, .error (.encodingIsNoText encoding.typeName))
  | d, none => d.opened Options.standard.encodingName fs

/-- The destination and the files after the sink has been used. -/
def released (d : Destination) (last : Sink) (fs : Files) : Destination × Files :=
  match d, last with
  | path p _, .stream s =>
    match fs.locate p with
    | .ok place => (d, fs.put place s.bytes.content)
    | .error _ => (d, fs)
  | text _ name encoding, last => (text last name encoding, fs)
  | bytes _ name, .encodedStream _ s => (bytes s name, fs)
  | byteRecorder _ name encoding, .encodedRecorder _ r => (byteRecorder r name encoding, fs)
  | d, _ => (d, fs)

end Destination

end Manuscript
