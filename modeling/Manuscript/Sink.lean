import Manuscript.Writer
/-!
# Sinks

A sink takes pieces of text one by one. A text sink keeps them, or has them written as the bytes of a
stream; in front of a byte stream a writer does that. An encoding with a mark writes it with the first
piece, whatever that is, and so not at all if there is none. A piece that is refused leaves the sink as it
was. A value that is no text is taken by a recorder of texts only.
-/
namespace Manuscript

/-- One write as a recorder sees it. -/
inductive Entry
  | text (s : String)
  | bytes (bs : List UInt8)
  | value (d : Datum)
  deriving DecidableEq, Repr

/-- A recorder keeps every write apart. It takes `limit` writes, if there is a limit, and answers all
others with its fault. -/
structure Recorder where
  entries : List Entry
  limit : Option Nat
  fault : Fault
  deriving DecidableEq, Repr

def Recorder.record (r : Recorder) (entry : Entry) : Except Fault Recorder :=
  if r.limit.any (· ≤ r.entries.length) then .error r.fault
  else .ok { r with entries := r.entries ++ [entry] }

/-- A stream of bytes in memory or in a file. `kind` words its refusals. -/
structure ByteStream where
  kind : Stream
  content : List UInt8
  closed : Bool
  writable : Bool
  deriving DecidableEq, Repr

/-- A buffered file that is not open for writing says so even when it is closed. -/
def ByteStream.refusal? (s : ByteStream) : Option Fault :=
  if s.kind = .byteFile ∧ !s.writable then some (.notWritable s.kind)
  else if s.closed then some (.closed s.kind)
  else if !s.writable then some (.notWritable s.kind)
  else none

def ByteStream.append (s : ByteStream) (bytes : List UInt8) : Except Fault ByteStream :=
  match s.refusal? with
  | some f => .error f
  | none => .ok { s with content := s.content ++ bytes }

/-- A stream of text over bytes: a file or a wrapper. -/
structure TextStream where
  bytes : ByteStream
  writer : Writer

/-- What takes the pieces of a rendering. -/
inductive Sink
  | buffer (content : String) (closed : Bool)
  | stream (s : TextStream)
  | recorder (r : Recorder)
  | encodedStream (writer : Writer) (s : ByteStream)
  | encodedRecorder (writer : Writer) (r : Recorder)

namespace Sink

def write (sink : Sink) (piece : String) : Except Fault Sink :=
  match sink with
  | buffer content closed =>
    if closed then .error (.closed .textBuffer) else .ok (buffer (content ++ piece) closed)
  | stream s =>
    match s.bytes.refusal? with
    | some f => .error f
    | none =>
      match s.writer.bytes piece with
      | .error f => .error f
      | .ok bytes =>
        .ok (stream ⟨{ s.bytes with content := s.bytes.content ++ bytes }, s.writer.after piece⟩)
  | recorder r => (r.record (.text piece)).map recorder
  | encodedStream writer s =>
    match writer.bytes piece with
    | .error f => .error f
    | .ok bytes => (s.append bytes).map (encodedStream (writer.after piece) ·)
  | encodedRecorder writer r =>
    match writer.bytes piece with
    | .error f => .error f
    | .ok bytes => (r.record (.bytes bytes)).map (encodedRecorder (writer.after piece) ·)

/-- Why a sink refuses a value that is no text. -/
def refusal (sink : Sink) (value : Datum) : Fault :=
  match sink with
  | buffer _ _ => .notText value.typeName .textBuffer
  | encodedStream writer _ | encodedRecorder writer _ => writer.refusal value
  | stream _ | recorder _ => .notText value.typeName .textStream

/-- Writes any value. What stands for a text is written as that text. -/
def writeValue (sink : Sink) (value : Datum) : Except Fault Sink :=
  match sink with
  | recorder r => (r.record (.value value)).map recorder
  | sink =>
    match value.asText? with
    | some text => sink.write text
    | none => .error (sink.refusal value)

/-- Writes pieces in turn: how many were taken, the sink after them, and the fault of the one that was
not. -/
def writeAll (sink : Sink) : List String → Nat × Sink × Option Fault
  | [] => (0, sink, none)
  | p :: ps =>
    match sink.write p with
    | .error f => (0, sink, some f)
    | .ok next =>
      let (n, last, fault) := next.writeAll ps
      (n + 1, last, fault)

end Sink

end Manuscript
