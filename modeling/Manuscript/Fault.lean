import Manuscript.Codec
import Manuscript.Datum
import Manuscript.Text.Escape
import Manuscript.Violation
/-!
# Faults

Why an operation fails. A fault names its cause; `Fault.message` words it. Faults of an output stream
come in two families, of which a renderer reports one as failed writes and leaves the other alone.
-/
namespace Manuscript

/-- The forms into which a value could not be brought. -/
inductive TargetForm
  | element | inline | row
  deriving DecidableEq, Repr

/-- The uses for which a value that is not a text was refused: to end a line, to be joined to others, to be
escaped, to lose its leading backslashes, to be written to a text in memory, to a text stream or through an
encoder. -/
inductive TextUse
  | line
  | joint (position : Nat)
  | escaping
  | stripping
  | textBuffer
  | textStream
  | encoder (function : String)
  deriving DecidableEq, Repr

/-- The relations in which values are compared. -/
inductive Relation
  | less | atMost | greater
  deriving DecidableEq, Repr

def Relation.symbol : Relation → String
  | less => "<"
  | atMost => "<="
  | greater => ">"

/-- The kinds of streams that word their refusals differently. -/
inductive Stream
  | textBuffer | byteBuffer | textFile | byteFile | rawFile
  deriving DecidableEq, Repr

/-- Whether a renderer reports a stream's fault as a failed write, as a failed encoding or not at all. -/
inductive StreamFaultFamily
  | output | encoding | other
  deriving DecidableEq, Repr

inductive Fault
  -- names, attributes and items
  | unbound (name : String)
  | noAttribute (owner : Owner) (name : String)
  | noSetter (typeName name : String)
  | fixedMember (name : String)
  | missingArgument (function argument : String)
  | notIterable (typeName : String)
  | notJoinable
  | noLength (typeName : String)
  | itemOutOfRange (typeName : String)
  | indexTooLarge
  | missingKey (literal : String)
  | notSubscriptable (typeName : String)
  | classNotSubscriptable (name : String)
  | noItemAssignment (typeName : String)
  | noPlaceAssigned
  -- values of a wrong type
  | unhashable (typeName : String)
  | notText (typeName : String) (use : TextUse)
  | notIndex (typeName : String)
  | notPosition (typeName : String)
  | notRepeatable (typeName : String)
  | countTooLarge
  | outOfMemory
  | notCounter (typeName : String)
  | notOrdered (relation : Relation) (left right : String)
  -- conversions
  | unconvertible (typeName : String) (target : TargetForm)
  | notEquation (typeName : String)
  | cellsAreText
  | linesAreText
  | notColumn (typeName : String)
  | notColumnSettings (typeName : String)
  | rawColumns
  | notMember (literal : String) (enumeration : Enumeration)
  -- positions in tables, by their texts
  | rowOutOfRange (index : String) (rows : Nat)
  | noSuchColumn (column columns : String)
  -- options
  | unknownEncoding (literal : String)
  | encodingIsNoText (typeName : String)
  | fileEncodingIsNoText (typeName : String)
  | badSectionCommand (literal : String)
  | frozenField (field : String)
  | unknownField (className field : String)
  | wrongOptions (renderer expected received : String)
  -- output
  | noSuchEncoding (name : String)
  | nullCharacter
  | nullByte
  | unsupportedOutput (typeLiteral : String)
  | noStringForm (renderer : String)
  | unencodable (refusal : Refusal)
  | closed (stream : Stream)
  | notWritable (stream : Stream)
  | missingFile (path : String)
  | fileExists (path : String)
  | isDirectory (path : String)
  | notDirectory (path : String)
  | nameTooLong (path : String)
  | raised (family : StreamFaultFamily) (className message : String)
  | writeFailed (destination : Atom) (cause : Fault)
  | encodingFailed (encoding : Datum) (cause : Fault)
  -- composition
  | violation (v : Violation)
  deriving DecidableEq, Repr

/-- The fault of looking for an attribute that a value does not have. -/
def Datum.lacking (d : Datum) (name : String) : Fault := .noAttribute d.owner name

/-- A value with its text escaped. What counts as false needs no escaping, and of all others only a text, or
what stands for one, can be escaped. -/
def Datum.escaped (d : Datum) : Except Fault Datum :=
  if !d.isTrue then .ok d
  else
    match d.asText? with
    | some text => .ok (.text (Text.escape text))
    | .none => .error (.notText d.typeName .escaping)

/-- The codec of a name. -/
def Codec.find (name : String) : Except Fault Codec :=
  match ofName? name with
  | some codec => .ok codec
  | none => .error (.noSuchEncoding name)

namespace Fault

def lackMessage (name : String) : Owner → String
  | .value t => "'" ++ t ++ "' object has no attribute '" ++ name ++ "'"
  | .theClass c => "type object '" ++ c ++ "' has no attribute '" ++ name ++ "'"
  | .enumeration => name

def closedMessage : Stream → String
  | .textBuffer | .rawFile => "I/O operation on closed file"
  | .byteBuffer | .textFile => "I/O operation on closed file."
  | .byteFile => "write to closed file"

def notWritableMessage : Stream → String
  | .byteFile => "write"
  | .rawFile => "File not open for writing"
  | _ => "not writable"

/-- Where nothing at all stands in the place of a text, it is shown by its own name. -/
def valueOrType (typeName : String) : String := if typeName = "NoneType" then "None" else typeName

/-- Values that can be put together with others of their own type say so when a text is put to them. -/
def notLineMessage (typeName : String) : String :=
  if typeName = "list" ∨ typeName = "tuple" then
    "can only concatenate " ++ typeName ++ " (not \"str\") to " ++ typeName
  else if typeName = "bytes" then "can't concat str to bytes"
  else "unsupported operand type(s) for +: '" ++ typeName ++ "' and 'str'"

def notTextMessage (typeName : String) : TextUse → String
  | .line => notLineMessage typeName
  | .joint position =>
    "sequence item " ++ toString position ++ ": expected str instance, " ++ typeName ++ " found"
  | .escaping =>
    if typeName = "bytes" then "cannot use a string pattern on a bytes-like object"
    else "expected string or bytes-like object, got '" ++ typeName ++ "'"
  | .stripping => "a bytes-like object is required, not 'str'"
  | .textBuffer => "string argument expected, got '" ++ typeName ++ "'"
  | .textStream => "write() argument must be str, not " ++ valueOrType typeName
  | .encoder function => function ++ "() argument 1 must be str, not " ++ valueOrType typeName

/-- What counting one more says about a value that is no number. -/
def notCounterMessage (typeName : String) : String :=
  if typeName = "list" then "'int' object is not iterable"
  else if typeName = "bytes" then "can't concat int to bytes"
  else if typeName = "tuple" then "can only concatenate tuple (not \"int\") to tuple"
  else if typeName = "str" ∨ typeName = "DocumentClass" then
    "can only concatenate str (not \"int\") to str"
  else "unsupported operand type(s) for +=: '" ++ typeName ++ "' and 'int'"

def outOfRangeMessage (typeName : String) : String :=
  match typeName with
  | "str" | "DocumentClass" => "string index out of range"
  | "bytes" => "index out of range"
  | other => other ++ " index out of range"

def message : Fault → String
  | unbound name => Text.quoted name
  | noAttribute owner name => lackMessage name owner
  | noSetter t name => "property '" ++ name ++ "' of '" ++ t ++ "' object has no setter"
  | fixedMember name => "<enum 'Enum'> cannot set attribute '" ++ name ++ "'"
  | missingArgument function argument =>
    function ++ "() missing 1 required positional argument: '" ++ argument ++ "'"
  | notIterable t => "'" ++ t ++ "' object is not iterable"
  | notJoinable => "can only join an iterable"
  | noLength t => "object of type '" ++ t ++ "' has no len()"
  | itemOutOfRange t => outOfRangeMessage t
  | indexTooLarge | countTooLarge => "cannot fit 'int' into an index-sized integer"
  | outOfMemory => ""
  | missingKey literal => literal
  | notSubscriptable t => "'" ++ t ++ "' object is not subscriptable"
  | classNotSubscriptable name => "type '" ++ name ++ "' is not subscriptable"
  | noItemAssignment t => "'" ++ t ++ "' object does not support item assignment"
  | noPlaceAssigned => "list assignment index out of range"
  | unhashable t => "unhashable type: '" ++ t ++ "'"
  | notText t use => notTextMessage t use
  | notIndex t => "'" ++ t ++ "' object cannot be interpreted as an integer"
  | notPosition t => "list indices must be integers or slices, not " ++ t
  | notRepeatable t => "can't multiply sequence by non-int of type '" ++ t ++ "'"
  | notCounter t => notCounterMessage t
  | notOrdered relation l r =>
    "'" ++ relation.symbol ++ "' not supported between instances of '" ++ l ++ "' and '" ++ r ++ "'"
  | unconvertible t .element => "Cannot convert " ++ t ++ " to a document element"
  | unconvertible t .inline => "Cannot convert " ++ t ++ " to inline paragraph content"
  | unconvertible t .row => "Cannot convert " ++ t ++ " to a table row"
  | notEquation t => "Cannot add " ++ t ++ " to an Align"
  | cellsAreText => "A table row must be a sequence of cells, not a single string"
  | linesAreText => "Environment lines must be a sequence of strings, not a single string"
  | notColumn t => "Expected TableColumnSettings, got " ++ t
  | notColumnSettings t => "Cannot use " ++ t ++ " as table column settings"
  | rawColumns => "Raw column settings have no per-column form"
  | notMember literal enumeration => literal ++ " is not a valid " ++ enumeration.name
  | rowOutOfRange i n =>
    "Row index " ++ i ++ " out of range for table with " ++ toString n ++ " rows"
  | noSuchColumn c n => "Column " ++ c ++ " does not exist (table has " ++ n ++ " columns)"
  | unknownEncoding literal => "Unknown encoding: " ++ literal
  | encodingIsNoText t => "lookup() argument must be str, not " ++ valueOrType t
  | fileEncodingIsNoText t => "open() argument 'encoding' must be str or None, not " ++ t
  | badSectionCommand literal =>
    "section_command must be a non-empty alphabetic name, got " ++ literal
  | frozenField field => "cannot assign to field '" ++ field ++ "'"
  | unknownField className field =>
    className ++ ".__init__() got an unexpected keyword argument '" ++ field ++ "'"
  | wrongOptions renderer expected received =>
    renderer ++ " expected options of type '" ++ expected ++ "' but received '" ++ received ++
      "'. Please provide the correct options type for the renderer."
  | noSuchEncoding name => "unknown encoding: " ++ name
  | nullCharacter => "embedded null character"
  | nullByte => "embedded null byte"
  | unsupportedOutput t => "Unsupported output type: " ++ t
  | noStringForm renderer => renderer ++ " does not support rendering to a string."
  | unencodable r => r.message
  | closed s => closedMessage s
  | notWritable s => notWritableMessage s
  | missingFile path => "[Errno 2] No such file or directory: " ++ Text.quoted path
  | fileExists path => "[Errno 17] File exists: " ++ Text.quoted path
  | isDirectory path => "[Errno 21] Is a directory: " ++ Text.quoted path
  | notDirectory path => "[Errno 20] Not a directory: " ++ Text.quoted path
  | nameTooLong path => "[Errno 36] File name too long: " ++ Text.quoted path
  | raised _ _ text => text
  | writeFailed destination cause =>
    "Failed to write output to " ++ destination.printed ++ ": " ++ cause.message
  | encodingFailed encoding cause =>
    "Rendered output cannot be encoded as " ++ encoding.printed ++ ": " ++ cause.message
  | violation v => v.message

/-- Whether the fault is one of a stream that takes no more output. -/
def isOutputFault : Fault → Bool
  | closed _ | notWritable _ | missingFile _ | isDirectory _ | notDirectory _ | nameTooLong _ => true
  | raised .output _ _ => true
  | _ => false

end Fault

end Manuscript
