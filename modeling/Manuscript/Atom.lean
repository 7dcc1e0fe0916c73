import Manuscript.Class
import Manuscript.Number.Shortest
import Manuscript.Path
import Manuscript.Text.Quoted
/-!
# Atoms

The values that hold no other values. An atom has a printed text, which is what a template inserts, and a
literal, which is what a message shows.
-/
namespace Manuscript

/-- `nan` is a number without a value. `classRef` is a class itself, by its name; `accessor` is what a class
shows of an attribute that its objects derive; `failure` is a failure by its class and its text. Two failures of
one class and text, or two numbers without a value, can be told apart, so they carry an identity. -/
inductive Atom
  | none
  | bool (value : Bool)
  | int (value : Int)
  | double (value : Double)
  | nan (identity : Nat)
  | text (value : String)
  | bytes (value : List UInt8)
  | path (value : String)
  | member (value : Member)
  | classRef (name : String)
  | accessor (className name : String)
  | failure (identity : Nat) (className message : String)
  deriving DecidableEq, Repr

namespace Atom

def typeName : Atom → String
  | none => "NoneType"
  | bool _ => "bool"
  | int _ => "int"
  | double _ | nan _ => "float"
  | text _ => "str"
  | bytes _ => "bytes"
  | path _ => "PosixPath"
  | member m => m.enumeration.name
  | classRef name => Class.typeName name
  | accessor _ _ => "property"
  | failure _ className _ => className

/-- The characters of an atom that counts as text: a text, or a document class, which stands for its own
name. -/
def asText? : Atom → Option String
  | text s => some s
  | member (.documentClass c) => some c.name
  | _ => Option.none

def isText (a : Atom) : Bool := a.asText?.isSome

/-- The text of a failure. A missing key is shown as a literal. -/
def failureText (className message : String) : String :=
  if className = "KeyError" then Text.quoted message else message

/-- What a template inserts. -/
def printed : Atom → String
  | none => "None"
  | bool b => if b then "True" else "False"
  | int i => toString i
  | double d => d.text
  | nan _ => "nan"
  | text s => s
  | bytes bs => Text.quotedBytes bs
  | path p => p
  | member m => m.fullName
  | classRef name => Class.literal name
  | accessor _ _ => "<property object>"
  | failure _ className message => failureText className message

/-- What a message shows. -/
def literal : Atom → String
  | text s => Text.quoted s
  | path p => "PosixPath(" ++ Text.quoted p ++ ")"
  | member m => "<" ++ m.fullName ++ ": " ++ Text.quoted m.value ++ ">"
  | failure _ className message => className ++ "(" ++ Text.quoted message ++ ")"
  | a => a.printed

/-- How the type of an atom is shown. -/
def typeLiteral : Atom → String
  | path _ => "<class 'pathlib.PosixPath'>"
  | classRef name => Class.typeLiteral name
  | a => Class.literal a.typeName

/-- Empty and zero values count as false. -/
def isTrue : Atom → Bool
  | none => false
  | bool b => b
  | int i => i != 0
  | double d => !d.isZero
  | text s => !s.isEmpty
  | bytes bs => !bs.isEmpty
  | _ => true

/-- The integer that a whole number or a truth value stands for. -/
def asInt? : Atom → Option Int
  | int i => some i
  | bool b => some (if b then 1 else 0)
  | _ => Option.none

/-- The value of a number, whatever its form. -/
def quantity? : Atom → Option Quantity
  | double d => some d.quantity
  | a => a.asInt?.map .ofInt

/-- Equality of values: numbers are compared by their values, and a document class equals its name. A
number without a value equals nothing. -/
def same (x y : Atom) : Bool :=
  match x.quantity?, y.quantity? with
  | some p, some q => p.same q
  | some _, Option.none => false
  | Option.none, some _ => false
  | Option.none, Option.none =>
    match x, y with
    | nan _, _ => false
    | x, y =>
      match x.asText?, y.asText? with
      | some s, some t => s == t
      | _, _ => x == y

/-- What counts as equality inside a container: there a number without a value equals itself. -/
def sameItem (x y : Atom) : Bool := x == y || x.same y

end Atom

namespace Kind

/-- The value that a field has unless another is given, if all objects of the kind can share it. A class
itself has these as attributes. -/
def standard? : Kind → String → Option Atom
  | document, "document_class" => some (.member (.documentClass .article))
  | columnSettings, "alignment" => some (.member (.alignment .left))
  | usePackage, "argument" | newCommand, "arguments" | preamble, "title" | preamble, "author"
  | equation, "label" | list, "argument" | tableRow, "columns" => some .none
  | equation, "not_numbered" | tableRow, "skip_terminator" | latexOptions, "escape_plain_text" =>
    some (.bool false)
  | baseOptions, "encoding" | latexOptions, "encoding" => some (.text "utf-8")
  | latexOptions, "section_command" => some (.text "section")
  | _, _ => Option.none

end Kind

namespace Class

/-- An attribute of a class itself: a standard value, or what it shows of a derived attribute. -/
def attribute? (className name : String) : Option Atom :=
  ((Kind.ofName? className).bind (·.standard? name)).or
    (if derived.contains (className, name) then some (.accessor className name) else none)

end Class

end Manuscript
