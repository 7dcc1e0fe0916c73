import Manuscript.Fault
/-!
# Files

The directories and files below a working directory. A place in it is the list of names that lead to it;
`locate` finds the place of a path where a file can be written, and tells why there is none.
-/
namespace Manuscript

abbrev Place := List String

structure Files where
  directories : List Place
  contents : List (Place × List UInt8)
  deriving Repr

namespace Files

def empty : Files := ⟨[], []⟩

def isDirectory (fs : Files) (place : Place) : Bool := place.isEmpty || fs.directories.contains place

def content? (fs : Files) (place : Place) : Option (List UInt8) := fs.contents.lookup place

/-- Whether a name is longer than 255 bytes. -/
def isTooLong (name : String) : Bool := 255 < name.utf8ByteSize

/-- The directory that names lead to from a directory. -/
def descend (fs : Files) (path : String) : Place → List String → Except Fault Place
  | here, [] => .ok here
  | here, name :: names =>
    if name = "." then fs.descend path here names
    else if name = ".." then fs.descend path here.dropLast names
    else if fs.isDirectory (here ++ [name]) then fs.descend path (here ++ [name]) names
    else if isTooLong name then .error (.nameTooLong path)
    else if (fs.content? (here ++ [name])).isSome then .error (.notDirectory path)
    else .error (.missingFile path)

/-- The place where a file of this path can be written. -/
def locate (fs : Files) (path : String) : Except Fault Place :=
  if path.toList.contains '\x00' then .error .nullByte
  else if 4096 ≤ path.utf8ByteSize then .error (.nameTooLong path)
  else
    match (Path.names path).reverse with
    | [] => .error (if path.isEmpty then .missingFile path else .isDirectory path)
    | name :: before =>
      match fs.descend path [] before.reverse with
      | .error f => .error f
      | .ok here =>
        if name = "." ∨ name = ".." ∨ path.toList.getLast? = some '/' ∨
            fs.isDirectory (here ++ [name]) then
          .error (.isDirectory path)
        else if isTooLong name then .error (.nameTooLong path)
        else .ok (here ++ [name])

/-- The content of the file at a path. -/
def read? (fs : Files) (path : String) : Option (List UInt8) :=
  match fs.locate path with
  | .ok place => fs.content? place
  | .error _ => none

/-- Puts the content of the file at a place, in the stead of what it held. -/
def put (fs : Files) (place : Place) (bytes : List UInt8) : Files :=
  { fs with contents := (place, bytes) :: fs.contents.filter (·.1 != place) }

/-- Makes a directory and those on the way to it. -/
def makeDirectory (fs : Files) (path : String) : Files :=
  let names := Path.steps path
  let places := (List.range names.length).map fun n => names.take (n + 1)
  { fs with directories := fs.directories ++ places.filter (!fs.directories.contains ·) }

@[simp] theorem content?_put (fs : Files) (place : Place) (bytes : List UInt8) :
    (fs.put place bytes).content? place = some bytes := by
  simp [put, content?]

end Files

end Manuscript
