/-!
# Paths

The text of a path is kept tidy: names are divided by single slashes, and names that lead nowhere are left
out. A path from the root starts with one slash; two slashes at the start are another root, more than two
are one.
-/
namespace Manuscript.Path

/-- The names between the slashes of a path, empty ones left out. -/
def names (path : String) : List String :=
  let close (name : List Char) (names : List String) : List String :=
    if name.isEmpty then names else String.ofList name :: names
  let (name, names) := path.toList.foldr
    (fun c (name, names) => if c = '/' then ([], close name names) else (c :: name, names)) ([], [])
  close name names

/-- The root that a path starts from, empty if it starts from the working directory. -/
def root (path : String) : String :=
  match path.toList with
  | '/' :: '/' :: '/' :: _ => "/"
  | '/' :: '/' :: _ => "//"
  | '/' :: _ => "/"
  | _ => ""

/-- The names that lead somewhere. -/
def steps (path : String) : List String := (names path).filter (· != ".")

/-- The text of a path. The empty path is the working directory. -/
def tidy (path : String) : String :=
  let text := root path ++ "/".intercalate (steps path)
  if text.isEmpty then "." else text

/-- The parts by which paths are put in order: the root, if there is one, and the names. -/
def parts (path : String) : List String :=
  (if (root path).isEmpty then [] else [root path]) ++ steps path

end Manuscript.Path
