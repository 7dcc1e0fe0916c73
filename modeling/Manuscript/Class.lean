import Manuscript.Kind
/-!
# Classes

A class can be a value itself. It is known by its name; the group that defines it and the type that it has
as a value follow from that.
-/
namespace Manuscript.Class

/-- The classes that are neither of objects nor enumerations, with their groups. -/
def others : List (String × String) :=
  [("Node", "texdoc.ast.nodes"), ("NodeVisitor", "texdoc.ast.visitors"),
    ("ValidationVisitor", "texdoc.ast.visitors"), ("DocumentStatistics", "texdoc.ast.visitors"),
    ("BaseRenderer", "texdoc.renderers.base"), ("LatexRenderer", "texdoc.renderers.latex"),
    ("CloneFrozenMixin", "texdoc.options"),
    ("TexDocError", "texdoc.exceptions"), ("ValidationError", "texdoc.exceptions"),
    ("InvalidOptionsError", "texdoc.exceptions"), ("RenderingError", "texdoc.exceptions"),
    ("OutputWriteError", "texdoc.exceptions"), ("OutputEncodingError", "texdoc.exceptions"),
    ("UnsupportedOperation", "io"), ("FrozenInstanceError", "dataclasses")]

def enumeration? (name : String) : Option Enumeration := Enumeration.all.find? (·.name == name)

/-- The group that defines a class. Basic classes belong to none. -/
def group? (name : String) : Option String :=
  ((Kind.ofName? name).map Kind.group).or (((enumeration? name).map Enumeration.group).or
    (others.lookup name))

/-- The name of a class after that of its group. -/
def qualifiedName (name : String) : String :=
  match group? name with
  | some group => group ++ "." ++ name
  | none => name

/-- Classes of nodes and of renderers leave some of their methods to others. -/
def isAbstract (name : String) : Bool :=
  (Kind.ofName? name).any Kind.isNode || ["Node", "BaseRenderer", "LatexRenderer"].contains name

/-- The type that a class has as a value. -/
def typeName (name : String) : String :=
  if (enumeration? name).isSome then "EnumType" else if isAbstract name then "ABCMeta" else "type"

/-- The attributes that objects and members derive from their own values, with their classes. -/
def derived : List (String × String) :=
  [("Document", "is_part"), ("NewCommand", "command"), ("ListKind", "environment_name"),
    ("ColumnAlignment", "code")]

/-- How a class is shown. -/
def literal (name : String) : String :=
  if (enumeration? name).isSome then "<enum '" ++ name ++ "'>"
  else "<class '" ++ qualifiedName name ++ "'>"

/-- How the type of a class is shown. -/
def typeLiteral (name : String) : String :=
  match typeName name with
  | "EnumType" => "<class 'enum.EnumType'>"
  | "ABCMeta" => "<class 'abc.ABCMeta'>"
  | other => "<class '" ++ other ++ "'>"

end Manuscript.Class
