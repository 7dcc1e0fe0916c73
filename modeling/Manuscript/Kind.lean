/-!
# Kinds of objects

The closed sets that documents are made of: the kinds of objects with the names of their fields, and the
members of the three enumerations.
-/
namespace Manuscript

/-- The classes of objects: document nodes first, then rules, column settings and options. -/
inductive Kind
  | plain | bold | italic | inlineMath
  | paragraph | sectioning | tableOfContents | titlePage | clearPage | environment | userDefined | input
  | usePackage | newCommand | preambleLine | preamble | document
  | equation | align | item | list
  | tableRow | table
  | horizontalRule | columnSettings | typedSettings | rawSettings
  | baseOptions | latexOptions
  deriving DecidableEq, Repr

namespace Kind

def name : Kind → String
  | plain => "Plain"
  | bold => "Bold"
  | italic => "Italic"
  | inlineMath => "InlineMath"
  | paragraph => "Paragraph"
  | sectioning => "Section"
  | tableOfContents => "TableOfContents"
  | titlePage => "TitlePage"
  | clearPage => "ClearPage"
  | environment => "Environment"
  | userDefined => "UserDefined"
  | input => "Input"
  | usePackage => "UsePackage"
  | newCommand => "NewCommand"
  | preambleLine => "PreambleUserDefined"
  | preamble => "Preamble"
  | document => "Document"
  | equation => "Equation"
  | align => "Align"
  | item => "Item"
  | list => "List"
  | tableRow => "TableRow"
  | table => "Table"
  | horizontalRule => "TableHLine"
  | columnSettings => "TableColumnSettings"
  | typedSettings => "TypedColumnSettings"
  | rawSettings => "RawColumnSettings"
  | baseOptions => "BaseRendererOptions"
  | latexOptions => "LatexRendererOptions"

def all : List Kind :=
  [plain, bold, italic, inlineMath, paragraph, sectioning, tableOfContents, titlePage, clearPage,
    environment, userDefined, input, usePackage, newCommand, preambleLine, preamble, document, equation,
    align, item, list, tableRow, table, horizontalRule, columnSettings, typedSettings, rawSettings,
    baseOptions, latexOptions]

def ofName? (name : String) : Option Kind := all.find? (·.name == name)

/-- The name of the group of definitions that a kind belongs to. -/
def group : Kind → String
  | equation | align => "texdoc.ast.equations"
  | item | list => "texdoc.ast.lists"
  | tableRow | table | horizontalRule | columnSettings | typedSettings | rawSettings =>
    "texdoc.ast.tables"
  | baseOptions | latexOptions => "texdoc.options"
  | _ => "texdoc.ast.nodes"

/-- The names of the fields, in their order. -/
def fields : Kind → List String
  | plain | inlineMath | userDefined | item => ["text"]
  | bold | italic | paragraph => ["content"]
  | sectioning => ["name", "elements"]
  | tableOfContents | titlePage | clearPage | horizontalRule => []
  | environment => ["name", "lines"]
  | input => ["path"]
  | usePackage => ["package", "argument"]
  | newCommand => ["name", "definition", "arguments"]
  | preambleLine => ["line"]
  | preamble => ["title", "author", "elements"]
  | document => ["document_class", "preamble", "elements"]
  | equation => ["text", "label", "not_numbered"]
  | align => ["equations"]
  | list => ["kind", "items", "argument"]
  | tableRow => ["cells", "columns", "skip_terminator"]
  | table => ["rows", "column_settings", "default_column_settings"]
  | columnSettings => ["alignment"]
  | typedSettings => ["columns"]
  | rawSettings => ["spec"]
  | baseOptions => ["encoding"]
  | latexOptions => ["encoding", "escape_plain_text", "section_command"]

/-- The field whose items one gets by going through an object of the kind. -/
def itemField? : Kind → Option String
  | paragraph => some "content"
  | sectioning | preamble | document => some "elements"
  | align => some "equations"
  | list => some "items"
  | tableRow => some "cells"
  | _ => none

/-- The kinds that can be walked: all but rules, settings and options. -/
def isNode : Kind → Bool
  | horizontalRule | columnSettings | typedSettings | rawSettings | baseOptions | latexOptions => false
  | _ => true

/-- The kinds allowed inside a paragraph. -/
def isInline : Kind → Bool
  | plain | bold | italic | inlineMath => true
  | _ => false

/-- The kinds allowed as children of a document or a section. -/
def isBlock : Kind → Bool
  | paragraph | sectioning | tableOfContents | titlePage | clearPage | align | environment | userDefined
  | list | table | input => true
  | _ => false

/-- The kinds allowed in a preamble. -/
def isPreambleEntry : Kind → Bool
  | usePackage | newCommand | preambleLine => true
  | _ => false

/-- The kinds whose objects cannot be changed. -/
def isFrozen : Kind → Bool
  | columnSettings | baseOptions | latexOptions => true
  | _ => false

end Kind

/-- The document classes known by name. A part is not a class of its own: only its body is written. -/
inductive StandardClass
  | article | book | report | part
  deriving DecidableEq, Repr

namespace StandardClass

def name : StandardClass → String
  | article => "article"
  | book => "book"
  | report => "report"
  | part => "part"

def ofName? (name : String) : Option StandardClass :=
  [article, book, report, part].find? (·.name == name)

end StandardClass

inductive ListKind
  | enumerate | itemize
  deriving DecidableEq, Repr

def ListKind.environmentName : ListKind → String
  | enumerate => "enumerate"
  | itemize => "itemize"

inductive Alignment
  | left | right | center
  deriving DecidableEq, Repr

/-- The letter of an alignment in a column specification. -/
def Alignment.code : Alignment → String
  | left => "l"
  | right => "r"
  | center => "c"

/-- A member of one of the three enumerations. -/
inductive Member
  | documentClass (c : StandardClass)
  | listKind (k : ListKind)
  | alignment (a : Alignment)
  deriving DecidableEq, Repr

/-- The enumerations themselves. -/
inductive Enumeration
  | documentClass | listKind | alignment
  deriving DecidableEq, Repr

namespace Enumeration

def name : Enumeration → String
  | documentClass => "DocumentClass"
  | listKind => "ListKind"
  | alignment => "ColumnAlignment"

def group : Enumeration → String
  | documentClass => "texdoc.ast.nodes"
  | listKind => "texdoc.ast.lists"
  | alignment => "texdoc.ast.tables"

def members : Enumeration → List Member
  | documentClass => [.documentClass .article, .documentClass .book, .documentClass .report,
      .documentClass .part]
  | listKind => [.listKind .enumerate, .listKind .itemize]
  | alignment => [.alignment .left, .alignment .right, .alignment .center]

def all : List Enumeration := [documentClass, listKind, alignment]

end Enumeration

namespace Member

def enumeration : Member → Enumeration
  | documentClass _ => .documentClass
  | listKind _ => .listKind
  | alignment _ => .alignment

def name : Member → String
  | documentClass .article => "ARTICLE"
  | documentClass .book => "BOOK"
  | documentClass .report => "REPORT"
  | documentClass .part => "PART"
  | listKind .enumerate => "ENUMERATE"
  | listKind .itemize => "ITEMIZE"
  | alignment .left => "LEFT"
  | alignment .right => "RIGHT"
  | alignment .center => "CENTER"

/-- The text that a member stands for in the output. -/
def value : Member → String
  | documentClass c => c.name
  | listKind k => k.environmentName
  | alignment a => a.code

def fullName (m : Member) : String := m.enumeration.name ++ "." ++ m.name

end Member

end Manuscript
