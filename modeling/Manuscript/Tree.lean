import Manuscript.Supply
import Manuscript.Table
/-!
# Document trees

A tree is a document or a fragment of one. Wherever a node belongs, any other value may stand: it is
`foreign`. The children of a node come from a supply. Fields that are not what they should be make a node a
`misfit`, or `blocked` if rendering it ends in a fault before anything is written; otherwise such nodes are
walked like all others.
-/
namespace Manuscript

/-- The class of a document: one of those known by name, any other name, or a value that is no name and is
only printed. -/
inductive DocumentClass
  | standard (c : StandardClass)
  | named (name : String)
  | unnamed (printed : String)
  deriving DecidableEq, Repr

namespace DocumentClass

def name : DocumentClass → String
  | standard c => c.name
  | named s => s
  | unnamed printed => printed

/-- Whether the document is written without header, preamble and footer. -/
def isPart : DocumentClass → Bool
  | standard c => c == .part
  | named s => s == "part"
  | unnamed _ => false

@[simp] theorem isPart_standard (c : StandardClass) : (standard c).isPart = (c == .part) := rfl

end DocumentClass

/-- A row whose cells are not a list of texts or whose number of columns is not a whole number. -/
structure LooseRow where
  supply : Supply
  cells : List Piece
  columns : Datum
  skipTerminator : Bool
  deriving DecidableEq, Repr

/-- A node without children that has a field of another type: a plain run of any value, an environment whose
lines are not a list of texts, a loose row. -/
inductive Misfit
  | plain (value : Datum)
  | environment (name : String) (supply : Supply) (lines : List Piece)
  | row (row : LooseRow)
  deriving DecidableEq, Repr

inductive Tree
  | plain (text : String)
  | inlineMath (text : String)
  | bold (content : Tree)
  | italic (content : Tree)
  | paragraph (supply : Supply) (content : List Tree)
  | sectioning (name : Datum) (supply : Supply) (elements : List Tree)
  | tableOfContents
  | titlePage
  | clearPage
  | environment (name : String) (lines : List String)
  | userDefined (text : String)
  | input (path : String)
  | usePackage (package : String) (argument : Option String)
  | newCommand (name definition : String) (arguments : Option String)
  | preambleLine (line : String)
  | preamble (title author : Option String) (supply : Supply) (elements : List Tree)
  | document (documentClass : DocumentClass) (preamble : Tree) (supply : Supply) (elements : List Tree)
  | equation (text : String) (label : Option String) (notNumbered : Bool)
  | align (supply : Supply) (equations : List Tree)
  | item (text : String)
  | list (kind : ListKind) (supply : Supply) (items : List Tree) (argument : Option String)
  | tableRow (row : Row)
  | table (supply : Supply) (rows : List Tree) (settings : ColumnSettings Column) (standard : Column)
  | foreign (value : Datum)
  | misfit (node : Misfit)
  | blocked (fault : Fault) (node : Tree)
  deriving Repr

def Misfit.kind : Misfit → Kind
  | plain _ => .plain
  | environment _ _ _ => .environment
  | row _ => .tableRow

namespace Datum

/-- The fault of walking a value that is not a node. A class of nodes can be walked by none of its own. -/
def notWalked (d : Datum) : Fault :=
  match d with
  | atom (.classRef name) =>
    if name = "Node" ∨ (Kind.ofName? name).any Kind.isNode then
      .missingArgument (name ++ ".accept") "visitor"
    else d.lacking "accept"
  | d => d.lacking "accept"

/-- An attribute of a value: a field of an object, or a standard value that a class carries. -/
def attribute? (d : Datum) (name : String) : Option Datum :=
  match d with
  | object _ fields => fields.lookup name
  | atom (.classRef className) => (Class.attribute? className name).map atom
  | _ => Option.none

end Datum

namespace Tree

instance : Inhabited Tree := ⟨.tableOfContents⟩

/-- The kind of a node. A foreign value has none. -/
def kind? : Tree → Option Kind
  | plain _ => some .plain
  | inlineMath _ => some .inlineMath
  | bold _ => some .bold
  | italic _ => some .italic
  | paragraph _ _ => some .paragraph
  | sectioning _ _ _ => some .sectioning
  | tableOfContents => some .tableOfContents
  | titlePage => some .titlePage
  | clearPage => some .clearPage
  | environment _ _ => some .environment
  | userDefined _ => some .userDefined
  | input _ => some .input
  | usePackage _ _ => some .usePackage
  | newCommand _ _ _ => some .newCommand
  | preambleLine _ => some .preambleLine
  | preamble _ _ _ _ => some .preamble
  | document _ _ _ _ => some .document
  | equation _ _ _ => some .equation
  | align _ _ => some .align
  | item _ => some .item
  | list _ _ _ _ => some .list
  | tableRow _ => some .tableRow
  | table _ _ _ _ => some .table
  | foreign _ => none
  | misfit node => some node.kind
  | blocked _ node => node.kind?

def typeName : Tree → String
  | foreign value => value.typeName
  | blocked _ node => node.typeName
  | t => (t.kind?.map Kind.name).getD ""

def isInline (t : Tree) : Bool := t.kind?.any Kind.isInline

def isBlock (t : Tree) : Bool := t.kind?.any Kind.isBlock

def isPreambleEntry (t : Tree) : Bool := t.kind?.any Kind.isPreambleEntry

/-- What a row records as its columns. Only rows record columns, and some values that are no nodes. -/
def columns : Tree → Except Fault Datum
  | tableRow row =>
    match row.columns with
    | some n => .ok (.int n)
    | none => .ok .none
  | misfit (.row row) => .ok row.columns
  | foreign value =>
    match value.attribute? "columns" with
    | some columns => .ok columns
    | none => .error (value.lacking "columns")
  | t => .error (.noAttribute (.value t.typeName) "columns")

/-- The number of columns of a table, and how many of its rows are looked at for it. -/
def numberColumns (rows : List Tree) : Nat × Except Fault Datum := Rows.widest (rows.map columns)

theorem exists_columns_tableRow (row : Row) :
    ∃ d, columns (tableRow row) = .ok d ∧ Rows.asked d = .int row.width := by
  cases h : row.columns with
  | none => exact ⟨.none, by simp [columns, h], by simp [Row.width, h]; rfl⟩
  | some n => exact ⟨.int n, by simp [columns, h], by simp [Row.width, h, Rows.asked_int]⟩

theorem widestFrom_tableRow (best : Int) (rows : List Row) :
    Rows.widestFrom (.int best) ((rows.map tableRow).map columns) =
      (rows.length, .ok (.int ((rows.map Row.width).foldl max best))) := by
  induction rows generalizing best with
  | nil => rfl
  | cons row rows ih =>
    obtain ⟨d, hd, hw⟩ := exists_columns_tableRow row
    simp only [List.map_cons, hd, Rows.widestFrom, hw, Rows.wider_int, List.foldl_cons, ih, List.length_cons]

/-- Of well-made rows all are looked at, and the number of columns is the most that one of them asks for. -/
theorem numberColumns_tableRow (rows : List Row) :
    numberColumns (rows.map tableRow) =
      (rows.length, .ok (.int (Rows.greatest (rows.map Row.width)))) := by
  cases rows with
  | nil => rfl
  | cons row rows =>
    obtain ⟨d, hd, hw⟩ := exists_columns_tableRow row
    simp only [numberColumns, List.map_cons, hd, Rows.widest, hw, widestFrom_tableRow, Rows.greatest,
      List.length_cons]

end Tree

end Manuscript
