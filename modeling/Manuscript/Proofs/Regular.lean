import Manuscript.Tree
/-!
# Regular trees

A tree is regular if all fields of its nodes hold what they are declared for and all children are in lists.
Which kinds of nodes the children are is left open. What the text of a tree is made up of are its parts; a
table of typed settings has a text of its own only if all its parts are rows.
-/
namespace Manuscript

/-- A document class as it is declared: one known by name, or another name. -/
def DocumentClass.Declared (c : DocumentClass) : Prop :=
  (∃ s, c = .standard s) ∨ ∃ name, c = .named name

/-- Column settings as they are declared: a text, or alignments. -/
inductive ColumnSettings.Declared : ColumnSettings Column → Prop
  | raw (spec : String) : Declared (.raw (.text spec))
  | typed (alignments : List Alignment) : Declared (.typed (alignments.map .aligned))

namespace Tree

/-- `strays` tells whether values that are no nodes may stand in the places of children. -/
inductive Regular (strays : Prop) : Tree → Prop
  | plain (text : String) : Regular strays (plain text)
  | inlineMath (text : String) : Regular strays (inlineMath text)
  | bold {content : Tree} (inner : Regular strays content) : Regular strays (bold content)
  | italic {content : Tree} (inner : Regular strays content) : Regular strays (italic content)
  | paragraph {content : List Tree} (inner : ∀ t ∈ content, Regular strays t) :
      Regular strays (paragraph .listed content)
  | sectioning (name : String) {elements : List Tree} (inner : ∀ t ∈ elements, Regular strays t) :
      Regular strays (sectioning (.text name) .listed elements)
  | tableOfContents : Regular strays tableOfContents
  | titlePage : Regular strays titlePage
  | clearPage : Regular strays clearPage
  | environment (name : String) (lines : List String) : Regular strays (environment name lines)
  | userDefined (text : String) : Regular strays (userDefined text)
  | input (path : String) : Regular strays (input path)
  | usePackage (package : String) (argument : Option String) :
      Regular strays (usePackage package argument)
  | newCommand (name definition : String) (arguments : Option String) :
      Regular strays (newCommand name definition arguments)
  | preambleLine (line : String) : Regular strays (preambleLine line)
  | preamble (title author : Option String) {elements : List Tree}
      (inner : ∀ t ∈ elements, Regular strays t) :
      Regular strays (preamble title author .listed elements)
  | document {documentClass : DocumentClass} {front : Tree} {elements : List Tree}
      (declared : documentClass.Declared) (first : Regular strays front)
      (inner : ∀ t ∈ elements, Regular strays t) :
      Regular strays (document documentClass front .listed elements)
  | equation (text : String) (label : Option String) (notNumbered : Bool) :
      Regular strays (equation text label notNumbered)
  | align {equations : List Tree} (inner : ∀ t ∈ equations, Regular strays t) :
      Regular strays (align .listed equations)
  | item (text : String) : Regular strays (item text)
  | list (kind : ListKind) {items : List Tree} (argument : Option String)
      (inner : ∀ t ∈ items, Regular strays t) : Regular strays (list kind .listed items argument)
  | tableRow (row : Row) : Regular strays (tableRow row)
  | table {rows : List Tree} {settings : ColumnSettings Column} (standard : Alignment)
      (declared : settings.Declared) (inner : ∀ t ∈ rows, Regular strays t) :
      Regular strays (table .listed rows settings (.aligned standard))
  | foreign (allowed : strays) (value : Datum) : Regular strays (foreign value)

/-- A regular tree of nodes alone. -/
abbrev OfNodes : Tree → Prop := Regular False

/-- The trees whose texts make up the text of a tree, in order. A part writes no preamble. -/
def parts : Tree → List Tree
  | bold content | italic content => [content]
  | paragraph _ content => content
  | sectioning _ _ elements => elements
  | preamble _ _ _ elements => elements
  | document documentClass front _ elements =>
    if documentClass.isPart then elements else front :: elements
  | align _ equations => equations
  | list _ _ items _ => items
  | table _ rows _ _ => rows
  | _ => []

/-- One tree is written as a part of another, or of one of its parts, or is that tree itself. -/
inductive Within : Tree → Tree → Prop
  | here (t : Tree) : Within t t
  | inPart {s c t : Tree} (part : c ∈ t.parts) (deeper : Within s c) : Within s t

/-- A table that counts its columns has rows only. -/
def OwnRows : Tree → Prop
  | table _ rows (.typed _) _ => ∀ row ∈ rows, row.kind? = some .tableRow
  | _ => True

/-- Wherever columns are counted in writing a tree, there are rows only. -/
def RowsCounted (t : Tree) : Prop := ∀ s, Within s t → s.OwnRows

/-- A table within a tree that cannot count its columns. -/
def Uncounted (t s : Tree) : Prop := Within s t ∧ ¬s.OwnRows

theorem uncounted_iff (t s : Tree) :
    t.Uncounted s ↔ (s = t ∧ ¬t.OwnRows) ∨ ∃ c ∈ t.parts, c.Uncounted s := by
  constructor
  · rintro ⟨hs, hrows⟩
    cases hs with
    | here => exact .inl ⟨rfl, hrows⟩
    | inPart part deeper => exact .inr ⟨_, part, deeper, hrows⟩
  · rintro (⟨rfl, hrows⟩ | ⟨c, part, deeper, hrows⟩)
    · exact ⟨.here s, hrows⟩
    · exact ⟨.inPart part deeper, hrows⟩

theorem rowsCounted_iff_not (t : Tree) : t.RowsCounted ↔ ∀ s, ¬t.Uncounted s := by
  simp only [RowsCounted, Uncounted, not_and, Classical.not_not]

/-- What holds all over a tree holds of the tree itself and all over its parts. -/
theorem forall_within_iff {P : Tree → Prop} (t : Tree) :
    (∀ s, Within s t → P s) ↔ P t ∧ ∀ c ∈ t.parts, ∀ s, Within s c → P s := by
  constructor
  · intro h
    exact ⟨h t (.here t), fun c hc s hs => h s (.inPart hc hs)⟩
  · rintro ⟨own, inner⟩ s hs
    cases hs with
    | here => exact own
    | inPart part deeper => exact inner _ part s deeper

theorem rowsCounted_iff (t : Tree) :
    t.RowsCounted ↔ t.OwnRows ∧ ∀ c ∈ t.parts, c.RowsCounted :=
  forall_within_iff t

theorem rowsCounted_of_parts {t : Tree} (own : t.OwnRows) (h : ∀ c ∈ t.parts, c.RowsCounted) :
    t.RowsCounted := (rowsCounted_iff t).mpr ⟨own, h⟩

theorem Regular.exists_tableRow {strays : Prop} {t : Tree} (h : t.Regular strays)
    (hk : t.kind? = some .tableRow) : ∃ row, t = .tableRow row := by
  cases h with
  | tableRow row => exact ⟨row, rfl⟩
  | _ => simp [kind?] at hk

end Tree

end Manuscript
