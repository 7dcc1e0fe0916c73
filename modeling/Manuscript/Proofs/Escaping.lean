import Manuscript.Proofs.WrittenText
/-!
# Escaping

The option to escape plain text changes plain runs and nothing else: what is written with it is what would be
written without it of the tree whose plain runs are escaped themselves. A text becomes longer by escaping if it
has an active character, so the option makes no difference to what is written exactly if no plain run that the
writing comes to has one.
-/
namespace Manuscript

namespace Options

/-- The same options, with plain text escaped or not. -/
def escaping (o : Options) (escapes : Bool) : Options := { o with escapePlainText := escapes }

@[simp] theorem escapePlainText_escaping (o : Options) (escapes : Bool) :
    (o.escaping escapes).escapePlainText = escapes := rfl

@[simp] theorem sectionCommand_escaping (o : Options) (escapes : Bool) :
    (o.escaping escapes).sectionCommand = o.sectionCommand := rfl

end Options

namespace Text

/-- Whether a text has a character that escaping would write in another form. -/
def hasActive (text : String) : Bool := text.toList.any isActive

theorem two_le_length_form : ∀ form ∈ activeForms, 2 ≤ (escapeChar form.1).length := by decide

theorem length_escapeChar_of_active {c : Char} (h : isActive c = true) : 2 ≤ (escapeChar c).length := by
  obtain ⟨form, hform, rfl⟩ := exists_form_of_active h
  exact two_le_length_form form hform

/-- Escaping leaves a text without active characters as it is, and makes any other longer. -/
theorem escapeChars_cases (cs : List Char) :
    (cs.any isActive = false ∧ escapeChars cs = cs) ∨
      (cs.any isActive = true ∧ cs.length < (escapeChars cs).length) := by
  induction cs with
  | nil => exact .inl ⟨rfl, rfl⟩
  | cons c cs ih =>
    rw [List.any_cons, escapeChars_cons]
    cases hc : isActive c with
    | true =>
      have htwo := length_escapeChar_of_active hc
      refine .inr ⟨rfl, ?_⟩
      rw [List.length_cons, List.length_append]
      rcases ih with ⟨-, hrest⟩ | ⟨-, hrest⟩
      · rw [hrest]
        omega
      · omega
    | false =>
      rw [escapeChar_of_not_active hc]
      rcases ih with ⟨hclean, hrest⟩ | ⟨hactive, hrest⟩
      · exact .inl ⟨hclean, by rw [hrest]; rfl⟩
      · exact .inr ⟨hactive, by simpa using hrest⟩

theorem length_le_escape (text : String) : text.length ≤ (escape text).length := by
  rw [← String.length_toList, ← String.length_toList, toList_escape]
  rcases escapeChars_cases text.toList with ⟨-, h⟩ | ⟨-, h⟩
  · exact Nat.le_of_eq (congrArg List.length h).symm
  · exact Nat.le_of_lt h

theorem escape_eq_iff (text : String) : escape text = text ↔ hasActive text = false := by
  rw [← String.toList_inj, toList_escape, hasActive]
  rcases escapeChars_cases text.toList with ⟨hclean, h⟩ | ⟨hactive, h⟩
  · simp [hclean, h]
  · refine iff_of_false (fun heq => ?_) (by simp [hactive])
    rw [heq] at h
    exact Nat.lt_irrefl _ h

end Text

namespace Tree

mutual
/-- The tree with every plain run in it escaped. -/
def escapedRuns : Tree → Tree
  | plain text => plain (Text.escape text)
  | bold content => bold (escapedRuns content)
  | italic content => italic (escapedRuns content)
  | paragraph supply content => paragraph supply (escapedRunsAll content)
  | sectioning name supply elements => sectioning name supply (escapedRunsAll elements)
  | preamble title author supply elements => preamble title author supply (escapedRunsAll elements)
  | document documentClass front supply elements =>
    document documentClass (escapedRuns front) supply (escapedRunsAll elements)
  | align supply equations => align supply (escapedRunsAll equations)
  | list kind supply items argument => list kind supply (escapedRunsAll items) argument
  | table supply rows settings standard => table supply (escapedRunsAll rows) settings standard
  | t => t

def escapedRunsAll : List Tree → List Tree
  | [] => []
  | t :: ts => escapedRuns t :: escapedRunsAll ts
end

theorem escapedRunsAll_eq_map (ts : List Tree) : escapedRunsAll ts = ts.map escapedRuns := by
  induction ts with
  | nil => rfl
  | cons t ts ih => rw [escapedRunsAll, ih, List.map_cons]

theorem columns_escapedRuns (t : Tree) : t.escapedRuns.columns = t.columns := by
  cases t <;> simp [escapedRuns, columns, typeName, kind?]

/-- The columns of a table do not depend on what is in its rows. -/
theorem emitTable_escapedRuns (supply : Supply) (rows : List Tree) (settings : ColumnSettings Column)
    (standard : Column) (body : Emission) :
    emitTable supply (rows.map escapedRuns) settings standard body =
      emitTable supply rows settings standard body := by
  have hcolumns : (rows.map escapedRuns).map columns = rows.map columns := by
    rw [List.map_map]
    exact List.map_congr_left fun t _ => columns_escapedRuns t
  have hnumber : numberColumns (rows.map escapedRuns) = numberColumns rows := by
    rw [numberColumns, hcolumns, numberColumns]
  cases settings <;> simp [emitTable, emitCounted, columnSpec, hnumber]

variable {o : Options} {t : Tree}

theorem emitAll_escapedRuns {ts : List Tree}
    (h : ∀ t ∈ ts, t.emit (o.escaping true) = t.escapedRuns.emit (o.escaping false)) :
    emitAll (o.escaping true) ts = emitAll (o.escaping false) (ts.map escapedRuns) := by
  rw [emitAll_eq_map, emitAll_eq_map, List.map_map]
  exact List.map_congr_left h

/-- To escape plain text is to render the tree whose plain runs are escaped. -/
theorem emit_escaping (o : Options) (h : t.OfNodes) :
    t.emit (o.escaping true) = t.escapedRuns.emit (o.escaping false) := by
  induction h with
  | plain text => rfl
  | bold inner ih | italic inner ih => simp only [emit, escapedRuns, ih]
  | paragraph inner ih | align inner ih | list kind argument inner ih =>
    simp only [emit, escapedRuns, escapedRunsAll_eq_map, emitAll_escapedRuns ih]
  | sectioning name inner ih | preamble title author inner ih =>
    simp only [emit, escapedRuns, escapedRunsAll_eq_map, emitAll_escapedRuns ih, Options.sectionCommand_escaping,
      List.length_map]
  | document declared first inner ihFront ih =>
    simp only [emit, escapedRuns, escapedRunsAll_eq_map, emitAll_escapedRuns ih, ihFront, List.length_map]
  | table standard declared inner ih =>
    simp only [emit, escapedRuns, escapedRunsAll_eq_map, emitAll_escapedRuns ih, emitTable_escapedRuns]
  | foreign allowed => exact allowed.elim
  | _ => rfl

/-- One tree is come to in the writing of another: what is written of a node are its parts in order, but
nothing of a table that cannot count its columns, and nothing after it. -/
inductive Reached : Tree → Tree → Prop
  | here (t : Tree) : Reached t t
  | inPart {s c t : Tree} {before after : List Tree} (own : t.OwnRows) (part : t.parts = before ++ c :: after)
      (counted : ∀ b ∈ before, b.RowsCounted) (deeper : Reached s c) : Reached s t

/-- A plain run with an active character is come to. -/
def Touched (t : Tree) : Prop := ∃ text, Reached (plain text) t ∧ Text.hasActive text = true

/-- Of some trees written in order one comes to have a property. -/
inductive InOrder (P : Tree → Prop) : List Tree → Prop
  | first {t : Tree} {ts : List Tree} (h : P t) : InOrder P (t :: ts)
  | later {t : Tree} {ts : List Tree} (counted : t.RowsCounted) (rest : InOrder P ts) : InOrder P (t :: ts)

theorem inOrder_nil {P : Tree → Prop} : ¬InOrder P [] := nofun

theorem inOrder_cons {P : Tree → Prop} (t : Tree) (ts : List Tree) :
    InOrder P (t :: ts) ↔ P t ∨ (t.RowsCounted ∧ InOrder P ts) := by
  constructor
  · rintro (h | ⟨counted, rest⟩)
    · exact .inl h
    · exact .inr ⟨counted, rest⟩
  · rintro (h | ⟨counted, rest⟩)
    · exact .first h
    · exact .later counted rest

theorem inOrder_iff {P : Tree → Prop} (ts : List Tree) :
    InOrder P ts ↔ ∃ before c after, ts = before ++ c :: after ∧ (∀ b ∈ before, b.RowsCounted) ∧ P c := by
  constructor
  · intro h
    induction h with
    | first h => exact ⟨[], _, _, rfl, by simp, h⟩
    | later counted rest ih =>
      obtain ⟨before, c, after, rfl, hbefore, hc⟩ := ih
      exact ⟨_ :: before, c, after, rfl, List.forall_mem_cons.mpr ⟨counted, hbefore⟩, hc⟩
  · rintro ⟨before, c, after, rfl, hbefore, hc⟩
    induction before with
    | nil => exact .first hc
    | cons b before ih =>
      obtain ⟨hb, hbefore⟩ := List.forall_mem_cons.mp hbefore
      exact .later hb (ih hbefore)

/-- What is touched in a node that is no plain run itself is touched in its parts. -/
theorem touched_iff (other : t.kind? ≠ some .plain) : t.Touched ↔ t.OwnRows ∧ InOrder Touched t.parts := by
  rw [inOrder_iff]
  constructor
  · rintro ⟨text, hreached, hactive⟩
    cases hreached with
    | here => exact absurd rfl other
    | inPart own part counted deeper => exact ⟨own, _, _, _, part, counted, text, deeper, hactive⟩
  · rintro ⟨own, before, c, after, part, counted, text, deeper, hactive⟩
    exact ⟨text, .inPart own part counted deeper, hactive⟩

theorem touched_plain (text : String) : (plain text).Touched ↔ Text.hasActive text = true := by
  constructor
  · rintro ⟨other, hreached, hactive⟩
    cases hreached with
    | here => exact hactive
    | inPart own part => simp [parts] at part
  · exact fun hactive => ⟨text, .here _, hactive⟩

/-- Where all columns can be counted, the writing comes to all that stands in a tree. -/
theorem RowsCounted.reached_iff (h : t.RowsCounted) (s : Tree) : Reached s t ↔ Within s t := by
  constructor
  · intro hreached
    clear h
    induction hreached with
    | here => exact .here s
    | inPart own part counted deeper ih => exact .inPart (by simp [part]) ih
  · intro hwithin
    induction hwithin with
    | here => exact .here s
    | inPart part deeper ih =>
      obtain ⟨own, inner⟩ := (rowsCounted_iff _).mp h
      obtain ⟨before, after, hpart⟩ := List.append_of_mem part
      exact .inPart own hpart (fun b hb => inner b (by simp [hpart, hb])) (ih (inner _ part))

end Tree

namespace Emission

/-- An emission of pieces and notes alone. -/
def Written (e : Emission) : Prop := e.Direct ∧ e.ending = none

@[simp] theorem written_nil : Written [] := ⟨by simp [Direct], rfl⟩

@[simp] theorem written_cons (piece : String) (e : Emission) : Written (write piece :: e) ↔ e.Written := by
  simp [Written, Direct, write, ending]

@[simp] theorem written_cons_line (text : String) (e : Emission) : Written (line text :: e) ↔ e.Written :=
  written_cons _ e

@[simp] theorem written_cons_note (n : Note) (e : Emission) : Written (.act (.note n) :: e) ↔ e.Written := by
  simp [Written, Direct, ending]

theorem Written.append {d e : Emission} (hd : d.Written) (he : e.Written) : Written (d ++ e) :=
  ⟨hd.1.append he.1, by rw [ending_append hd.1, hd.2, he.2]; rfl⟩

/-- Two emissions with the same ending. What the first one writes is no shorter than what the other one does,
and is the same unless a run is touched. -/
structure Lengthens (e d : Emission) (touched : Prop) : Prop where
  first : e.Direct
  second : d.Direct
  ending : e.ending = d.ending
  longer : (String.join d.pieces).length ≤ (String.join e.pieces).length
  same : String.join e.pieces = String.join d.pieces ↔ ¬touched

namespace Lengthens

variable {e d e' d' : Emission} {p q : Prop}

theorem congr (h : e.Lengthens d p) (hp : p ↔ q) : e.Lengthens d q := propext hp ▸ h

theorem refl (h : e.Direct) : e.Lengthens e False := ⟨h, h, rfl, Nat.le_refl _, by simp⟩

/-- Texts of which one is longer than the other in two places are the same if they are in both. -/
theorem append_inj_iff {a b a' b' : String} (h : b.length ≤ a.length) (h' : b'.length ≤ a'.length) :
    a ++ a' = b ++ b' ↔ a = b ∧ a' = b' := by
  constructor
  · intro heq
    have hlength := congrArg String.length heq
    simp only [String.length_append] at hlength
    have hlist : a.toList ++ a'.toList = b.toList ++ b'.toList := by
      simpa using congrArg String.toList heq
    obtain ⟨hfirst, hrest⟩ := List.append_inj hlist (by simp only [String.length_toList]; omega)
    exact ⟨String.toList_injective hfirst, String.toList_injective hrest⟩
  · rintro ⟨rfl, rfl⟩
    rfl

/-- What stands after an ending is not come to. -/
theorem append (h : e.Lengthens d p) (h' : e'.Lengthens d' q) :
    (e ++ e').Lengthens (d ++ d') (p ∨ (d.ending = none ∧ q)) where
  first := h.first.append h'.first
  second := h.second.append h'.second
  ending := by rw [ending_append h.first, ending_append h.second, h.ending, h'.ending]
  longer := by
    rw [pieces_append h.first, pieces_append h.second, h.ending]
    cases d.ending with
    | none =>
      have := h.longer
      have := h'.longer
      simp only [Option.isNone_none, if_true, String.join_append, String.length_append]
      omega
    | some f => simpa using h.longer
  same := by
    rw [pieces_append h.first, pieces_append h.second, h.ending]
    cases d.ending with
    | none => simp [append_inj_iff h.longer h'.longer, h.same, h'.same]
    | some f => simpa using h.same

/-- What is written around two emissions is the same for both. -/
theorem within (opening closing : Emission) (h : e.Lengthens d p) (ho : opening.Written)
    (hc : closing.Written) : (opening ++ (e ++ closing)).Lengthens (opening ++ (d ++ closing)) p :=
  ((refl ho.1).append (h.append (refl hc.1))).congr (by simp [ho.2])

end Lengthens

end Emission

namespace Tree

open Emission

variable {o : Options} {t : Tree}

theorem ending_emit_iff (h : t.OfNodes) : (t.emit o).ending = none ↔ t.RowsCounted := by
  have hfollows := emit_follows o h
  rw [rowsCounted_iff_not]
  constructor
  · intro hend s hs
    obtain ⟨-, f, -, -, hf, -⟩ := hfollows.begun ⟨s, hs⟩
    rw [hend] at hf
    cases hf
  · exact fun hcounted => (hfollows.whole hcounted).1

/-- A tree written with plain text escaped against the same tree written without. -/
def Escapes (o : Options) (t : Tree) : Prop :=
  (t.emit (o.escaping true)).Lengthens (t.emit (o.escaping false)) t.Touched

/-- Trees in order, each followed by the same. -/
theorem lengthens_trees {ts : List Tree} (closing : Emission) (hc : closing.Written)
    (hnodes : ∀ t ∈ ts, t.OfNodes) (h : ∀ t ∈ ts, t.Escapes o) :
    Lengthens (ts.map fun t => t.emit (o.escaping true) ++ closing).flatten
      (ts.map fun t => t.emit (o.escaping false) ++ closing).flatten (InOrder Touched ts) := by
  induction ts with
  | nil => exact (Lengthens.refl written_nil.1).congr (by simp [inOrder_nil])
  | cons t ts ih =>
    obtain ⟨hnode, hnodes⟩ := List.forall_mem_cons.mp hnodes
    obtain ⟨hfirst, hrest⟩ := List.forall_mem_cons.mp h
    refine ((hfirst.append (.refl hc.1)).append (ih hnodes hrest)).congr ?_
    rw [inOrder_cons, ending_append hfirst.second, hc.2, Option.or_none, ending_emit_iff hnode]
    simp

theorem lengthens_emitAll {ts : List Tree} (hnodes : ∀ t ∈ ts, t.OfNodes) (h : ∀ t ∈ ts, t.Escapes o) :
    Lengthens (emitAll (o.escaping true) ts).flatten (emitAll (o.escaping false) ts).flatten
      (InOrder Touched ts) := by
  have hall := lengthens_trees [] written_nil hnodes h
  simpa only [List.append_nil, emitAll_eq_map] using hall

/-- What is touched by a node's own emission is what is touched in its parts, if anything is written of it. -/
theorem escapes_of_parts (other : t.kind? ≠ some .plain) (own : t.OwnRows)
    (h : (t.emit (o.escaping true)).Lengthens (t.emit (o.escaping false)) (InOrder Touched t.parts)) :
    t.Escapes o :=
  h.congr (by simp [touched_iff other, own])

/-- A node without parts, other than a plain run. -/
theorem escapes_leaf (h : t.OfNodes) (other : t.kind? ≠ some .plain) (own : t.OwnRows) (leaf : t.parts = [])
    (hsame : t.emit (o.escaping true) = t.emit (o.escaping false)) : t.Escapes o := by
  refine escapes_of_parts other own ?_
  rw [hsame, leaf]
  exact (Lengthens.refl (emit_follows _ h).direct).congr (by simp [inOrder_nil])

theorem escapes_plain (o : Options) (text : String) : (plain text).Escapes o where
  first := by simp [emit, Direct, write]
  second := by simp [emit, Direct, write]
  ending := rfl
  longer := by simpa [emit, pieces, write, Event.pieces] using Text.length_le_escape text
  same := by simp [emit, pieces, write, Event.pieces, touched_plain, Text.escape_eq_iff]

theorem written_titleLines (title author : Option String) : (titleLines title author).Written := by
  cases title <;> cases author <;> simp [titleLines]

theorem written_blankIf (wanted : Bool) : (blankIf wanted).Written := by
  cases wanted <;> simp [blankIf]

/-- A tree in the argument of a command. -/
theorem lengthens_argument (opening : String) (h : t.Escapes o) :
    Lengthens (write opening :: (t.emit (o.escaping true) ++ [write "\x7d"]))
      (write opening :: (t.emit (o.escaping false) ++ [write "\x7d"])) (InOrder Touched [t]) := by
  have hall := Lengthens.within [write opening] [write "\x7d"] h (by simp) (by simp)
  exact hall.congr (by simp [inOrder_cons, inOrder_nil])

/-- The trees in an environment. -/
theorem lengthens_environment {ts : List Tree} (opening : Emission) (name : String) (ho : opening.Written)
    (hnodes : ∀ t ∈ ts, t.OfNodes) (h : ∀ t ∈ ts, t.Escapes o) :
    Lengthens (opening ++ ((emitAll (o.escaping true) ts).flatten ++ [line (command "end" name)]))
      (opening ++ ((emitAll (o.escaping false) ts).flatten ++ [line (command "end" name)]))
      (InOrder Touched ts) :=
  (lengthens_emitAll hnodes h).within _ _ ho (by simp)

/-- The specification of a table does not depend on the option. -/
theorem escapes_table {rows : List Tree} {settings : ColumnSettings Column} (standard : Alignment)
    (declared : settings.Declared) (hnodes : ∀ t ∈ rows, t.OfNodes) (h : ∀ t ∈ rows, t.Escapes o) :
    (table .listed rows settings (.aligned standard)).Escapes o := by
  have htabular (spec : Datum) := lengthens_environment
    [.act (.note (.table rows.length spec.literal)),
      line (command "begin" Marker.tabularEnvironment ++ braced spec.printed)]
    Marker.tabularEnvironment (by simp) hnodes h
  cases declared with
  | raw spec =>
    refine escapes_of_parts (by simp [kind?]) trivial ?_
    simpa [emit, emitTable, tabular, parts] using htabular (.text spec)
  | typed given =>
    by_cases hrows : ∀ t ∈ rows, t.kind? = some .tableRow
    · refine escapes_of_parts (by simp [kind?]) hrows ?_
      obtain ⟨rs, rfl⟩ := exists_rows hnodes hrows
      simpa [emit, emitTable, emitCounted, tabular, parts, columnSpec_rows] using htabular (.text _)
    · obtain ⟨f, hf, -⟩ := columnSpec_stray hnodes hrows (given.map .aligned) (.aligned standard)
      have hhalt (escapes : Bool) : emit (o.escaping escapes)
          (table .listed rows (.typed (given.map .aligned)) (.aligned standard)) = [.halt f] := by
        simp [emit, emitTable, emitCounted, hf]
      rw [Escapes, hhalt, hhalt]
      refine (Lengthens.refl (by simp [Direct])).congr (iff_of_false id ?_)
      rw [touched_iff (by simp [kind?])]
      exact fun htouched => hrows htouched.1

/-- The elements of a document, between the markers of its class. -/
theorem escapes_document {documentClass : DocumentClass} {front : Tree} {elements : List Tree}
    (hfront : front.OfNodes) (hnodes : ∀ t ∈ elements, t.OfNodes) (ihFront : front.Escapes o)
    (ih : ∀ t ∈ elements, t.Escapes o) : (document documentClass front .listed elements).Escapes o := by
  refine escapes_of_parts (by simp [kind?]) trivial ?_
  let note : Note := .document documentClass.name elements.length
  by_cases hpart : documentClass.isPart = true
  · have hall := (lengthens_emitAll hnodes ih).within [.act (.note note)] [] (by simp) written_nil
    simpa [emit, parts, hpart] using hall
  · have hbody := lengthens_environment [line (command "begin" Marker.documentEnvironment)]
      Marker.documentEnvironment (by simp) hnodes ih
    have hall := (ihFront.append hbody).within
      [.act (.note note), line (command "documentclass" documentClass.name)] [] (by simp) written_nil
    have htouched : (front.Touched ∨
        ((front.emit (o.escaping false)).ending = none ∧ InOrder Touched elements)) ↔
          InOrder Touched (front :: elements) := by
      rw [inOrder_cons, ending_emit_iff hfront]
    simpa [emit, parts, hpart] using hall.congr htouched

/-- Whether plain text is escaped shows in what is written of a tree exactly if a plain run with an active
character is come to. -/
theorem escapes (o : Options) (h : t.OfNodes) : t.Escapes o := by
  induction h with
  | plain text => exact escapes_plain o text
  | bold inner ih | italic inner ih =>
    refine escapes_of_parts (by simp [kind?]) trivial ?_
    simpa [emit, parts] using lengthens_argument _ ih
  | paragraph inner ih =>
    refine escapes_of_parts (by simp [kind?]) trivial ?_
    simpa [emit, parts] using (lengthens_emitAll inner ih).within [] [line ""] written_nil (by simp)
  | @sectioning name elements inner ih =>
    refine escapes_of_parts (by simp [kind?]) trivial ?_
    have hall := (lengthens_trees [line ""] (by simp) inner ih).within
      (line (command o.sectionCommand.printed (Datum.text name).printed) :: blankIf (elements.length != 0)) []
      (by simp [written_blankIf]) written_nil
    simpa [emit, parts, emitAll_eq_map, Function.comp_def] using hall
  | @preamble title author elements inner ih =>
    refine escapes_of_parts (by simp [kind?]) trivial ?_
    have hclosing := (written_blankIf (elements.length != 0 && (title.isSome || author.isSome))).append
      (written_titleLines title author)
    simpa [emit, parts] using (lengthens_emitAll inner ih).within [] _ written_nil hclosing
  | document declared first inner ihFront ih => exact escapes_document first inner ihFront ih
  | align inner ih =>
    refine escapes_of_parts (by simp [kind?]) trivial ?_
    have hall := lengthens_environment [line (command "begin" Marker.alignEnvironment)]
      Marker.alignEnvironment (by simp) inner ih
    simpa [emit, parts] using hall
  | @list kind items argument inner ih =>
    refine escapes_of_parts (by simp [kind?]) trivial ?_
    have hall := lengthens_environment [line (command "begin" kind.environmentName ++ optional argument)]
      kind.environmentName (by simp) inner ih
    simpa [emit, parts] using hall
  | table standard declared inner ih => exact escapes_table standard declared inner ih
  | foreign allowed => exact allowed.elim
  | _ => exact escapes_leaf (by constructor) (by simp [kind?]) trivial rfl rfl

/-- With plain text escaped, the pieces written of a tree of nodes are those written without of the tree whose
plain runs are escaped. Both settings write the same to whatever accepts it exactly if no plain run that the
writing comes to has an active character; where the columns of all tables can be counted, it comes to all. -/
theorem escaping_runs (h : t.OfNodes) (o : Options) :
    let on := Renderer.idle (o.escaping true)
    let off := Renderer.idle (o.escaping false)
    t.emit on.options = t.escapedRuns.emit off.options ∧
      t.render on.options = t.escapedRuns.render off.options ∧
      (∀ (g : Target) (notes : List Note), on.attempted t g notes = off.attempted t.escapedRuns g notes) ∧
      (∀ g : Target, g.sink.Accepting → ∀ notes,
        (String.join (on.attempted t g notes) = String.join (off.attempted t g notes) ↔
          ∀ text, Reached (plain text) t → ∀ c ∈ text.toList, Text.isActive c = false)) ∧
      (t.RowsCounted → (t.render on.options = t.render off.options ↔
        ∀ text, Within (plain text) t → ∀ c ∈ text.toList, Text.isActive c = false)) := by
  intro on off
  have hemit : t.emit on.options = t.escapedRuns.emit off.options := emit_escaping o h
  have hon : (t.emit on.options).Direct := (emit_follows _ h).direct
  have hoff : (t.emit off.options).Direct := (emit_follows _ h).direct
  have hruns : (t.escapedRuns.emit off.options).Direct := hemit ▸ hon
  have hsame : String.join (t.emit on.options).pieces = String.join (t.emit off.options).pieces ↔
      ∀ text, Reached (plain text) t → ∀ c ∈ text.toList, Text.isActive c = false := by
    refine (escapes o h).same.trans ?_
    simp only [Touched, Text.hasActive, List.any_eq_true, not_exists, not_and, Bool.not_eq_true]
  refine ⟨hemit, ?_, fun g notes => ?_, fun g hg notes => ?_, fun hcounted => ?_⟩
  · rw [render_direct hon, render_direct hruns, hemit]
  · obtain ⟨-, htried⟩ := Renderer.walk_direct (r := on) hon g notes
    obtain ⟨-, htried'⟩ := Renderer.walk_direct (r := off) hruns g notes
    rw [htried, htried', hemit]
  · obtain ⟨-, htried⟩ := Renderer.attempted_of_accepting (r := on) hon hg notes
    obtain ⟨-, htried'⟩ := Renderer.attempted_of_accepting (r := off) hoff hg notes
    rw [htried, htried', hsame]
  · rw [render_direct hon, render_direct hoff, (ending_emit_iff h).mpr hcounted, (ending_emit_iff h).mpr hcounted]
    simp only [Option.elim_none, Except.ok.injEq, hsame, hcounted.reached_iff]

theorem escaping_runs_paragraph :
    let t := paragraph .listed [plain "100%", inlineMath "a_b"]
    let g : Target := ⟨.buffer "" false, none, .text "<string>"⟩
    t.OfNodes ∧ t.RowsCounted ∧ g.sink.Accepting ∧
      t.render (Options.standard.escaping true) = .ok "100\\%$a_b$\n" ∧
      t.emit (Options.standard.escaping true) = t.escapedRuns.emit (Options.standard.escaping false) ∧
      t.render (Options.standard.escaping true) ≠ t.render (Options.standard.escaping false) ∧
      String.join ((Renderer.idle (Options.standard.escaping true)).attempted t g []) ≠
        String.join ((Renderer.idle (Options.standard.escaping false)).attempted t g []) := by
  intro t g
  have hnodes : t.OfNodes := .paragraph (by simpa using ⟨.plain "100%", .inlineMath "a_b"⟩)
  have hleaf {u : Tree} (own : u.OwnRows) (leaf : u.parts = []) : u.RowsCounted :=
    rowsCounted_of_parts own (by simp [leaf])
  have hcounted : t.RowsCounted :=
    rowsCounted_of_parts trivial (by simpa [t, parts] using ⟨hleaf trivial rfl, hleaf trivial rfl⟩)
  have hwithin : Within (plain "100%") t := .inPart (by simp [t, parts]) (.here _)
  have hactive : ¬ ∀ c ∈ "100%".toList, Text.isActive c = false := fun h =>
    absurd (h '%' (by simp)) (by decide)
  obtain ⟨hemit, -, -, hwritten, hrender⟩ := escaping_runs hnodes .standard
  refine ⟨hnodes, hcounted, Sink.accepting_buffer "", ?_, hemit, ?_, ?_⟩
  · rw [render_counted hnodes hcounted]
    exact congrArg Except.ok (by decide)
  · exact fun heq => hactive ((hrender hcounted).mp heq _ hwithin)
  · exact fun heq => hactive ((hwritten g (Sink.accepting_buffer "") []).mp heq _
      ((hcounted.reached_iff _).mpr hwithin))

end Tree

end Manuscript
