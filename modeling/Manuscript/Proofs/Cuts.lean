import Manuscript.Proofs.Destinations
/-!
# Cut runs

A plain run in a paragraph can be cut into runs of the same text together. A relation between two renderings in
progress that every step keeps is kept all over a tree, if it is kept from a run to the runs it is cut into. Renderings
to a text stay at the same place, since escaping goes character by character.
-/
namespace Manuscript

namespace Tree

/-- A node around the place of one child. -/
inductive Frame
  | bold
  | italic
  | paragraph (supply : Supply) (before after : List Tree)
  | sectioning (name : Datum) (supply : Supply) (before after : List Tree)
  | preamble (title author : Option String) (supply : Supply) (before after : List Tree)
  | front (documentClass : DocumentClass) (supply : Supply) (elements : List Tree)
  | document (documentClass : DocumentClass) (first : Tree) (supply : Supply) (before after : List Tree)
  | align (supply : Supply) (before after : List Tree)
  | list (kind : ListKind) (supply : Supply) (before after : List Tree) (argument : Option String)
  | table (supply : Supply) (before after : List Tree) (settings : ColumnSettings Column) (standard : Column)
  | blocked (fault : Fault)

/-- The node with a child in that place. -/
def Frame.fill : Frame → Tree → Tree
  | .bold, t => Tree.bold t
  | .italic, t => Tree.italic t
  | .paragraph supply before after, t => Tree.paragraph supply (before ++ t :: after)
  | .sectioning name supply before after, t => Tree.sectioning name supply (before ++ t :: after)
  | .preamble title author supply before after, t => Tree.preamble title author supply (before ++ t :: after)
  | .front documentClass supply elements, t => Tree.document documentClass t supply elements
  | .document documentClass first supply before after, t =>
    Tree.document documentClass first supply (before ++ t :: after)
  | .align supply before after, t => Tree.align supply (before ++ t :: after)
  | .list kind supply before after argument, t => Tree.list kind supply (before ++ t :: after) argument
  | .table supply before after settings standard, t => Tree.table supply (before ++ t :: after) settings standard
  | .blocked fault, t => Tree.blocked fault t

/-- A plain run in a paragraph, anywhere in a tree, is cut into runs of the same text together. -/
inductive Cut : Tree → Tree → Prop
  | run (before after : List Tree) (texts : List String) :
      Cut (paragraph .listed (before ++ plain (String.join texts) :: after))
        (paragraph .listed (before ++ texts.map plain ++ after))
  | inside (frame : Frame) {t u : Tree} (cut : Cut t u) : Cut (frame.fill t) (frame.fill u)

theorem columns_fill (frame : Frame) {t u : Tree} (h : t.typeName = u.typeName) :
    (frame.fill t).columns = (frame.fill u).columns := by
  cases frame with
  | blocked fault => simp only [Frame.fill, columns, typeName, h]
  | _ => rfl

theorem Cut.typeName {t u : Tree} (h : Cut t u) : t.typeName = u.typeName := by
  induction h with
  | run before after texts => rfl
  | inside frame cut ih =>
    cases frame with
    | blocked fault => exact ih
    | _ => rfl

/-- A tree with a cut in it is no row, and is asked for its columns in vain as before. -/
theorem Cut.columns {t u : Tree} (h : Cut t u) : t.columns = u.columns := by
  cases h with
  | run before after texts => rfl
  | inside frame cut => exact columns_fill frame cut.typeName

theorem Cut.numberColumns {t u : Tree} (h : Cut t u) (before after : List Tree) :
    Tree.numberColumns (before ++ t :: after) = Tree.numberColumns (before ++ u :: after) := by
  simp only [Tree.numberColumns, List.map_append, List.map_cons, h.columns]

end Tree

namespace Emission

/-- Carries out an emission from some progress on. -/
def runFrom (e : Emission) (p : Progress Rendering) : Progress Rendering := Step.runAll Rendering.perform e p

/-- From related progresses the runs of two emissions come to related ones. -/
def Matches (R : Progress Rendering → Progress Rendering → Prop) (e d : Emission) : Prop :=
  ∀ p q, R p q → R (e.runFrom p) (d.runFrom q)

/-- A relation that every step keeps. -/
structure Steady (R : Progress Rendering → Progress Rendering → Prop) : Prop where
  fault : ∀ p q, R p q → p.fault.isSome = q.fault.isSome
  taken : ∀ p q, R p q → p.fault = none → p.taken = q.taken
  act : ∀ p q, R p q → p.fault = none → ∀ event, R ((Step.act event).run Rendering.perform p)
    ((Step.act event).run Rendering.perform q)
  halt : ∀ p q, R p q → p.fault = none → ∀ f, R { p with fault := some f } { q with fault := some f }
  take : ∀ p q, R p q → p.fault = none → ∀ source,
    R { p with taken := p.taken ++ [source] } { q with taken := q.taken ++ [source] }

variable {R : Progress Rendering → Progress Rendering → Prop} {e d e' d' : Emission}

theorem runFrom_append (e d : Emission) (p : Progress Rendering) : (e ++ d).runFrom p = d.runFrom (e.runFrom p) :=
  Step.runAll_append Rendering.perform e d p

mutual
theorem step_related (hR : Steady R) : ∀ (step : Step Event) {p q : Progress Rendering}, R p q → p.fault = none →
    R (step.run Rendering.perform p) (step.run Rendering.perform q)
  | .act event, p, q, h, hp => hR.act p q h hp event
  | .halt f, p, q, h, hp => hR.halt p q h hp f
  | .take source, p, q, h, hp => hR.take p q h hp source
  | .once source first again, p, q, h, hp => by
    rw [Step.run, Step.run, hR.taken p q h hp]
    split
    · exact matches_self hR again p q h
    · exact matches_self hR first p q h

/-- What every step keeps, every run keeps. -/
theorem matches_self (hR : Steady R) : ∀ (e : Emission), Matches R e e
  | [], _, _, h => h
  | step :: e, p, q, h => by
    unfold runFrom
    rw [Step.runAll, Step.runAll, ← hR.fault p q h]
    split
    · exact h
    · rename_i hnone
      exact matches_self hR e _ _ (step_related hR step h (by simpa using hnone))
end

theorem Matches.append (h : Matches R e d) (h' : Matches R e' d') : Matches R (e ++ e') (d ++ d') := by
  intro p q hpq
  rw [runFrom_append, runFrom_append]
  exact h' _ _ (h p q hpq)

/-- What stands around matching emissions may be anything. -/
theorem Matches.around (h : Matches R e d) (hR : Steady R) (before after : Emission) :
    Matches R (before ++ e ++ after) (before ++ d ++ after) :=
  ((matches_self hR before).append h).append (matches_self hR after)

theorem runFrom_once (source : Ref) (e : Emission) (p : Progress Rendering) :
    runFrom [.once source e []] p =
      if p.fault.isSome then p else if p.taken.contains source then p else e.runFrom p := by
  simp only [runFrom, Step.runAll, Step.run]

theorem Matches.once (h : Matches R e d) (hR : Steady R) (source : Ref) :
    Matches R [.once source e []] [.once source d []] := by
  intro p q hpq
  rw [runFrom_once, runFrom_once, ← hR.fault p q hpq]
  split
  · exact hpq
  · rename_i hnone
    rw [hR.taken p q hpq (by simpa using hnone)]
    split
    · exact hpq
    · exact h p q hpq

theorem Matches.each (h : Matches R e d) (hR : Steady R) (supply : Supply) (before after : List Emission)
    (rest : Emission) :
    Matches R (supply.each (before ++ e :: after) rest) (supply.each (before ++ d :: after) rest) := by
  have hflat : Matches R ((before ++ e :: after).flatten ++ rest) ((before ++ d :: after).flatten ++ rest) := by
    simpa only [List.flatten_append, List.flatten_cons, List.append_assoc] using
      h.around hR before.flatten (after.flatten ++ rest)
  cases supply with
  | listed => exact hflat
  | missing typeName innermost counts => exact matches_self hR _
  | unsized typeName source =>
    cases source with
    | none => exact hflat
    | some source =>
      refine Matches.once ?_ hR source
      have hall := h.around hR (before.flatMap (.take source :: ·) ++ [.take source])
        (after.flatMap (.take source :: ·) ++ rest)
      simpa using hall

theorem Matches.tabular (h : Matches R e d) (hR : Steady R) (rows : Nat) (spec : Datum) :
    Matches R (tabular rows spec e) (tabular rows spec d) :=
  h.around hR [.act (.note (.table rows spec.literal)),
    line (command "begin" Marker.tabularEnvironment ++ braced spec.printed)]
    [line (command "end" Marker.tabularEnvironment)]

end Emission

namespace Tree

open Emission

variable {R : Progress Rendering → Progress Rendering → Prop} {o : Options} {t u : Tree}

/-- Tables with rows that are counted alike match if their rows do. -/
theorem matches_emitTable (hR : Steady R) {rows others : List Tree} (hlength : rows.length = others.length)
    (hcount : numberColumns rows = numberColumns others) (supply : Supply) (settings : ColumnSettings Column)
    (standard : Column) {e d : Emission} (h : Matches R e d) :
    Matches R (emitTable supply rows settings standard e) (emitTable supply others settings standard d) := by
  have hcounted : Matches R (emitCounted supply rows settings standard e)
      (emitCounted supply others settings standard d) := by
    simp only [emitCounted, columnSpec, hcount, hlength]
    split
    · exact h.tabular hR _ _
    · exact matches_self hR _
    · exact matches_self hR _
  cases settings with
  | unsuited f => exact matches_self hR _
  | raw spec =>
    simp only [emitTable, hlength]
    split
    · exact h.tabular hR _ _
    · exact matches_self hR _
  | _ => exact hcounted

/-- Children that match can stand in any place of a node. -/
theorem Cut.matches_fill (cut : Cut t u) (hR : Steady R) (h : Matches R (t.emit o) (u.emit o)) (frame : Frame) :
    Matches R ((frame.fill t).emit o) ((frame.fill u).emit o) := by
  have hall (supply : Supply) (before after : List Tree) :
      Matches R (supply.each (emitAll o (before ++ t :: after)) [])
        (supply.each (emitAll o (before ++ u :: after)) []) := by
    simpa only [emitAll_eq_map, List.map_append, List.map_cons] using h.each hR supply _ _ []
  have hlength (before after : List Tree) : (before ++ t :: after).length = (before ++ u :: after).length := by simp
  cases frame with
  | bold => exact h.around hR [write "\\textbf\x7b"] [write "\x7d"]
  | italic => exact h.around hR [write "\\textit\x7b"] [write "\x7d"]
  | paragraph supply before after => exact (hall supply before after).append (matches_self hR [line ""])
  | sectioning name supply before after =>
    simp only [Frame.fill, emit, hlength, emitAll_eq_map, List.map_append, List.map_cons]
    exact (matches_self hR _).append ((h.append (matches_self hR [line ""])).each hR supply _ _ [])
  | preamble title author supply before after =>
    simp only [Frame.fill, emit, hlength]
    exact ((hall supply before after).append (matches_self hR _)).append (matches_self hR _)
  | front documentClass supply elements =>
    simp only [Frame.fill, emit]
    split
    · exact matches_self hR _
    · rename_i n _
      split
      · exact matches_self hR _
      · have hfront := h.around hR
          [.act (.note (.document documentClass.name n)), line (command "documentclass" documentClass.name)]
          (line (command "begin" Marker.documentEnvironment) :: supply.each (emitAll o elements) [] ++
            [line (command "end" Marker.documentEnvironment)])
        simpa using hfront
  | document documentClass first supply before after =>
    simp only [Frame.fill, emit, hlength]
    split
    · exact matches_self hR _
    · rename_i n _
      split
      · exact (matches_self hR [.act (.note (.document documentClass.name n))]).append (hall supply before after)
      · have helements := (hall supply before after).around hR
          (.act (.note (.document documentClass.name n)) :: line (command "documentclass" documentClass.name) ::
            first.emit o ++ [line (command "begin" Marker.documentEnvironment)])
          [line (command "end" Marker.documentEnvironment)]
        simpa using helements
  | align supply before after => exact (hall supply before after).around hR [_] [_]
  | list kind supply before after argument => exact (hall supply before after).around hR [_] [_]
  | table supply before after settings standard =>
    exact matches_emitTable hR (hlength before after) (cut.numberColumns before after) supply settings standard
      (hall supply before after)
  | blocked fault => exact matches_self hR _

/-- One cut makes no difference, if cuts of runs in a paragraph make none. -/
theorem Cut.matches (cut : Cut t u) (hR : Steady R)
    (hrun : ∀ before after texts, Matches R (emit o (paragraph .listed (before ++ plain (String.join texts) :: after)))
      (emit o (paragraph .listed (before ++ texts.map plain ++ after)))) : Matches R (t.emit o) (u.emit o) := by
  induction cut with
  | run before after texts => exact hrun before after texts
  | inside frame cut ih => exact cut.matches_fill hR ih frame

end Tree

namespace Emission

variable {o : Options} {g : Target} {sink next : Sink} {notes : List Note} {taken : List Ref} {piece : String}

/-- A rendering that no fault has ended, with what it has written to so far. -/
def standing (o : Options) (g : Target) (notes : List Note) (taken : List Ref) (sink : Sink) : Progress Rendering :=
  ⟨⟨⟨o, some { g with sink }⟩, notes⟩, taken, none⟩

theorem runFrom_cons {p : Progress Rendering} (h : p.fault = none) (step : Step Event) (e : Emission) :
    runFrom (step :: e) p = runFrom e (step.run Rendering.perform p) := by
  simp only [runFrom, Step.runAll, h, Option.isSome_none, Bool.false_eq_true, if_false]

theorem run_write_ok (h : sink.write piece = .ok next) :
    (write piece).run Rendering.perform (standing o g notes taken sink) = standing o g notes taken next := by
  simp [Step.run, write, standing, Rendering.perform, Renderer.put, h]

theorem fault_run_write {f : Fault} (h : sink.write piece = .error f) :
    ((write piece).run Rendering.perform (standing o g notes taken sink)).fault.isSome := by
  simp [Step.run, write, standing, Rendering.perform, Renderer.put, h]

/-- What a plain run is written as. -/
def shown (o : Options) (text : String) : String := if o.escapePlainText then Text.escape text else text

theorem shown_join (o : Options) (texts : List String) :
    shown o (String.join texts) = String.join (texts.map (shown o)) := by
  unfold shown
  cases o.escapePlainText with
  | false => simp
  | true =>
    induction texts with
    | nil => rfl
    | cons text texts ih => simpa using ih

/-- A paragraph is written run by run, and then ended. -/
theorem runFrom_paragraph (before after : List Tree) (texts : List String) (p : Progress Rendering) :
    (Tree.emit o (.paragraph .listed (before ++ texts.map .plain ++ after))).runFrom p =
      runFrom [line ""] (runFrom (after.map (Tree.emit o)).flatten
        (runFrom ((texts.map (shown o)).map write) (runFrom (before.map (Tree.emit o)).flatten p))) := by
  have hruns : ((texts.map Tree.plain).map (Tree.emit o)).flatten = (texts.map (shown o)).map write := by
    induction texts with
    | nil => rfl
    | cons text texts ih => simpa [Tree.emit, shown] using ih
  rw [Tree.emit, Supply.each_listed, Tree.emitAll_eq_map, List.map_append, List.map_append, List.flatten_append,
    List.flatten_append, hruns, List.append_nil, runFrom_append, runFrom_append, runFrom_append]

theorem runFrom_paragraph_joined (before after : List Tree) (texts : List String) (p : Progress Rendering) :
    (Tree.emit o (.paragraph .listed (before ++ .plain (String.join texts) :: after))).runFrom p =
      runFrom [line ""] (runFrom (after.map (Tree.emit o)).flatten
        (runFrom [write (String.join (texts.map (shown o)))] (runFrom (before.map (Tree.emit o)).flatten p))) := by
  have hone := runFrom_paragraph (o := o) before after [String.join texts] p
  rwa [List.map_singleton, List.append_assoc, List.singleton_append, List.map_singleton, List.map_singleton,
    shown_join] at hone

/-! ## Texts -/

/-- Renderings to a text that are at the same place. -/
inductive Held : Progress Rendering → Progress Rendering → Prop
  | ended (p : Progress Rendering) (h : p.fault.isSome) : Held p p
  | standing (o : Options) (g : Target) (notes : List Note) (taken : List Ref) (content : String) :
      Held (standing o g notes taken (.buffer content false)) (standing o g notes taken (.buffer content false))

theorem steady_held : Steady Held where
  fault _ _ h := by cases h <;> rfl
  taken _ _ h _ := by cases h <;> rfl
  act p q h hp event := by
    cases h with
    | ended _ hfault => simp [hp] at hfault
    | standing o g notes taken content =>
      cases event with
      | write piece => exact .standing o g notes taken (content ++ piece)
      | note n => exact .standing o g (notes ++ [n]) taken content
      | writeValue value =>
        simp only [Step.run, Emission.standing, Rendering.perform, Renderer.put, Sink.writeValue]
        cases value.asText? with
        | some text => exact .standing o g notes taken (content ++ text)
        | none => exact .ended _ rfl
  halt p q h _ f := by cases h <;> exact .ended _ rfl
  take p q h hp source := by
    cases h with
    | ended _ hfault => simp [hp] at hfault
    | standing o g notes taken content => exact .standing o g notes (taken ++ [source]) content

theorem runFrom_writes_buffer (pieces : List String) (content : String) :
    runFrom (pieces.map write) (standing o g notes taken (.buffer content false)) =
      standing o g notes taken (.buffer (content ++ String.join pieces) false) := by
  induction pieces generalizing content with
  | nil => simp [runFrom, Step.runAll]
  | cons piece pieces ih =>
    have hw : (Sink.buffer content false).write piece = .ok (.buffer (content ++ piece) false) := rfl
    rw [List.map_cons, runFrom_cons rfl, run_write_ok hw, ih, String.join_cons, String.append_assoc]

/-- In a text, pieces are the same as what they are together. -/
theorem matches_pieces_held (pieces : List String) : Matches Held [write (String.join pieces)] (pieces.map write) := by
  intro p q h
  cases h with
  | ended _ hfault =>
    rw [runFrom, runFrom, Step.runAll_of_fault _ _ hfault, Step.runAll_of_fault _ _ hfault]
    exact .ended p hfault
  | standing o g notes taken content =>
    rw [← List.map_singleton, runFrom_writes_buffer, runFrom_writes_buffer, String.join_cons, String.join_nil,
      String.append_empty]
    exact .standing o g notes taken _

theorem matches_run_held (before after : List Tree) (texts : List String) :
    Matches Held (Tree.emit o (.paragraph .listed (before ++ .plain (String.join texts) :: after)))
      (Tree.emit o (.paragraph .listed (before ++ texts.map .plain ++ after))) := by
  intro p q h
  rw [runFrom_paragraph, runFrom_paragraph_joined]
  exact matches_self steady_held _ _ _ (matches_self steady_held _ _ _
    (matches_pieces_held _ _ _ (matches_self steady_held _ p q h)))

end Emission

end Manuscript
