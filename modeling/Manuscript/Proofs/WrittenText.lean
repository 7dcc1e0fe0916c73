import Manuscript.Proofs.Columns
import Manuscript.Proofs.Pieces
/-!
# The text of a tree

The text of a tree follows from the texts of its parts, whatever it is written to. A tree of nodes whose
tables can count their columns is written as that text; any other ends before the first table that cannot.
-/
namespace Manuscript

namespace Tree

/-- A text between the markers of an environment. -/
def enclosed (name argument inner : String) : String :=
  command "begin" name ++ argument ++ "\n" ++ inner ++ command "end" name ++ "\n"

mutual
/-- The text of a tree. -/
def text (o : Options) : Tree → String
  | plain text => if o.escapePlainText then Text.escape text else text
  | inlineMath text => "$" ++ text ++ "$"
  | bold content => "\\textbf\x7b" ++ text o content ++ "\x7d"
  | italic content => "\\textit\x7b" ++ text o content ++ "\x7d"
  | paragraph _ content => String.join (texts o content) ++ "\n"
  | sectioning name _ elements =>
    command o.sectionCommand.printed name.printed ++ "\n" ++ (if elements.isEmpty then "" else "\n") ++
      String.join ((texts o elements).map (· ++ "\n"))
  | tableOfContents => "\\tableofcontents\n"
  | titlePage => "\\maketitle\n"
  | clearPage => "\\clearpage\n"
  | environment name lines => enclosed name "" (String.join (lines.map (· ++ "\n")))
  | userDefined text => text ++ "\n"
  | input path => command "input" path ++ "\n"
  | usePackage package argument => "\\usepackage" ++ optional argument ++ braced package ++ "\n"
  | newCommand name definition arguments =>
    command "newcommand" (commandName name) ++ optional arguments ++ braced definition ++ "\n"
  | preambleLine line => line ++ "\n"
  | preamble title author _ elements =>
    String.join (texts o elements) ++
      (if !elements.isEmpty && (title.isSome || author.isSome) then "\n" else "") ++
      title.elim "" (command "title" · ++ "\n") ++ author.elim "" (command "author" · ++ "\n")
  | document documentClass front _ elements =>
    if documentClass.isPart then String.join (texts o elements)
    else
      command "documentclass" documentClass.name ++ "\n" ++ text o front ++
        enclosed "document" "" (String.join (texts o elements))
  | equation text label notNumbered =>
    text ++ label.elim "" (" " ++ command "label" ·) ++ (if notNumbered then " \\nonumber" else "") ++
      " \\\\\n"
  | align _ equations => enclosed "align" "" (String.join (texts o equations))
  | item text => "\\item " ++ text ++ "\n"
  | list kind _ items argument =>
    enclosed kind.environmentName (optional argument) (String.join (texts o items))
  | tableRow row => " & ".intercalate row.cells ++ (if row.skipTerminator then "" else " \\\\") ++ "\n"
  | table _ rows settings standard =>
    enclosed "tabular" (braced (columnText rows settings standard)) (String.join (texts o rows))
  | foreign _ | misfit _ | blocked _ _ => ""

def texts (o : Options) : List Tree → List String
  | [] => []
  | t :: ts => text o t :: texts o ts
end

theorem texts_eq_map (o : Options) (ts : List Tree) : texts o ts = ts.map (text o) := by
  induction ts with
  | nil => rfl
  | cons t ts ih => simp [texts, ih]

end Tree

/-- The fault of asking a part of a table that is no row for its columns. -/
def Tree.CountFault (s : Tree) (f : Fault) : Prop :=
  ∃ c ∈ s.parts, c.kind? ≠ some .tableRow ∧ f = .noAttribute (.value c.typeName) "columns"

namespace Emission

/-- An emission writes a text as a whole. But if there are tables that cannot count their columns, it ends
where the text of one of them begins. -/
structure Follows (o : Options) (e : Emission) (text : String) (uncounted : Tree → Prop) : Prop where
  direct : e.Direct
  whole : (∀ s, ¬uncounted s) → e.ending = none ∧ String.join e.pieces = text
  begun : (∃ s, uncounted s) → ∃ s f, uncounted s ∧ s.CountFault f ∧ e.ending = some f ∧
    ∃ rest, text = String.join e.pieces ++ (s.text o ++ rest)

namespace Follows

variable {o : Options} {d e : Emission} {s t : String} {p q : Tree → Prop}

theorem congr (h : e.Follows o s p) (hs : s = t) (hp : ∀ u, p u ↔ q u) : e.Follows o t q := by
  obtain rfl : p = q := funext fun u => propext (hp u)
  rw [← hs]
  exact h

theorem append (hd : d.Follows o s p) (he : e.Follows o t q) :
    (d ++ e).Follows o (s ++ t) (fun u => p u ∨ q u) where
  direct := hd.direct.append he.direct
  whole := by
    intro hnone
    obtain ⟨hend, hjoin⟩ := hd.whole fun u hu => hnone u (.inl hu)
    obtain ⟨hend', hjoin'⟩ := he.whole fun u hu => hnone u (.inr hu)
    rw [ending_append hd.direct, pieces_append hd.direct, hend, hend', ← hjoin, ← hjoin']
    simp
  begun := by
    intro hsome
    rw [ending_append hd.direct, pieces_append hd.direct]
    by_cases hp : ∃ u, p u
    · obtain ⟨u, f, hu, hf, hend, rest, hs⟩ := hd.begun hp
      rw [hend, hs]
      exact ⟨u, f, .inl hu, hf, rfl, rest ++ t, by simp [String.append_assoc]⟩
    · obtain ⟨hend, hjoin⟩ := hd.whole fun u hu => hp ⟨u, hu⟩
      obtain ⟨u, f, hu, hf, hend', rest, ht⟩ := he.begun (by simpa [exists_or, hp] using hsome)
      rw [hend, hend', ht, ← hjoin]
      exact ⟨u, f, .inr hu, hf, rfl, rest, by simp [String.append_assoc]⟩

theorem of_written (direct : e.Direct) (hend : e.ending = none) (hjoin : String.join e.pieces = s) :
    e.Follows o s fun _ => False :=
  ⟨direct, fun _ => ⟨hend, hjoin⟩, fun ⟨_, h⟩ => h.elim⟩

theorem nil : Follows o [] "" fun _ => False :=
  of_written (by simp [Direct]) rfl (by simp [pieces])

theorem write (piece : String) : Follows o [write piece] piece fun _ => False :=
  of_written (by simp [Direct, Emission.write]) rfl (by simp [pieces, Emission.write, Event.pieces])

theorem line (text : String) : Follows o [line text] (text ++ "\n") fun _ => False :=
  write (text ++ "\n")

theorem note (n : Note) : Follows o [.act (.note n)] "" fun _ => False :=
  of_written (by simp [Direct]) rfl (by simp [pieces, Event.pieces])

/-- A table that cannot count its columns has nothing of it written. -/
theorem halt {u : Tree} {f : Fault} (hu : p u) (hf : u.CountFault f) :
    Follows o [.halt f] (u.text o) p :=
  ⟨by simp [Direct], fun h => absurd hu (h u), fun _ => ⟨u, f, hu, hf, rfl, "", by simp [pieces]⟩⟩

theorem flatten {α : Type} {e : α → Emission} {s : α → String} {p : α → Tree → Prop} {as : List α}
    (h : ∀ a ∈ as, (e a).Follows o (s a) (p a)) :
    Follows o (as.map e).flatten (String.join (as.map s)) (fun u => ∃ a ∈ as, p a u) := by
  induction as with
  | nil => exact nil.congr (by simp) (by simp)
  | cons a as ih =>
    have hall := (h a List.mem_cons_self).append (ih fun b hb => h b (List.mem_cons_of_mem _ hb))
    exact hall.congr (by simp) (by simp)

end Follows

end Emission

namespace Emission.Follows

variable {o : Options} {p : Tree → Prop}

theorem trees {ts : List Tree}
    (h : ∀ t ∈ ts, (t.emit o).Follows o (t.text o) t.Uncounted) :
    Follows o (Tree.emitAll o ts).flatten (String.join (Tree.texts o ts))
      (fun s => ∃ t ∈ ts, t.Uncounted s) := by
  rw [Tree.emitAll_eq_map, Tree.texts_eq_map]
  exact flatten h

theorem argument {body : Emission} {inner : String} (opening : String) (h : body.Follows o inner p) :
    Follows o (Emission.write opening :: body ++ [Emission.write "\x7d"]) (opening ++ inner ++ "\x7d") p :=
  ((write _).append (h.append (write _))).congr (by simp [String.append_assoc]) (by simp)

theorem enclosed {body : Emission} {inner : String} (name argument : String)
    (h : body.Follows o inner p) :
    Follows o (Emission.line (command "begin" name ++ argument) :: body ++
        [Emission.line (command "end" name)])
      (Tree.enclosed name argument inner) p :=
  ((line _).append (h.append (line _))).congr (by simp [Tree.enclosed, String.append_assoc]) (by simp)

/-- The markers of most environments take no argument. -/
theorem environment {body : Emission} {inner : String} (name : String) (h : body.Follows o inner p) :
    Follows o (Emission.line (command "begin" name) :: body ++ [Emission.line (command "end" name)])
      (Tree.enclosed name "" inner) p := by
  have hall := enclosed name "" h
  rwa [String.append_empty] at hall

theorem titleLines (title author : Option String) :
    (titleLines title author).Follows o
      (title.elim "" (command "title" · ++ "\n") ++ author.elim "" (command "author" · ++ "\n"))
      fun _ => False := by
  cases title <;> cases author
  · exact nil
  · exact line _
  · exact (line _).congr (by simp) fun _ => Iff.rfl
  · exact ((line _).append (line _)).congr rfl (by simp)

theorem blankIf (wanted : Bool) :
    (blankIf wanted).Follows o (if wanted then "\n" else "") fun _ => False := by
  cases wanted
  · exact nil
  · exact line ""

theorem tabular (rows : Nat) (spec : Datum) {body : Emission} {inner : String}
    (h : body.Follows o inner p) :
    (tabular rows spec body).Follows o (Tree.enclosed "tabular" (braced spec.printed) inner) p :=
  ((note _).append (enclosed _ _ h)).congr (by simp [Marker.tabularEnvironment]) (by simp)

end Emission.Follows

namespace Tree

open Emission

variable {o : Options}

/-- What a node writes stops for its parts only, if it can count its own columns. -/
theorem follows_of_parts {t : Tree} {e : Emission} {text : String} (own : t.OwnRows)
    (h : e.Follows o text fun s => ∃ c ∈ t.parts, c.Uncounted s) : e.Follows o text t.Uncounted :=
  h.congr rfl fun s => by simp [uncounted_iff t s, own]

theorem emit_follows_leaf {t : Tree} (h : t.emit o = [write (t.text o)]) (own : t.OwnRows)
    (leaf : t.parts = []) : (t.emit o).Follows o (t.text o) t.Uncounted := by
  rw [h]
  exact follows_of_parts own ((Follows.write _).congr rfl (by simp [leaf]))

/-- A table is written under the columns that its rows ask for, if they can be counted. -/
theorem emit_follows_table {rows : List Tree} {settings : ColumnSettings Column} (standard : Alignment)
    (declared : settings.Declared) (hrows : ∀ t ∈ rows, t.OfNodes)
    (h : ∀ t ∈ rows, (t.emit o).Follows o (t.text o) t.Uncounted) :
    (emit o (table .listed rows settings (.aligned standard))).Follows o
      (text o (table .listed rows settings (.aligned standard)))
      (table .listed rows settings (.aligned standard)).Uncounted := by
  have hbody := Follows.trees h
  cases declared with
  | raw spec =>
    have hall := Follows.tabular rows.length (.text spec) hbody
    simp only [emit, text, emitTable, Supply.each_listed, Supply.length_listed, List.append_nil]
    exact follows_of_parts trivial hall
  | typed given =>
    by_cases hk : ∀ t ∈ rows, t.kind? = some .tableRow
    · obtain ⟨rs, rfl⟩ := exists_rows hrows hk
      have hspec := columnSpec_rows rs given standard
      have hall := Follows.tabular (rs.map tableRow).length (.text (columnText (rs.map tableRow)
        (.typed (given.map .aligned)) (.aligned standard))) hbody
      simp only [emit, text, emitTable, emitCounted, hspec, Supply.length_listed, Supply.each_listed,
        List.append_nil]
      exact follows_of_parts hk hall
    · obtain ⟨f, hf, hfault⟩ := columnSpec_stray hrows hk (given.map .aligned) (.aligned standard)
      have hhalt : emit o (table .listed rows (.typed (given.map .aligned)) (.aligned standard)) =
          [.halt f] := by
        simp only [emit, emitTable, emitCounted, hf, Supply.length_listed]
      rw [hhalt]
      exact Follows.halt ⟨.here _, hk⟩ hfault

/-- What is emitted for a tree of nodes follows its text. -/
theorem emit_follows (o : Options) {t : Tree} (h : t.OfNodes) :
    (t.emit o).Follows o (t.text o) t.Uncounted := by
  -- the text of a node is cut where its emission is, so each case appends what its parts follow
  induction h with
  | plain text => exact emit_follows_leaf rfl trivial rfl
  | inlineMath text => exact emit_follows_leaf rfl trivial rfl
  | bold inner ih =>
    simp only [emit, Tree.text]
    exact follows_of_parts trivial ((Follows.argument _ ih).congr rfl (by simp [parts]))
  | italic inner ih =>
    simp only [emit, Tree.text]
    exact follows_of_parts trivial ((Follows.argument _ ih).congr rfl (by simp [parts]))
  | paragraph inner ih =>
    simp only [emit, Tree.text, Supply.each_listed, List.append_nil]
    refine follows_of_parts trivial (((Follows.trees ih).append (.line "")).congr rfl ?_)
    simp [parts]
  | sectioning name inner ih =>
    have hbody := Follows.flatten fun t ht => (ih t ht).append (.line "")
    simp only [emit, Tree.text, Supply.each_listed, List.append_nil, emitAll_eq_map, texts_eq_map,
      List.map_map, Supply.counts_listed]
    refine follows_of_parts trivial
      (((Follows.line _).append ((Follows.blankIf _).append hbody)).congr ?_ ?_)
    · simp [String.append_assoc, Function.comp_def]
    · simp [parts]
  | tableOfContents => exact emit_follows_leaf rfl trivial rfl
  | titlePage => exact emit_follows_leaf rfl trivial rfl
  | clearPage => exact emit_follows_leaf rfl trivial rfl
  | environment name lines =>
    have hbody := Follows.flatten fun text (_ : text ∈ lines) => Follows.line (o := o) text
    rw [← List.flatMap_def, ← List.map_eq_flatMap] at hbody
    simp only [emit, Tree.text]
    exact follows_of_parts trivial ((Follows.environment name hbody).congr rfl (by simp [parts]))
  | userDefined text => exact emit_follows_leaf rfl trivial rfl
  | input path => exact emit_follows_leaf rfl trivial rfl
  | usePackage package argument => exact emit_follows_leaf rfl trivial rfl
  | newCommand name definition arguments => exact emit_follows_leaf rfl trivial rfl
  | preambleLine line => exact emit_follows_leaf rfl trivial rfl
  | preamble title author inner ih =>
    simp only [emit, Tree.text, Supply.each_listed, List.append_nil, Supply.counts_listed,
      List.append_assoc]
    refine follows_of_parts trivial
      (((Follows.trees ih).append ((Follows.blankIf _).append (.titleLines title author))).congr ?_ ?_)
    · simp [String.append_assoc]
    · simp [parts]
  | document declared first inner ihFront ih =>
    have hbody := Follows.trees ih
    have hrest := ihFront.append (Follows.environment "document" hbody)
    simp only [emit, Tree.text, Supply.each_listed, List.append_nil, Supply.length_listed,
      List.append_assoc]
    refine follows_of_parts trivial ?_
    split
    · rename_i hpart
      refine ((Follows.note _).append hbody).congr ?_ ?_
      · simp
      · simp [parts, hpart]
    · rename_i hpart
      refine ((Follows.note _).append ((Follows.line _).append hrest)).congr ?_ ?_
      · simp [String.append_assoc]
      · simp [parts, hpart]
  | equation text label notNumbered =>
    refine emit_follows_leaf ?_ trivial rfl
    cases label <;> cases notNumbered <;> simp [emit, Tree.text, equationLine, line, Marker.noNumber,
      Marker.rowTerminator, String.append_assoc]
  | align inner ih =>
    simp only [emit, Tree.text, Supply.each_listed, List.append_nil]
    exact follows_of_parts trivial (Follows.environment "align" (.trees ih))
  | item text => exact emit_follows_leaf rfl trivial rfl
  | list kind argument inner ih =>
    simp only [emit, Tree.text, Supply.each_listed, List.append_nil]
    exact follows_of_parts trivial (Follows.enclosed _ _ (.trees ih))
  | tableRow row => exact emit_follows_leaf rfl trivial rfl
  | table standard declared inner ih => exact emit_follows_table standard declared inner ih
  | foreign allowed => exact allowed.elim

/-- A tree of nodes whose tables can count their columns can be rendered. -/
theorem render_counted {t : Tree} (h : t.OfNodes) (hcounted : t.RowsCounted) (o : Options) :
    t.render o = .ok (t.text o) := by
  have hfollows := emit_follows o h
  obtain ⟨hend, hjoin⟩ := hfollows.whole ((rowsCounted_iff_not t).mp hcounted)
  rw [render_direct hfollows.direct, hend, hjoin]
  rfl

theorem render_eq_ok_iff {t : Tree} (h : t.OfNodes) (o : Options) (text : String) :
    t.render o = .ok text ↔ t.RowsCounted ∧ text = t.text o := by
  constructor
  · intro hrender
    have hfollows := emit_follows o h
    obtain ⟨hend, rfl⟩ := eq_join_of_render hfollows.direct hrender
    have hcounted : ∀ s, ¬t.Uncounted s := by
      intro s hs
      obtain ⟨-, f, -, -, hf, -⟩ := hfollows.begun ⟨s, hs⟩
      rw [hend] at hf
      cases hf
    exact ⟨(rowsCounted_iff_not t).mpr hcounted, (hfollows.whole hcounted).2⟩
  · rintro ⟨hcounted, rfl⟩
    exact render_counted h hcounted o

/-- What is written of a tree of nodes, to whatever accepts it: the whole text of the tree, or if it holds
tables that cannot count their columns, the text before one of them, with a fault for what is no row. -/
theorem written_text {t : Tree} (h : t.OfNodes) (o : Options) :
    (t.RowsCounted → t.render o = .ok (t.text o) ∧
      ∀ g : Target, g.sink.Accepting → ∀ notes,
        ((Renderer.idle o).walk t g notes).fault = none ∧
          String.join ((Renderer.idle o).attempted t g notes) = t.text o) ∧
    (¬t.RowsCounted → ∃ s f before rest, t.Uncounted s ∧ s.CountFault f ∧
      t.text o = before ++ (s.text o ++ rest) ∧ t.render o = .error f ∧
      ∀ g : Target, g.sink.Accepting → ∀ notes,
        ((Renderer.idle o).walk t g notes).fault = some f ∧
          String.join ((Renderer.idle o).attempted t g notes) = before) := by
  have hfollows := emit_follows o h
  have hwalk := fun (g : Target) (hg : g.sink.Accepting) (notes : List Note) =>
    Renderer.attempted_of_accepting (r := .idle o) hfollows.direct hg notes
  constructor
  · intro hcounted
    obtain ⟨hend, hjoin⟩ := hfollows.whole ((rowsCounted_iff_not t).mp hcounted)
    refine ⟨render_counted h hcounted o, fun g hg notes => ?_⟩
    obtain ⟨hfault, htried⟩ := hwalk g hg notes
    exact ⟨hfault.trans hend, by rw [htried]; exact hjoin⟩
  · intro huncounted
    obtain ⟨s, f, hs, hf, hend, rest, htext⟩ := hfollows.begun (by
      rw [rowsCounted_iff_not] at huncounted
      simpa using huncounted)
    have hrender : t.render o = .error f := by
      rw [render_direct hfollows.direct, hend]
      rfl
    refine ⟨s, f, _, rest, hs, hf, htext, hrender, fun g hg notes => ?_⟩
    obtain ⟨hfault, htried⟩ := hwalk g hg notes
    exact ⟨hfault.trans hend, by rw [htried]; rfl⟩

theorem written_text_two_columns :
    let t := document (.standard .article) (preamble none none .listed []) .listed
      [table .listed [tableRow (.make ["a", "b"] none false)] (.typed [.aligned .right]) (.aligned .left)]
    t.OfNodes ∧ t.RowsCounted ∧ t.render .standard = .ok
      ("\\documentclass\x7barticle\x7d\n\\begin\x7bdocument\x7d\n\\begin\x7btabular\x7d\x7brr\x7d\n" ++
        "a & b \\\\\n\\end\x7btabular\x7d\n\\end\x7bdocument\x7d\n") := by
  intro t
  have hnodes : t.OfNodes := by
    refine .document (.inl ⟨.article, rfl⟩) (.preamble none none (by simp)) ?_
    simpa using Regular.table .left (.typed [.right]) (by simpa using Regular.tableRow _)
  have hcounted : t.RowsCounted := by
    have hrow : ∀ row, (tableRow row).RowsCounted := fun _ =>
      rowsCounted_of_parts trivial (by simp [parts])
    have hfront : (preamble none none .listed []).RowsCounted :=
      rowsCounted_of_parts trivial (by simp [parts])
    refine rowsCounted_of_parts trivial ?_
    simp only [t, parts]
    simpa using ⟨hfront, rowsCounted_of_parts (by simp [OwnRows, kind?]) (by simpa [parts] using hrow _)⟩
  refine ⟨hnodes, hcounted, ?_⟩
  rw [((written_text hnodes .standard).1 hcounted).1]
  exact congrArg Except.ok (by decide)

/-- A paragraph in the place of a row has a text of its own, but keeps its table from being written. -/
theorem paragraph_among_rows :
    let t := table .listed [paragraph .listed []] (.typed []) (.aligned .left)
    let g : Target := ⟨.buffer "" false, none, .text "<string>"⟩
    t.OfNodes ∧ g.sink.Accepting ∧ String.join ((Renderer.idle .standard).attempted t g []) = "" ∧
      t.text .standard = "\\begin\x7btabular\x7d\x7b\x7d\n\n\\end\x7btabular\x7d\n" := by
  refine ⟨?_, Sink.accepting_buffer "", by decide, by decide⟩
  exact .table .left (.typed []) (by simpa using Regular.paragraph (by simp))

end Tree

end Manuscript
