import Manuscript.Proofs.WrittenText
/-!
# What texts are made of

The text of a tree is a series of segments: the strings that its nodes hold, and fixed words around them. A
law of segments that is kept when series are put together, and that the strings of a tree fit, is one of all
segments of the tree.
-/
namespace Manuscript

/-- A fixed word, the command of headings, a plain run, the name of a new command without its backslashes, a
cell, or any other string that a node holds. -/
inductive Segment
  | fixed (text : String)
  | heading
  | run (text : String)
  | word (text : String)
  | cell (text : String)
  | raw (text : String)
  deriving DecidableEq, Repr

namespace Segment

def written (o : Options) : Segment → String
  | fixed text | cell text | raw text => text
  | heading => "\\" ++ o.sectionCommand.printed
  | run text => if o.escapePlainText then Text.escape text else text
  | word text => "\\" ++ text

def joined (o : Options) (segments : List Segment) : String := String.join (segments.map (written o))

variable (o : Options)

@[simp] theorem written_fixed (text : String) : (fixed text).written o = text := rfl

@[simp] theorem written_raw (text : String) : (raw text).written o = text := rfl

@[simp] theorem joined_nil : joined o [] = "" := rfl

@[simp] theorem joined_cons (s : Segment) (ss : List Segment) :
    joined o (s :: ss) = s.written o ++ joined o ss := by
  simp [joined]

@[simp] theorem joined_append (ss ts : List Segment) : joined o (ss ++ ts) = joined o ss ++ joined o ts := by
  simp [joined]

@[simp] theorem joined_ite (p : Prop) [Decidable p] (ss ts : List Segment) :
    joined o (if p then ss else ts) = if p then joined o ss else joined o ts :=
  apply_ite (joined o) p ss ts

theorem joined_flatten (sss : List (List Segment)) :
    joined o sss.flatten = String.join (sss.map (joined o)) := by
  induction sss with
  | nil => rfl
  | cons ss sss ih => rw [List.flatten_cons, joined_append, ih, List.map_cons, String.join_cons]

theorem joined_intersperse (separator : String) (ts : List String) :
    joined o ((ts.map cell).intersperse (fixed separator)) = separator.intercalate ts := by
  induction ts with
  | nil => rfl
  | cons t ts ih =>
    cases ts with
    | nil => simp [written]
    | cons u us =>
      rw [List.map_cons] at ih
      simp [written, ih, String.append_assoc]

def group (inner : List Segment) : List Segment := fixed "\x7b" :: inner ++ [fixed "\x7d"]

def call (name : String) (argument : List Segment) : List Segment :=
  fixed ("\\" ++ name) :: group argument

def option : Option String → List Segment
  | some text => [fixed "[", raw text, fixed "]"]
  | none => []

def block (name : Segment) (argument inner : List Segment) : List Segment :=
  call "begin" [name] ++ argument ++ fixed "\n" :: inner ++ call "end" [name] ++ [fixed "\n"]

@[simp] theorem joined_group (inner : List Segment) :
    joined o (group inner) = Manuscript.braced (joined o inner) := by
  simp [group, Manuscript.braced, String.append_assoc]

@[simp] theorem joined_call (name : String) (argument : List Segment) :
    joined o (call name argument) = Manuscript.command name (joined o argument) := by
  simp [call, Manuscript.command]

@[simp] theorem joined_option (text : Option String) :
    joined o (option text) = Manuscript.optional text := by
  cases text <;> simp [option, Manuscript.optional, String.append_assoc]

@[simp] theorem joined_block (name : Segment) (argument inner : List Segment) :
    joined o (block name argument inner) =
      Tree.enclosed (name.written o) (joined o argument) (joined o inner) := by
  simp [block, Tree.enclosed, String.append_assoc]

theorem forall_mem_group {p : Segment → Prop} {inner : List Segment} (h : ∀ s ∈ group inner, p s) :
    ∀ s ∈ inner, p s :=
  fun s hs => h s (by simp [group, hs])

theorem forall_mem_call {p : Segment → Prop} {name : String} {argument : List Segment}
    (h : ∀ s ∈ call name argument, p s) : ∀ s ∈ argument, p s :=
  fun s hs => h s (by simp [call, group, hs])

theorem forall_mem_block {p : Segment → Prop} {name : Segment} {argument inner : List Segment}
    (h : ∀ s ∈ block name argument inner, p s) :
    p name ∧ (∀ s ∈ argument, p s) ∧ ∀ s ∈ inner, p s :=
  ⟨h name (by simp [block, call, group]), fun s hs => h s (by simp [block, hs]),
    fun s hs => h s (by simp [block, hs])⟩

def specification (rows : List Tree) (settings : ColumnSettings Column) (standard : Column) : List Segment :=
  match settings with
  | .raw spec => [raw spec.printed]
  | .typed given =>
    let aligned := given.map Columns.alignment
    (List.range ((rows.map Tree.columnsAsked).foldr max 0)).map fun i =>
      fixed (aligned[i]?.getD (aligned.getLast?.getD (Columns.alignment standard))).code
  | _ => []

theorem joined_specification (rows : List Tree) (settings : ColumnSettings Column) (standard : Column) :
    joined o (specification rows settings standard) = Tree.columnText rows settings standard := by
  cases settings with
  | typed given =>
    rw [specification, joined, List.map_map]
    rfl
  | raw spec => simp [specification, Tree.columnText]
  | _ => rfl

end Segment

namespace Tree

open Segment

mutual
/-- The segments of a tree's text, in order. -/
def segments : Tree → List Segment
  | plain text => [.run text]
  | inlineMath text => [.fixed "$", .raw text, .fixed "$"]
  | bold content => call "textbf" (segments content)
  | italic content => call "textit" (segments content)
  | paragraph _ content => (segmentsEach content).flatten ++ [.fixed "\n"]
  | sectioning name _ elements =>
    .heading :: group [.raw name.printed] ++ .fixed "\n" :: (if elements.isEmpty then [] else [.fixed "\n"]) ++
      ((segmentsEach elements).map (· ++ [.fixed "\n"])).flatten
  | tableOfContents => [.fixed "\\tableofcontents\n"]
  | titlePage => [.fixed "\\maketitle\n"]
  | clearPage => [.fixed "\\clearpage\n"]
  | environment name lines => block (.raw name) [] (lines.map fun line => [.raw line, .fixed "\n"]).flatten
  | userDefined text => [.raw text, .fixed "\n"]
  | input path => call "input" [.raw path] ++ [.fixed "\n"]
  | usePackage package argument =>
    .fixed "\\usepackage" :: option argument ++ group [.raw package] ++ [.fixed "\n"]
  | newCommand name definition arguments =>
    call "newcommand" [.word (String.ofList (name.toList.dropWhile (· == '\\')))] ++ option arguments ++
      group [.raw definition] ++ [.fixed "\n"]
  | preambleLine line => [.raw line, .fixed "\n"]
  | preamble title author _ elements =>
    (segmentsEach elements).flatten ++
      (if !elements.isEmpty && (title.isSome || author.isSome) then [.fixed "\n"] else []) ++
      title.elim [] (call "title" [.raw ·] ++ [.fixed "\n"]) ++
      author.elim [] (call "author" [.raw ·] ++ [.fixed "\n"])
  | document documentClass front _ elements =>
    if documentClass.isPart then (segmentsEach elements).flatten
    else
      call "documentclass" [.raw documentClass.name] ++ .fixed "\n" :: segments front ++
        block (.fixed "document") [] (segmentsEach elements).flatten
  | equation text label notNumbered =>
    .raw text :: label.elim [] (.fixed " " :: call "label" [.raw ·]) ++
      (if notNumbered then [.fixed " \\nonumber"] else []) ++ [.fixed " \\\\\n"]
  | align _ equations => block (.fixed "align") [] (segmentsEach equations).flatten
  | item text => [.fixed "\\item ", .raw text, .fixed "\n"]
  | list kind _ items argument =>
    block (.fixed kind.environmentName) (option argument) (segmentsEach items).flatten
  | tableRow row =>
    (row.cells.map .cell).intersperse (.fixed " & ") ++
      (if row.skipTerminator then [.fixed "\n"] else [.fixed " \\\\\n"])
  | table _ rows settings standard =>
    block (.fixed "tabular") (group (specification rows settings standard)) (segmentsEach rows).flatten
  | foreign _ | misfit _ | blocked _ _ => []

def segmentsEach : List Tree → List (List Segment)
  | [] => []
  | t :: ts => segments t :: segmentsEach ts
end

theorem segmentsEach_eq_map (ts : List Tree) : segmentsEach ts = ts.map segments := by
  induction ts with
  | nil => rfl
  | cons t ts ih => rw [segmentsEach, ih, List.map_cons]

theorem joined_segmentsEach {o : Options} {ts : List Tree}
    (h : ∀ t ∈ ts, joined o t.segments = t.text o) :
    joined o (segmentsEach ts).flatten = String.join (texts o ts) := by
  have hmap : ts.map (fun t => joined o t.segments) = ts.map (text o) := List.map_congr_left h
  rw [joined_flatten, segmentsEach_eq_map, texts_eq_map, List.map_map]
  exact congrArg String.join hmap

theorem joined_segmentsEach_lines {o : Options} {ts : List Tree}
    (h : ∀ t ∈ ts, joined o t.segments = t.text o) :
    joined o ((segmentsEach ts).map (· ++ [fixed "\n"])).flatten =
      String.join ((texts o ts).map (· ++ "\n")) := by
  have hmap : ts.map (fun t => joined o (t.segments ++ [fixed "\n"])) = ts.map (text o · ++ "\n") :=
    List.map_congr_left fun t ht => by simp [h t ht]
  rw [joined_flatten, segmentsEach_eq_map, texts_eq_map, List.map_map, List.map_map, List.map_map]
  exact congrArg String.join hmap

/-- The segments of a tree make up its text. -/
theorem joined_segments (o : Options) {t : Tree} (h : t.OfNodes) : joined o t.segments = t.text o := by
  induction h with
  | plain run => simp [segments, text, Segment.written]
  | bold inner ih => simp [segments, text, ih, command, braced, ← String.append_assoc]
  | italic inner ih => simp [segments, text, ih, command, braced, ← String.append_assoc]
  | paragraph inner ih => simp [segments, text, joined_segmentsEach ih]
  | sectioning name inner ih =>
    simp [segments, text, joined_segmentsEach_lines ih, Segment.written, command, String.append_assoc]
  | environment name lines =>
    have hlines : joined o (lines.map fun line => [raw line, fixed "\n"]).flatten =
        String.join (lines.map (· ++ "\n")) := by
      simp [joined_flatten, Function.comp_def]
    simp only [segments, text, joined_block, hlines, written_raw, joined_nil]
  | preamble title author inner ih =>
    cases title <;> cases author <;> simp [segments, text, joined_segmentsEach ih, String.append_assoc]
  | document declared first inner ihFront ih =>
    rw [segments, text]
    split
    · exact joined_segmentsEach ih
    · simp [ihFront, joined_segmentsEach ih, String.append_assoc]
  | align inner ih => simp [segments, text, joined_segmentsEach ih]
  | list kind argument inner ih => simp [segments, text, joined_segmentsEach ih]
  | tableRow row =>
    have hending : " \\\\\n" = " \\\\" ++ "\n" := rfl
    cases hskip : row.skipTerminator
    · simp only [segments, text, joined_append, joined_intersperse, hskip, hending, joined_ite]
      simp [String.append_assoc]
    · simp [segments, text, joined_intersperse, hskip]
  | table standard declared inner ih => simp [segments, text, joined_segmentsEach ih, joined_specification]
  | newCommand name definition arguments =>
    simp [segments, text, Segment.written, commandName, String.append_assoc]
  | equation shown label notNumbered =>
    cases label <;> cases notNumbered <;> simp [segments, text, String.append_assoc]
  | foreign allowed => exact allowed.elim
  | _ => simp [segments, text, String.append_assoc]

mutual
/-- The number of environments that a tree is written with. -/
def environments : Tree → Nat
  | bold content | italic content => environments content
  | paragraph _ content => environmentsAll content
  | sectioning _ _ elements => environmentsAll elements
  | preamble _ _ _ elements => environmentsAll elements
  | document documentClass front _ elements =>
    if documentClass.isPart then environmentsAll elements
    else environments front + (environmentsAll elements + 1)
  | environment _ _ => 1
  | align _ equations => environmentsAll equations + 1
  | list _ _ items _ => environmentsAll items + 1
  | table _ rows _ _ => environmentsAll rows + 1
  | _ => 0

def environmentsAll : List Tree → Nat
  | [] => 0
  | t :: ts => environments t + environmentsAll ts
end

end Tree

namespace Segment

/-- The words that stand alone. -/
def fixedWords : List String :=
  ["\n", "$", "[", "]", " ", " & ", "\\usepackage", "\\tableofcontents\n", "\\maketitle\n",
    "\\clearpage\n", "\\item ", " \\nonumber", " \\\\\n", "l", "c", "r"]

/-- The commands that take one argument. -/
def argumentCommands : List String :=
  ["textbf", "textit", "documentclass", "title", "author", "input", "label"]

def environmentNames : List String := ["document", "align", "tabular", "enumerate", "itemize"]

/-- A property of series of segments, with a number of environments, that is kept wherever trees put segments
together. -/
structure Law (fits : Segment → Prop) (P : Nat → List Segment → Prop) : Prop where
  nil : P 0 []
  append {m n : Nat} {ss ts : List Segment} : P m ss → P n ts → P (m + n) (ss ++ ts)
  fixed : ∀ text ∈ fixedWords, P 0 [.fixed text]
  run {text : String} : fits (.run text) → P 0 [.run text]
  cell {text : String} : fits (.cell text) → P 0 [.cell text]
  raw {text : String} : fits (.raw text) → P 0 [.raw text]
  group {n : Nat} {inner : List Segment} : P n inner → P n (group inner)
  call {n : Nat} {argument : List Segment} :
    ∀ name ∈ argumentCommands, P n argument → P n (call name argument)
  heading {argument : List Segment} : P 0 argument → P 0 (.heading :: Segment.group argument)
  definition {text : String} : fits (.word text) → P 0 (Segment.call "newcommand" [.word text])
  named : ∀ name ∈ environmentNames, fits (.raw name)
  block {n : Nat} {s : Segment} {name : String} {argument inner : List Segment} :
    s = .fixed name ∨ s = .raw name → fits (.raw name) → P 0 argument → P n inner →
      P (n + 1) (block s argument inner)

namespace Law

theorem either {P : Nat → List Segment → Prop} {p : Prop} [Decidable p] {ss ts : List Segment}
    (hs : P 0 ss) (ht : P 0 ts) : P 0 (if p then ss else ts) := by
  split
  · exact hs
  · exact ht

variable {fits : Segment → Prop} {P : Nat → List Segment → Prop} (law : Law fits P)

include law

theorem concat {n : Nat} {ss ts : List Segment} (hs : P n ss) (ht : P 0 ts) : P n (ss ++ ts) :=
  law.append hs ht

theorem prepend {n : Nat} {ss ts : List Segment} (hs : P 0 ss) (ht : P n ts) : P n (ss ++ ts) := by
  have hall := law.append hs ht
  rwa [Nat.zero_add] at hall

theorem newline : P 0 [.fixed "\n"] := law.fixed "\n" (by simp [fixedWords])

theorem flatten {sss : List (List Segment)} (h : ∀ ss ∈ sss, P 0 ss) : P 0 sss.flatten := by
  induction sss with
  | nil => exact law.nil
  | cons ss sss ih =>
    rw [List.forall_mem_cons] at h
    exact law.append h.1 (ih h.2)

theorem all {ss : List Segment} (h : ∀ s ∈ ss, P 0 [s]) : P 0 ss := by
  have hall := law.flatten (List.forall_mem_map.mpr h)
  rwa [← List.flatMap_def, List.flatMap_singleton'] at hall

theorem option {text : Option String} (h : ∀ s ∈ Segment.option text, fits s) :
    P 0 (Segment.option text) := by
  cases text with
  | none => exact law.nil
  | some shown =>
    have hopening := law.fixed "[" (by simp [fixedWords])
    have hclosing := law.fixed "]" (by simp [fixedWords])
    exact law.concat (law.prepend hopening (law.raw (h _ (by simp [Segment.option])))) hclosing

theorem specification {rows : List Tree} {settings : ColumnSettings Column} {standard : Column}
    (h : ∀ s ∈ Segment.specification rows settings standard, fits s) :
    P 0 (Segment.specification rows settings standard) := by
  refine law.all ?_
  cases settings with
  | raw spec => simpa [Segment.specification] using law.raw (h _ (by simp [Segment.specification]))
  | typed given =>
    have hcode : ∀ a : Alignment, P 0 [.fixed a.code] := by
      intro a
      cases a <;> exact law.fixed _ (by simp [fixedWords, Alignment.code])
    simp [Segment.specification, hcode]
  | _ => simp [Segment.specification]

theorem cells {texts : List String}
    (h : ∀ s ∈ (texts.map Segment.cell).intersperse (.fixed " & "), fits s) :
    P 0 ((texts.map Segment.cell).intersperse (.fixed " & ")) := by
  induction texts with
  | nil => exact law.nil
  | cons text texts ih =>
    cases texts with
    | nil => exact law.cell (h _ List.mem_cons_self)
    | cons next rest =>
      have hseparator := law.fixed " & " (by simp [fixedWords])
      obtain ⟨hfirst, hall⟩ := List.forall_mem_cons.mp h
      obtain ⟨-, hrest⟩ := List.forall_mem_cons.mp hall
      exact law.append (law.cell hfirst) (law.append hseparator (ih hrest))

theorem each {ts : List Tree} {ending : List Segment} (hending : P 0 ending)
    (ih : ∀ t ∈ ts, (∀ s ∈ t.segments, fits s) → P t.environments t.segments)
    (h : ∀ s ∈ ((Tree.segmentsEach ts).map (· ++ ending)).flatten, fits s) :
    P (Tree.environmentsAll ts) ((Tree.segmentsEach ts).map (· ++ ending)).flatten := by
  induction ts with
  | nil => exact law.nil
  | cons t ts hts =>
    rw [List.forall_mem_cons] at ih
    obtain ⟨hfirst, hrest⟩ := List.forall_mem_append.mp h
    obtain ⟨hsegments, -⟩ := List.forall_mem_append.mp hfirst
    exact law.append (law.concat (ih.1 hsegments) hending) (hts ih.2 hrest)

theorem trees {ts : List Tree}
    (ih : ∀ t ∈ ts, (∀ s ∈ t.segments, fits s) → P t.environments t.segments)
    (h : ∀ s ∈ (Tree.segmentsEach ts).flatten, fits s) :
    P (Tree.environmentsAll ts) (Tree.segmentsEach ts).flatten := by
  have heach := law.each law.nil ih (by simpa using h)
  simpa using heach

theorem standing {n : Nat} {argument inner : List Segment} (name : String) (h : name ∈ environmentNames)
    (hargument : P 0 argument) (hinner : P n inner) :
    P (n + 1) (Segment.block (.fixed name) argument inner) :=
  law.block (.inl rfl) (law.named name h) hargument hinner

theorem entry {text : String} (name : String) (h : name ∈ argumentCommands) (hfits : fits (.raw text)) :
    P 0 (Segment.call name [.raw text] ++ [.fixed "\n"]) :=
  law.concat (law.call name h (law.raw hfits)) law.newline

theorem entries {text : Option String} (name : String) (h : name ∈ argumentCommands)
    (hfits : ∀ s ∈ text.elim [] (Segment.call name [.raw ·] ++ [.fixed "\n"]), fits s) :
    P 0 (text.elim [] (Segment.call name [.raw ·] ++ [.fixed "\n"])) := by
  cases text with
  | none => exact law.nil
  | some shown => exact law.entry name h (hfits _ (by simp [Segment.call, Segment.group]))

/-- What is kept wherever segments are put together holds of all segments of a tree. -/
theorem tree {t : Tree} (h : t.OfNodes) (hfits : ∀ s ∈ t.segments, fits s) :
    P t.environments t.segments := by
  -- each case follows how the node puts its own segments around those of its parts
  induction h with
  | plain text => exact law.run (hfits _ List.mem_cons_self)
  | inlineMath text =>
    have hdollar := law.fixed "$" (by simp [fixedWords])
    exact law.append hdollar (law.append (law.raw (hfits _ (by simp [Tree.segments]))) hdollar)
  | bold inner ih => exact law.call "textbf" (by simp [argumentCommands]) (ih (forall_mem_call hfits))
  | italic inner ih => exact law.call "textit" (by simp [argumentCommands]) (ih (forall_mem_call hfits))
  | paragraph inner ih =>
    obtain ⟨hcontent, -⟩ := List.forall_mem_append.mp hfits
    exact law.concat (law.trees ih hcontent) law.newline
  | @sectioning name elements inner ih =>
    obtain ⟨hheading, helements⟩ := List.forall_mem_append.mp hfits
    have hname := law.heading (law.raw (hheading (.raw (Datum.text name).printed) (by simp [Segment.group])))
    have hblank : P 0 (if elements.isEmpty then [] else [.fixed "\n"]) := either law.nil law.newline
    exact law.prepend (law.append hname (law.append law.newline hblank)) (law.each law.newline ih helements)
  | tableOfContents => exact law.fixed _ (by simp [fixedWords])
  | titlePage => exact law.fixed _ (by simp [fixedWords])
  | clearPage => exact law.fixed _ (by simp [fixedWords])
  | environment name lines =>
    obtain ⟨hname, -, hlines⟩ := forall_mem_block hfits
    have hbody : P 0 (lines.map fun line => [.raw line, .fixed "\n"]).flatten := by
      refine law.flatten (List.forall_mem_map.mpr fun line hline => ?_)
      have hmem : .raw line ∈ (lines.map fun line => [Segment.raw line, .fixed "\n"]).flatten :=
        List.mem_flatten.mpr ⟨_, List.mem_map_of_mem hline, List.mem_cons_self⟩
      exact law.append (law.raw (hlines _ hmem)) law.newline
    exact law.block (.inr rfl) hname law.nil hbody
  | userDefined text => exact law.append (law.raw (hfits _ List.mem_cons_self)) law.newline
  | input path =>
    obtain ⟨hpath, -⟩ := List.forall_mem_append.mp hfits
    exact law.entry _ (by simp [argumentCommands]) (forall_mem_call hpath _ List.mem_cons_self)
  | usePackage package argument =>
    obtain ⟨hall, -⟩ := List.forall_mem_append.mp hfits
    obtain ⟨hopening, hpackage⟩ := List.forall_mem_append.mp hall
    have hargument := law.option fun s hs => hopening s (List.mem_cons_of_mem _ hs)
    have hcommand := law.fixed "\\usepackage" (by simp [fixedWords])
    have hname := law.group (law.raw (forall_mem_group hpackage _ List.mem_cons_self))
    exact law.append (law.append (law.append hcommand hargument) hname) law.newline
  | newCommand name definition arguments =>
    obtain ⟨hall, -⟩ := List.forall_mem_append.mp hfits
    obtain ⟨hopening, hdefinition⟩ := List.forall_mem_append.mp hall
    obtain ⟨hname, harguments⟩ := List.forall_mem_append.mp hopening
    have hword := law.definition (forall_mem_call hname _ List.mem_cons_self)
    have hbody := law.group (law.raw (forall_mem_group hdefinition _ List.mem_cons_self))
    exact law.append (law.append (law.append hword (law.option harguments)) hbody) law.newline
  | preambleLine line => exact law.append (law.raw (hfits _ List.mem_cons_self)) law.newline
  | preamble title author inner ih =>
    obtain ⟨hall, hauthor⟩ := List.forall_mem_append.mp hfits
    obtain ⟨hopening, htitle⟩ := List.forall_mem_append.mp hall
    obtain ⟨helements, -⟩ := List.forall_mem_append.mp hopening
    have htitle' := law.entries _ (by simp [argumentCommands]) htitle
    have hauthor' := law.entries _ (by simp [argumentCommands]) hauthor
    refine law.concat (law.concat (law.concat (law.trees ih helements) ?_) htitle') hauthor'
    exact either law.newline law.nil
  | document declared first inner ihFront ih =>
    rw [Tree.segments] at hfits ⊢
    rw [Tree.environments]
    split
    · rename_i hpart
      rw [if_pos hpart] at hfits
      exact law.trees ih hfits
    · rename_i hpart
      rw [if_neg hpart] at hfits
      obtain ⟨hopening, hbody⟩ := List.forall_mem_append.mp hfits
      obtain ⟨hclass, hfront⟩ := List.forall_mem_append.mp hopening
      obtain ⟨-, -, helements⟩ := forall_mem_block hbody
      have hname := forall_mem_call hclass _ List.mem_cons_self
      have hclass' := law.entry "documentclass" (by simp [argumentCommands]) hname
      have hfront' := ihFront fun s hs => hfront s (List.mem_cons_of_mem _ hs)
      have hbody' := law.standing "document" (by simp [environmentNames]) law.nil (law.trees ih helements)
      simpa using law.append (law.prepend hclass' hfront') hbody'
  | equation text label notNumbered =>
    obtain ⟨hopening, -⟩ := List.forall_mem_append.mp hfits
    obtain ⟨hparts, -⟩ := List.forall_mem_append.mp hopening
    obtain ⟨htext, hlabel⟩ := List.forall_mem_cons.mp hparts
    have hlabel' : P 0 (label.elim [] (.fixed " " :: Segment.call "label" [.raw ·])) := by
      cases label with
      | none => exact law.nil
      | some name =>
        have hspace := law.fixed " " (by simp [fixedWords])
        have hname := hlabel (.raw name) (by simp [Segment.call, Segment.group])
        exact law.append hspace (law.call "label" (by simp [argumentCommands]) (law.raw hname))
    have hnumber : P 0 (if notNumbered then [.fixed " \\nonumber"] else []) :=
      either (law.fixed _ (by simp [fixedWords])) law.nil
    have hend := law.fixed " \\\\\n" (by simp [fixedWords])
    exact law.append (law.append (law.append (law.raw htext) hlabel') hnumber) hend
  | align inner ih =>
    obtain ⟨-, -, hequations⟩ := forall_mem_block hfits
    exact law.standing _ (by simp [environmentNames]) law.nil (law.trees ih hequations)
  | item text =>
    have hitem := law.fixed "\\item " (by simp [fixedWords])
    exact law.append hitem (law.append (law.raw (hfits _ (by simp [Tree.segments]))) law.newline)
  | list kind argument inner ih =>
    obtain ⟨-, hargument, hitems⟩ := forall_mem_block hfits
    have hname : kind.environmentName ∈ environmentNames := by
      cases kind <;> simp [environmentNames, ListKind.environmentName]
    exact law.standing _ hname (law.option hargument) (law.trees ih hitems)
  | tableRow row =>
    obtain ⟨hcells, -⟩ := List.forall_mem_append.mp hfits
    exact law.concat (law.cells hcells) (either law.newline (law.fixed _ (by simp [fixedWords])))
  | table standard declared inner ih =>
    obtain ⟨-, hargument, hrows⟩ := forall_mem_block hfits
    have hspecification := law.group (law.specification (forall_mem_group hargument))
    exact law.standing _ (by simp [environmentNames]) hspecification (law.trees ih hrows)
  | foreign allowed => exact allowed.elim

end Law

end Segment

end Manuscript
