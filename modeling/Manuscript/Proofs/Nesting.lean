import Manuscript.Proofs.ControlCharacters
import Manuscript.Proofs.Segments
/-!
# Nested environments

The markers of environments in a text are read as brackets that carry a name. If the strings of a tree hold no
control characters, and plain text is escaped or has no backslash, then no markers can be read but those that
environments are written with, and these are nested.
-/
namespace Manuscript

inductive Bracket
  | opening (name : String)
  | closing (name : String)
  deriving DecidableEq, Repr

namespace Bracket

def isOpening : Bracket → Bool
  | opening _ => true
  | closing _ => false

@[simp] theorem isOpening_opening (name : String) : (opening name).isOpening = true := rfl

@[simp] theorem isOpening_closing (name : String) : (closing name).isOpening = false := rfl

/-- What a command and its argument begin with. -/
def head (command : String) : List Char := '\\' :: command.toList ++ ['\x7b']

/-- The argument of a command that a text begins with. It ends at the next closing brace. -/
def argument? (command : String) (cs : List Char) : Option String :=
  if head command <+: cs then
    let rest := cs.drop (head command).length
    if '\x7d' ∈ rest then some (String.ofList (rest.takeWhile (· != '\x7d'))) else none
  else none

/-- The marker that a text begins with. -/
def first? (cs : List Char) : Option Bracket :=
  ((argument? "begin" cs).map opening).or ((argument? "end" cs).map closing)

/-- The markers of environments in a text, wherever they stand, in order. -/
def all : List Char → List Bracket
  | [] => []
  | c :: cs => (first? (c :: cs)).toList ++ all cs

/-- Whether brackets close the given names and those that they open, each of them once and the last one
first. -/
def settles : List String → List Bracket → Bool
  | [], [] => true
  | names, opening name :: bs => settles (name :: names) bs
  | name :: names, closing other :: bs => name == other && settles names bs
  | _, _ => false

/-- Brackets after which the same names are left to be closed as before them. -/
def Nested (bs : List Bracket) : Prop := ∀ names rest, settles names (bs ++ rest) = settles names rest

theorem Nested.nil : Nested [] := fun _ _ => rfl

theorem Nested.append {bs cs : List Bracket} (hb : Nested bs) (hc : Nested cs) : Nested (bs ++ cs) := by
  intro names rest
  rw [List.append_assoc, hb, hc]

theorem Nested.enclosed {bs : List Bracket} (h : Nested bs) (name : String) :
    Nested (opening name :: bs ++ [closing name]) := by
  intro names rest
  calc
    settles names (opening name :: bs ++ [closing name] ++ rest)
    _ = settles (name :: names) (bs ++ (closing name :: rest)) := by simp [settles]
    _ = settles (name :: names) (closing name :: rest) := h _ _
    _ = settles names rest := by simp [settles]

theorem Nested.settles {bs : List Bracket} (h : Nested bs) : settles [] bs = true := by
  have hall := h [] []
  rwa [List.append_nil] at hall

theorem first?_eq_none {cs : List Char} (h : ∀ command ∈ ["begin", "end"], ¬(head command <+: cs)) :
    first? cs = none := by
  have hnone : ∀ command ∈ ["begin", "end"], argument? command cs = none :=
    fun command hcommand => if_neg (h command hcommand)
  rw [first?, hnone "begin" (by simp), hnone "end" (by simp)]
  rfl

theorem first?_ordinary {c : Char} (h : c ≠ '\\') (cs : List Char) : first? (c :: cs) = none := by
  refine first?_eq_none fun command _ hmarker => ?_
  rw [head, List.cons_append, List.cons_prefix_cons] at hmarker
  exact h hmarker.1.symm

theorem first?_backslash {c : Char} (hb : c ≠ 'b') (he : c ≠ 'e') (cs : List Char) :
    first? ('\\' :: c :: cs) = none := by
  have hhead : ∀ command ∈ ["begin", "end"],
      ∃ d ds, head command = '\\' :: d :: ds ∧ (d = 'b' ∨ d = 'e') := by
    intro command hcommand
    simp only [List.mem_cons, List.not_mem_nil, or_false] at hcommand
    rcases hcommand with rfl | rfl
    · exact ⟨'b', _, rfl, .inl rfl⟩
    · exact ⟨'e', _, rfl, .inr rfl⟩
  refine first?_eq_none fun command hcommand hmarker => ?_
  obtain ⟨d, ds, hd, hletter⟩ := hhead command hcommand
  rw [hd, List.cons_prefix_cons, List.cons_prefix_cons] at hmarker
  rcases hletter with rfl | rfl
  · exact hb hmarker.2.1.symm
  · exact he hmarker.2.1.symm

/-- A command is a marker only if it is one of the two and an argument follows. -/
theorem first?_command {word : String} {d : Char} (hword : Text.Clean word.toList)
    (hd : Text.isControl d = true) (hother : d = '\x7b' → word ≠ "begin" ∧ word ≠ "end")
    (cs : List Char) : first? ('\\' :: word.toList ++ d :: cs) = none := by
  have hclean : ∀ command ∈ ["begin", "end"], Text.Clean command.toList := by decide
  refine first?_eq_none fun command hcommand hmarker => ?_
  obtain ⟨ys, hys⟩ := hmarker
  have hrest : command.toList ++ '\x7b' :: ys = word.toList ++ d :: cs := by simpa [head] using hys
  obtain ⟨hsame, rfl, -⟩ := Text.append_cons_inj (hclean command hcommand) hword rfl hd hrest
  obtain rfl := String.toList_injective hsame
  simp only [List.mem_cons, List.not_mem_nil, or_false] at hcommand
  rcases hcommand with hbegin | hend
  · exact (hother rfl).1 hbegin
  · exact (hother rfl).2 hend

theorem argument?_self (command : String) {name : String} (h : Text.Clean name.toList)
    (cs : List Char) : argument? command (head command ++ (name.toList ++ '\x7d' :: cs)) = some name := by
  have hname : ∀ c ∈ name.toList, (c != '\x7d') = true := by
    intro c hc
    have hcontrol := h c hc
    rw [← Bool.not_eq_true, Text.isControl_iff] at hcontrol
    simp only [not_or] at hcontrol
    simpa using hcontrol.2.2
  rw [argument?, if_pos (List.prefix_append _ _), List.drop_left]
  dsimp only
  rw [if_pos (by simp), List.takeWhile_append_of_pos hname, List.takeWhile_cons_of_neg (by simp)]
  simp

theorem first?_opening {name : String} (h : Text.Clean name.toList) (cs : List Char) :
    first? (head "begin" ++ (name.toList ++ '\x7d' :: cs)) = some (opening name) := by
  rw [first?, argument?_self "begin" h]
  rfl

theorem first?_closing {name : String} (h : Text.Clean name.toList) (cs : List Char) :
    first? (head "end" ++ (name.toList ++ '\x7d' :: cs)) = some (closing name) := by
  have hbegin : argument? "begin" (head "end" ++ (name.toList ++ '\x7d' :: cs)) = none := by
    have hb : head "begin" = '\\' :: 'b' :: "egin\x7b".toList := rfl
    have he : head "end" = '\\' :: 'e' :: "nd\x7b".toList := rfl
    refine if_neg fun hmarker => ?_
    simp only [hb, he, List.cons_append, List.cons_prefix_cons] at hmarker
    exact absurd hmarker.2.1 (by decide)
  rw [first?, hbegin, argument?_self "end" h]
  rfl

end Bracket

/-- Whatever follows a text, the markers read from it are the given ones. -/
def Reads (cs : List Char) (bs : List Bracket) : Prop :=
  ∀ rest, Bracket.all (cs ++ rest) = bs ++ Bracket.all rest

namespace Reads

variable {cs ds : List Char} {as bs : List Bracket}

theorem nil : Reads [] [] := fun _ => rfl

theorem append (hc : Reads cs as) (hd : Reads ds bs) : Reads (cs ++ ds) (as ++ bs) := by
  intro rest
  rw [List.append_assoc, hc, hd, List.append_assoc]

theorem cons {c : Char} (hc : ∀ rest, Bracket.first? (c :: cs ++ rest) = none) (h : Reads cs bs) :
    Reads (c :: cs) bs := by
  intro rest
  have hnone := hc rest
  rw [List.cons_append] at hnone ⊢
  rw [Bracket.all, hnone, h rest]
  rfl

theorem ordinary (h : '\\' ∉ cs) : Reads cs [] := by
  induction cs with
  | nil => exact nil
  | cons c cs ih =>
    rw [List.mem_cons, not_or] at h
    exact (ih h.2).cons fun rest => Bracket.first?_ordinary (Ne.symm h.1) _

theorem clean (h : Text.Clean cs) : Reads cs [] := ordinary h.not_mem

/-- Text in which every backslash stands before a character that begins no marker. -/
def harmless : List Char → Bool
  | [] => true
  | c :: cs => (c != '\\' || cs.head?.any fun d => d != 'b' && d != 'e') && harmless cs

theorem of_harmless (h : harmless cs = true) : Reads cs [] := by
  induction cs with
  | nil => exact nil
  | cons c cs ih =>
    rw [harmless, Bool.and_eq_true, Bool.or_eq_true] at h
    obtain ⟨hc | hnext, hrest⟩ := h
    · exact (ih hrest).cons fun rest => Bracket.first?_ordinary (by simpa using hc) _
    · cases cs with
      | nil => cases hnext
      | cons d ds =>
        have hd : d ≠ 'b' ∧ d ≠ 'e' := by simpa using hnext
        refine (ih hrest).cons fun rest => ?_
        by_cases hc : c = '\\'
        · rw [hc]
          exact Bracket.first?_backslash hd.1 hd.2 _
        · exact Bracket.first?_ordinary hc _

/-- A command without control characters, up to the character that ends it. -/
theorem command {word : String} {d : Char} (hword : Text.Clean word.toList)
    (hd : d = '\x7b' ∧ word ≠ "begin" ∧ word ≠ "end" ∨ d = '\x7d') :
    Reads ('\\' :: word.toList ++ [d]) [] := by
  have hcontrol : Text.isControl d = true ∧ (d = '\x7b' → word ≠ "begin" ∧ word ≠ "end") ∧
      d ≠ '\\' := by
    rcases hd with ⟨rfl, hother⟩ | rfl
    · exact ⟨rfl, fun _ => hother, by decide⟩
    · exact ⟨rfl, fun h => absurd h (by decide), by decide⟩
  have hrest : Reads (word.toList ++ [d]) [] := ordinary (by simpa [hword.not_mem] using Ne.symm hcontrol.2.2)
  refine hrest.cons fun rest => ?_
  have hnone := Bracket.first?_command hword hcontrol.1 hcontrol.2.1 rest
  simpa using hnone

theorem marker {command name : String} {b : Bracket} (hcommand : '\\' ∉ command.toList)
    (hname : Text.Clean name.toList)
    (hfirst : ∀ rest, Bracket.first? (Bracket.head command ++ (name.toList ++ '\x7d' :: rest)) = some b) :
    Reads (Bracket.head command ++ name.toList ++ ['\x7d']) [b] := by
  -- only the backslash begins a marker, so nothing is read from the rest of it
  have hinner : Reads (command.toList ++ ['\x7b'] ++ name.toList ++ ['\x7d']) [] :=
    ordinary (by simp [hcommand, hname.not_mem])
  intro rest
  have hsome := hfirst rest
  have hafter := hinner rest
  simp only [Bracket.head, List.cons_append, List.append_assoc, List.nil_append] at hsome hafter ⊢
  rw [Bracket.all, hsome, hafter]
  rfl

theorem escapeChars (cs : List Char) : Reads (Text.escapeChars cs) [] := by
  have hforms : ∀ form ∈ Text.activeForms, harmless (Text.escapeChar form.1) = true := by decide
  have hordinary : ∀ c, Text.isActive c = false → Reads [c] [] := fun c hc =>
    clean (List.forall_mem_singleton.mpr (Text.isControl_of_not_active hc))
  exact Text.escapeChars_induction (P := (Reads · [])) nil (fun _ _ hs ht => hs.append ht)
    (fun form hform => of_harmless (hforms form hform)) hordinary cs

theorem opening {name : String} (h : Text.Clean name.toList) :
    Reads (Bracket.head "begin" ++ name.toList ++ ['\x7d']) [.opening name] :=
  marker (by decide) h (Bracket.first?_opening h)

theorem closing {name : String} (h : Text.Clean name.toList) :
    Reads (Bracket.head "end" ++ name.toList ++ ['\x7d']) [.closing name] :=
  marker (by decide) h (Bracket.first?_closing h)

end Reads

namespace Segment

/-- Strings that hold no control characters, but for rules in cells and the braces of plain text, and its
backslashes if they are escaped. -/
def Unmarked (o : Options) : Segment → Prop
  | run text => o.escapePlainText = true ∨ '\\' ∉ text.toList
  | cell text => text = Marker.horizontalLine ∨ Text.Clean text.toList
  | word text | raw text => Text.Clean text.toList
  | _ => True

instance (o : Options) : DecidablePred (Unmarked o)
  | run text => inferInstanceAs (Decidable (o.escapePlainText = true ∨ '\\' ∉ text.toList))
  | cell text => inferInstanceAs
      (Decidable (text = Marker.horizontalLine ∨ Text.Clean text.toList))
  | word text | raw text => inferInstanceAs (Decidable (Text.Clean text.toList))
  | fixed _ | heading => .isTrue trivial

/-- Segments whose markers are nested, with a number of environments. -/
def Nests (o : Options) (n : Nat) (ss : List Segment) : Prop :=
  ∃ bs, Reads (joined o ss).toList bs ∧ Bracket.Nested bs ∧ bs.countP Bracket.isOpening = n

variable {o : Options}

namespace Nests

theorem append {m n : Nat} {ss ts : List Segment} (hs : Nests o m ss) (ht : Nests o n ts) :
    Nests o (m + n) (ss ++ ts) := by
  obtain ⟨as, hreads, hnested, rfl⟩ := hs
  obtain ⟨bs, hreads', hnested', rfl⟩ := ht
  refine ⟨as ++ bs, ?_, hnested.append hnested', List.countP_append⟩
  rw [joined_append, String.toList_append]
  exact hreads.append hreads'

theorem none {ss : List Segment} (h : Reads (joined o ss).toList []) : Nests o 0 ss := ⟨[], h, .nil, rfl⟩

theorem group {n : Nat} {inner : List Segment} (h : Nests o n inner) : Nests o n (group inner) := by
  obtain ⟨bs, hreads, hnested, rfl⟩ := h
  have hopening : Reads ['\x7b'] [] := .of_harmless rfl
  have hclosing : Reads ['\x7d'] [] := .of_harmless rfl
  have hall := (hopening.append hreads).append hclosing
  exact ⟨bs, by simpa [Manuscript.braced] using hall, hnested, rfl⟩

end Nests

theorem law_nests (made : o.Made)
    (other : o.sectionCommand.printed ≠ "begin" ∧ o.sectionCommand.printed ≠ "end") :
    Law (Unmarked o) (Nests o) where
  nil := .none .nil
  append := Nests.append
  fixed := by
    have hwords : ∀ text ∈ fixedWords, Reads.harmless text.toList = true := by decide
    intro text htext
    refine .none ?_
    simpa using Reads.of_harmless (hwords text htext)
  run := by
    intro text h
    refine .none ?_
    rw [joined_cons, joined_nil, String.append_empty, written]
    split
    · rw [Text.toList_escape]
      exact .escapeChars text.toList
    · rename_i hnot
      exact .ordinary (h.resolve_left hnot)
  cell := by
    intro text h
    refine .none ?_
    rcases h with rfl | h
    · have hrule : Reads.harmless Marker.horizontalLine.toList = true := by decide
      simpa [written] using Reads.of_harmless hrule
    · simpa [written] using Reads.clean h
  raw := by
    intro text h
    refine .none ?_
    simpa using Reads.clean h
  group h := h.group
  call := by
    have hcommands : ∀ name ∈ argumentCommands, Reads.harmless ('\\' :: name.toList) = true := by decide
    intro n argument name hname h
    have hcommand : Nests o 0 [.fixed ("\\" ++ name)] := by
      refine .none ?_
      simpa using Reads.of_harmless (hcommands name hname)
    simpa [Segment.call] using hcommand.append h.group
  heading := by
    rintro argument ⟨bs, hreads, hnested, hcount⟩
    have hopening := Reads.command made.controlWord.2 (.inl ⟨rfl, other⟩)
    have hclosing : Reads ['\x7d'] [] := .of_harmless rfl
    have hall := (hopening.append hreads).append hclosing
    exact ⟨bs, by simpa [written, Manuscript.braced] using hall, hnested, hcount⟩
  definition := by
    intro text h
    have hopening : Reads "\\newcommand\x7b".toList [] := .of_harmless (by decide)
    have hall := hopening.append (Reads.command h (.inr rfl))
    refine .none ?_
    simpa [written, Manuscript.command, Manuscript.braced] using hall
  named := by
    have hnames : ∀ name ∈ environmentNames, Text.Clean name.toList := by decide
    exact hnames
  block := by
    intro n s name argument inner hs h hargument hinner
    have hwritten : s.written o = name := by
      rcases hs with rfl | rfl <;> rfl
    have hnewline : Reads ['\n'] [] := .of_harmless rfl
    have hline : Nests o 0 [.fixed "\n"] := .none (by simpa using hnewline)
    obtain ⟨bs, hreads, hnested, hcount⟩ := (hargument.append hline).append hinner
    have hopening := (Reads.opening h).append hreads
    have hclosing := (Reads.closing h).append hnewline
    have hbegin : Bracket.head "begin" = "\\begin\x7b".toList := rfl
    have hend : Bracket.head "end" = "\\end\x7b".toList := rfl
    refine ⟨.opening name :: bs ++ [.closing name], ?_, hnested.enclosed name, ?_⟩
    · have hall := hopening.append hclosing
      rw [hbegin, hend] at hall
      simpa [block, call, Segment.group, hwritten] using hall
    · simp [List.countP_cons, hcount]

end Segment

namespace Tree

open Segment

variable {o : Options} {t : Tree}

/-- The markers in the text of a tree are nested, and there are as many of them as environments, if the
strings of the tree hold no control characters. -/
theorem render_nested (h : t.OfNodes) (made : o.Made)
    (other : o.sectionCommand.printed ≠ "begin" ∧ o.sectionCommand.printed ≠ "end")
    (unmarked : ∀ s ∈ t.segments, s.Unmarked o) :
    (t.RowsCounted → ∃ text, t.render o = .ok text) ∧
    ∀ text, t.render o = .ok text → text = joined o t.segments ∧
      Bracket.settles [] (Bracket.all text.toList) = true ∧
      (Bracket.all text.toList).countP Bracket.isOpening = t.environments := by
  obtain ⟨bs, hreads, hnested, hcount⟩ := (law_nests made other).tree h unmarked
  refine ⟨fun hcounted => ⟨_, render_counted h hcounted o⟩, fun text htext => ?_⟩
  have hjoined := joined_segments o h
  obtain ⟨-, rfl⟩ := (render_eq_ok_iff h o text).mp htext
  have hall : Bracket.all (t.text o).toList = bs := by
    rw [hjoined] at hreads
    simpa [Bracket.all] using hreads []
  rw [hall]
  exact ⟨hjoined.symm, hnested.settles, hcount⟩

theorem render_nested_forged :
    let o : Options := ⟨"utf-8", true, .text "section"⟩
    let t := list .itemize .listed [environment "center" ["x"], newCommand "\\\\begin" "b" none,
      paragraph .listed [plain "\\end\x7bitemize\x7d"]] none
    t.OfNodes ∧ o.Made ∧ (o.sectionCommand.printed ≠ "begin" ∧ o.sectionCommand.printed ≠ "end") ∧
      (∀ s ∈ t.segments, s.Unmarked o) ∧ ∃ text, t.render o = .ok text ∧
        Bracket.settles [] (Bracket.all text.toList) = true ∧
        (Bracket.all text.toList).countP Bracket.isOpening = 2 := by
  intro o t
  have hnodes : t.OfNodes := by
    have hrun : (paragraph .listed [plain "\\end\x7bitemize\x7d"]).OfNodes :=
      .paragraph (by simpa using .plain _)
    exact .list .itemize none (by simpa using ⟨Regular.environment _ _, Regular.newCommand _ _ none, hrun⟩)
  have hother : o.sectionCommand.printed ≠ "begin" ∧ o.sectionCommand.printed ≠ "end" := by decide
  have hunmarked : ∀ s ∈ t.segments, s.Unmarked o := by decide
  obtain ⟨-, hall⟩ := render_nested hnodes Options.made_escaping hother hunmarked
  have hrender : t.render o = .ok (t.text o) := by rfl
  obtain ⟨-, hsettles, hcount⟩ := hall (t.text o) hrender
  exact ⟨hnodes, Options.made_escaping, hother, hunmarked, _, hrender, hsettles, hcount⟩

end Tree

end Manuscript
