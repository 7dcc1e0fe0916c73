import Manuscript.Proofs.ControlCharacters
import Manuscript.Proofs.Segments
/-!
# Balanced braces

A scan counts the braces that are open, and skips every backslash with the character after it. Whatever plain
text holds, no run of it moves the scan of an escaped rendering: if the other strings of a tree are balanced,
its text is.
-/
namespace Manuscript

/-- Where a scan stands: how many braces are open, and whether the next character is skipped. -/
structure Scan where
  depth : Int
  skips : Bool
  deriving DecidableEq, Repr

namespace Scan

def start : Scan := ⟨0, false⟩

def step (s : Scan) (c : Char) : Scan :=
  if s.skips then { s with skips := false }
  else if c = '\\' then { s with skips := true }
  else if c = '\x7b' then { s with depth := s.depth + 1 }
  else if c = '\x7d' then { s with depth := s.depth - 1 }
  else s

def run (s : Scan) (cs : List Char) : Scan := cs.foldl step s

/-- A scan under more braces. -/
def raised (n : Int) (s : Scan) : Scan := { s with depth := s.depth + n }

@[simp] theorem run_nil (s : Scan) : s.run [] = s := rfl

@[simp] theorem run_cons (s : Scan) (c : Char) (cs : List Char) : s.run (c :: cs) = (s.step c).run cs := rfl

theorem run_append (s : Scan) (cs ds : List Char) : s.run (cs ++ ds) = (s.run cs).run ds := List.foldl_append

theorem step_raised (n : Int) (s : Scan) (c : Char) : (s.raised n).step c = (s.step c).raised n := by
  cases hskips : s.skips with
  | true => simp [step, raised, hskips]
  | false =>
    simp only [step, raised, hskips]
    split
    · rfl
    · split
      · rfl
      · split
        · simp
          omega
        · split
          · simp
            omega
          · simp [hskips]

/-- Braces that were open before change nothing in a scan but its depth. -/
theorem run_raised (n : Int) (s : Scan) (cs : List Char) : (s.raised n).run cs = (s.run cs).raised n := by
  induction cs generalizing s with
  | nil => rfl
  | cons c cs ih => rw [run_cons, run_cons, step_raised, ih]

theorem step_ordinary {c : Char} (h : Text.isControl c = false) (s : Scan) (hs : s.skips = false) :
    s.step c = s := by
  rw [← Bool.not_eq_true, Text.isControl_iff] at h
  simp only [not_or] at h
  simp [step, hs, h]

end Scan

def scan (cs : List Char) : Scan := Scan.start.run cs

/-- After a text that does not end in the middle of a skip, another is scanned as by itself. -/
theorem scan_append_of_not_skips {cs : List Char} (h : (scan cs).skips = false) (ds : List Char) :
    scan (cs ++ ds) = (scan ds).raised (scan cs).depth := by
  have hstart : scan cs = Scan.start.raised (scan cs).depth := by
    rw [Scan.raised, Scan.start, Int.zero_add, ← h]
  calc
    scan (cs ++ ds) = (scan cs).run ds := Scan.run_append _ _ _
    _ = (Scan.start.raised (scan cs).depth).run ds := congrArg (·.run ds) hstart
    _ = (scan ds).raised (scan cs).depth := Scan.run_raised _ _ _

/-- Text that closes every brace it opens, none before it opens it, and that does not end in the middle of a
skip. -/
structure Balanced (cs : List Char) : Prop where
  rises (n : Nat) : 0 ≤ (scan (cs.take n)).depth
  settled : scan cs = Scan.start

namespace Balanced

variable {cs ds : List Char}

theorem nil : Balanced [] := ⟨fun n => by simp [scan, Scan.start], rfl⟩

theorem scan_append (h : Balanced cs) (ds : List Char) : scan (cs ++ ds) = scan ds := by
  have hsettled : Scan.start.run cs = Scan.start := h.settled
  rw [scan, Scan.run_append, hsettled, scan]

theorem append (hc : Balanced cs) (hd : Balanced ds) : Balanced (cs ++ ds) where
  rises n := by
    rw [List.take_append]
    by_cases hn : n ≤ cs.length
    · rw [Nat.sub_eq_zero_of_le hn, List.take_zero, List.append_nil]
      exact hc.rises n
    · rw [List.take_of_length_le (by omega), hc.scan_append]
      exact hd.rises _
  settled := by rw [hc.scan_append, hd.settled]

theorem ordinary {c : Char} (h : Text.isControl c = false) : Balanced [c] where
  rises n := by
    cases n with
    | zero => exact Int.le_refl 0
    | succ n =>
      have hone : scan [c] = Scan.start := Scan.step_ordinary h Scan.start rfl
      rw [List.take_succ_cons, List.take_nil, hone]
      exact Int.le_refl 0
  settled := Scan.step_ordinary h Scan.start rfl

theorem word (h : Text.Clean cs) : Balanced cs := by
  induction cs with
  | nil => exact nil
  | cons c cs ih =>
    rw [Text.clean_cons] at h
    exact append (ordinary h.1) (ih h.2)

/-- A character after a backslash is not looked at. -/
theorem skipped (c : Char) : Balanced ['\\', c] where
  rises n := by
    rcases n with _ | _ | n <;> simp [scan, Scan.start, Scan.step]
  settled := by simp [scan, Scan.start, Scan.step]

theorem braced (h : Balanced cs) : Balanced ('\x7b' :: cs ++ ['\x7d']) := by
  have hopened : ∀ ds, scan ('\x7b' :: ds) = (scan ds).raised 1 := fun ds =>
    Scan.run_raised 1 Scan.start ds
  refine ⟨fun n => ?_, ?_⟩
  · cases n with
    | zero => exact Int.le_refl 0
    | succ n =>
      -- the closing brace is the one place where the inner scan goes below zero, and there by one only
      have hinner : -1 ≤ (scan ((cs ++ ['\x7d']).take n)).depth := by
        rw [List.take_append]
        by_cases hn : n ≤ cs.length
        · have hrises := h.rises n
          rw [Nat.sub_eq_zero_of_le hn, List.take_zero, List.append_nil]
          omega
        · rw [List.take_of_length_le (by omega), h.scan_append, List.take_of_length_le (by simp; omega)]
          decide
      rw [List.cons_append, List.take_succ_cons, hopened, Scan.raised]
      dsimp only
      omega
  · rw [List.cons_append, hopened, h.scan_append]
    rfl

theorem iff_bounded (cs : List Char) :
    Balanced cs ↔ (∀ n ≤ cs.length, 0 ≤ (scan (cs.take n)).depth) ∧ scan cs = Scan.start := by
  constructor
  · intro h
    exact ⟨fun n _ => h.rises n, h.settled⟩
  · rintro ⟨hrises, hsettled⟩
    refine ⟨fun n => ?_, hsettled⟩
    by_cases hn : n ≤ cs.length
    · exact hrises n hn
    · rw [List.take_of_length_le (by omega), hsettled]
      exact Int.le_refl 0

end Balanced

instance (cs : List Char) : Decidable (Balanced cs) := decidable_of_iff _ (Balanced.iff_bounded cs).symm

theorem balanced_escapeChars (cs : List Char) : Balanced (Text.escapeChars cs) := by
  have hforms : ∀ form ∈ Text.activeForms, Balanced (Text.escapeChar form.1) := by decide
  exact Text.escapeChars_induction .nil (fun _ _ => .append) hforms
    (fun c hc => .ordinary (Text.isControl_of_not_active hc)) cs

namespace Segment

/-- Plain runs are balanced by being escaped. All other strings are to be balanced as they are held, and the
name of a new command after its backslash. -/
def Settles : Segment → Prop
  | cell text | raw text => Balanced text.toList
  | word text => Balanced ('\\' :: text.toList)
  | _ => True

instance : DecidablePred Settles
  | cell text | raw text => inferInstanceAs (Decidable (Balanced text.toList))
  | word text => inferInstanceAs (Decidable (Balanced ('\\' :: text.toList)))
  | fixed _ | heading | run _ => .isTrue trivial

/-- Segments that are balanced together, and none of which ends in the middle of a skip. -/
def Sound (o : Options) (ss : List Segment) : Prop :=
  Balanced (joined o ss).toList ∧ ∀ s ∈ ss, (scan (s.written o).toList).skips = false

variable {o : Options}

namespace Sound

theorem append {ss ts : List Segment} (hs : Sound o ss) (ht : Sound o ts) : Sound o (ss ++ ts) := by
  refine ⟨?_, List.forall_mem_append.mpr ⟨hs.2, ht.2⟩⟩
  rw [joined_append, String.toList_append]
  exact hs.1.append ht.1

theorem single {s : Segment} (h : Balanced (s.written o).toList) : Sound o [s] := by
  refine ⟨by simpa using h, List.forall_mem_singleton.mpr ?_⟩
  rw [h.settled]
  rfl

theorem group {inner : List Segment} (h : Sound o inner) : Sound o (group inner) := by
  have hbraces : (scan "\x7b".toList).skips = false ∧ (scan "\x7d".toList).skips = false := by decide
  refine ⟨?_, List.forall_mem_append.mpr ⟨List.forall_mem_cons.mpr ⟨hbraces.1, h.2⟩, ?_⟩⟩
  · have hbraced := h.1.braced
    simpa [Manuscript.braced] using hbraced
  · exact List.forall_mem_singleton.mpr hbraces.2

theorem call {name : String} {argument : List Segment} (hname : Balanced ('\\' :: name.toList))
    (h : Sound o argument) : Sound o (call name argument) := by
  have hcommand : Sound o [.fixed ("\\" ++ name)] := single (by simpa using hname)
  exact hcommand.append h.group

end Sound

theorem law_sound (made : o.Made) (escaping : o.escapePlainText = true) :
    Law Settles fun _ ss => Sound o ss where
  nil := ⟨.nil, by simp⟩
  append := Sound.append
  fixed := by
    have hwords : ∀ text ∈ fixedWords, Balanced text.toList := by decide
    exact fun text htext => .single (hwords text htext)
  run := by
    intro text _
    refine .single ?_
    simpa [written, escaping] using balanced_escapeChars text.toList
  cell h := .single h
  raw h := .single h
  group h := h.group
  call := by
    have hcommands : ∀ name ∈ argumentCommands, Balanced ('\\' :: name.toList) := by decide
    intro n argument name hname h
    exact h.call (hcommands name hname)
  heading := by
    intro argument h
    obtain ⟨hne, hword⟩ := made.controlWord
    obtain ⟨c, cs, hprinted⟩ := List.exists_cons_of_ne_nil hne
    rw [hprinted, Text.clean_cons] at hword
    have hcommand : Sound o [.heading] := by
      refine .single ?_
      have hall := (Balanced.skipped c).append (.word hword.2)
      simpa [written, hprinted] using hall
    exact hcommand.append h.group
  definition := by
    intro text h
    have hcommand : Balanced ('\\' :: "newcommand".toList) := by decide
    have hbalanced : Balanced ('\\' :: text.toList) := h
    have hname : Sound o [.word text] := .single (by simpa [written] using hbalanced)
    exact hname.call hcommand
  named := by
    have hnames : ∀ name ∈ environmentNames, Balanced name.toList := by decide
    exact hnames
  block := by
    intro n s name argument inner hs h hargument hinner
    have hmarkers : Balanced ('\\' :: "begin".toList) ∧ Balanced ('\\' :: "end".toList) := by decide
    have hnewline : Balanced "\n".toList := by decide
    have hline : Sound o [.fixed "\n"] := .single hnewline
    have hname : Sound o [s] := by
      rcases hs with rfl | rfl <;> exact .single h
    have hopening := (hname.call hmarkers.1).append hargument
    have hclosing := (hname.call hmarkers.2).append hline
    simpa [block] using hopening.append (hline.append (hinner.append hclosing))

theorem skips_joined {ss : List Segment} (h : ∀ s ∈ ss, (scan (s.written o).toList).skips = false) :
    (scan (joined o ss).toList).skips = false := by
  induction ss with
  | nil => rfl
  | cons s ss ih =>
    rw [List.forall_mem_cons] at h
    rw [joined_cons, String.toList_append, scan_append_of_not_skips h.1]
    exact ih h.2

/-- A plain run leaves as many braces open as there were before it. -/
theorem depth_append_run (escaping : o.escapePlainText = true) {cs : List Char}
    (h : (scan cs).skips = false) (text : String) :
    (scan (cs ++ (joined o [.run text]).toList)).depth = (scan cs).depth := by
  have hrun : Balanced (joined o [.run text]).toList := by
    simpa [written, escaping] using balanced_escapeChars text.toList
  rw [scan_append_of_not_skips h, hrun.settled]
  exact Int.zero_add _

end Segment

namespace Tree

open Segment

variable {o : Options} {t : Tree}

/-- The text of a tree whose strings are balanced is balanced, if plain text is escaped. Each plain run
leaves as many braces open as there were before it. -/
theorem render_balanced (h : t.OfNodes) (made : o.Made) (escaping : o.escapePlainText = true)
    (settles : ∀ s ∈ t.segments, s.Settles) :
    (t.RowsCounted → ∃ text, t.render o = .ok text) ∧
    ∀ text, t.render o = .ok text → text = joined o t.segments ∧ Balanced text.toList ∧
      ∀ before run after, t.segments = before ++ .run run :: after →
        (scan (joined o (before ++ [.run run])).toList).depth = (scan (joined o before).toList).depth := by
  obtain ⟨hbalanced, hskips⟩ := (law_sound made escaping).tree h settles
  refine ⟨fun hcounted => ⟨_, render_counted h hcounted o⟩, fun text htext => ?_⟩
  have hjoined := joined_segments o h
  obtain ⟨-, rfl⟩ := (render_eq_ok_iff h o text).mp htext
  refine ⟨hjoined.symm, hjoined ▸ hbalanced, fun before run after hsplit => ?_⟩
  rw [hsplit, List.forall_mem_append] at hskips
  rw [joined_append, String.toList_append]
  exact depth_append_run escaping (skips_joined hskips.1) run

theorem render_balanced_forged :
    let o : Options := ⟨"utf-8", true, .text "section"⟩
    let t := paragraph .listed [bold (plain "\x7d\x7d\\"), inlineMath "a_\x7b0\x7d", plain "\\textbf\x7b"]
    let text := "\\textbf\x7b\\\x7d\\\x7d\\textbackslash\x7b\x7d\x7d$a_\x7b0\x7d$" ++
      "\\textbackslash\x7b\x7dtextbf\\\x7b\n"
    t.OfNodes ∧ o.Made ∧ o.escapePlainText = true ∧ (∀ s ∈ t.segments, s.Settles) ∧
      t.render o = .ok text ∧ Balanced text.toList := by
  intro o t text
  have hnodes : t.OfNodes :=
    .paragraph (by simpa using ⟨Regular.bold (.plain _), Regular.inlineMath _, Regular.plain _⟩)
  have hsettles : ∀ s ∈ t.segments, s.Settles := by decide
  have hrender : t.render o = .ok text := by rfl
  obtain ⟨-, hall⟩ := render_balanced hnodes Options.made_escaping rfl hsettles
  exact ⟨hnodes, Options.made_escaping, rfl, hsettles, hrender, (hall text hrender).2.1⟩

end Tree

end Manuscript
