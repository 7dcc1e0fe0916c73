import Manuscript.Proofs.ControlCharacters
import Manuscript.Proofs.WrittenText
/-!
# Reading paragraphs back

With plain text escaped, a paragraph reads as a series of signs in one way only: the characters of its plain
runs, its formulas, and the ends of its bold and italic parts. What cannot be told from the signs is how plain
text at the top of the paragraph is cut into runs.
-/
namespace Manuscript

inductive Sign
  | letter (c : Char)
  | formula (text : String)
  | bold
  | italic
  | closing
  deriving DecidableEq, Repr

namespace Sign

def written : Sign → List Char
  | letter c => Text.escapeChar c
  | formula text => '$' :: text.toList ++ ['$']
  | bold => "\\textbf\x7b".toList
  | italic => "\\textit\x7b".toList
  | closing => ['\x7d']

theorem written_letter (c : Char) : (letter c).written = Text.escapeChar c := rfl

theorem written_formula (text : String) : (formula text).written = '$' :: text.toList ++ ['$'] := rfl

/-- A formula can be told from what follows it if it holds no dollar sign. -/
def Clear : Sign → Prop
  | formula text => '$' ∉ text.toList
  | _ => True

/-- The signs that have a written form of their own. -/
def fixed : List Sign :=
  [bold, italic, closing] ++ Text.activeForms.map fun form => letter form.1

theorem prefixFree_fixed : ∀ a ∈ fixed, ∀ b ∈ fixed, a.written <+: b.written → a = b := by
  decide

theorem head?_fixed : ∀ a ∈ fixed, a.written.head? = some '\\' ∨ a.written.head? = some '\x7d' := by
  decide

theorem cases_written (sign : Sign) :
    sign ∈ fixed ∨ (∃ c, sign = letter c ∧ Text.isActive c = false) ∨ ∃ text, sign = formula text := by
  cases sign with
  | letter c =>
    cases hc : Text.isActive c with
    | false => exact .inr (.inl ⟨c, rfl, hc⟩)
    | true =>
      obtain ⟨form, hform, rfl⟩ := Text.exists_form_of_active hc
      exact .inl (List.mem_append_right _ (List.mem_map.mpr ⟨form, hform, rfl⟩))
  | formula text => exact .inr (.inr ⟨text, rfl⟩)
  | bold | italic | closing => exact .inl (by simp [fixed])

theorem head?_ordinary {c : Char} (h : Text.isActive c = false) : (letter c).written.head? = some c := by
  rw [written_letter, Text.escapeChar_of_not_active h]
  rfl

theorem ne_of_ordinary {c : Char} (h : Text.isActive c = false) : c ≠ '\\' ∧ c ≠ '\x7d' ∧ c ≠ '$' := by
  have hnot : ¬Text.isActive c = true := by simp [h]
  rw [Text.isActive_iff] at hnot
  refine ⟨?_, ?_, ?_⟩ <;> rintro rfl <;> simp at hnot

theorem mem_fixed_of_head? {sign : Sign}
    (h : sign.written.head? = some '\\' ∨ sign.written.head? = some '\x7d') : sign ∈ fixed := by
  rcases cases_written sign with hfixed | ⟨c, rfl, hc⟩ | ⟨text, rfl⟩
  · exact hfixed
  · obtain ⟨hslash, hbrace, -⟩ := ne_of_ordinary hc
    rw [head?_ordinary hc] at h
    rcases h with h | h
    · exact absurd (Option.some.inj h) hslash
    · exact absurd (Option.some.inj h) hbrace
  · simp [written_formula] at h

theorem exists_formula_of_head? {sign : Sign} (h : sign.written.head? = some '$') :
    ∃ text, sign = formula text := by
  rcases cases_written sign with hfixed | ⟨c, rfl, hc⟩ | hformula
  · rcases head?_fixed sign hfixed with hhead | hhead <;> simp [hhead] at h
  · rw [head?_ordinary hc] at h
    exact absurd (Option.some.inj h) (ne_of_ordinary hc).2.2
  · exact hformula

theorem exists_written_eq_cons (sign : Sign) : ∃ c cs, sign.written = c :: cs := by
  rcases cases_written sign with hfixed | ⟨c, rfl, hc⟩ | ⟨text, rfl⟩
  · rcases head?_fixed sign hfixed with hhead | hhead <;> exact ⟨_, List.head?_eq_some_iff.mp hhead⟩
  · exact ⟨c, List.head?_eq_some_iff.mp (head?_ordinary hc)⟩
  · exact ⟨'$', _, rfl⟩

theorem head?_of_append {a b : Sign} {xs ys : List Char} (h : a.written ++ xs = b.written ++ ys) :
    a.written.head? = b.written.head? := by
  obtain ⟨c, cs, ha⟩ := exists_written_eq_cons a
  obtain ⟨d, ds, hb⟩ := exists_written_eq_cons b
  rw [ha, hb, List.cons_append, List.cons_append] at h
  rw [ha, hb, List.head?_cons, List.head?_cons, (List.cons.inj h).1]

/-- The first sign of a text can be told from the text. -/
theorem written_append_inj {a b : Sign} (ha : a.Clear) (hb : b.Clear) {xs ys : List Char}
    (h : a.written ++ xs = b.written ++ ys) : a = b ∧ xs = ys := by
  have hhead := head?_of_append h
  rcases cases_written a with hfixed | ⟨c, rfl, hc⟩ | ⟨s, rfl⟩
  · have hfixed' : b ∈ fixed := mem_fixed_of_head? (hhead ▸ head?_fixed a hfixed)
    obtain rfl : a = b := by
      rcases List.prefix_or_prefix_of_prefix (List.prefix_append a.written xs)
        (h ▸ List.prefix_append b.written ys) with hpre | hpre
      · exact prefixFree_fixed a hfixed b hfixed' hpre
      · exact (prefixFree_fixed b hfixed' a hfixed hpre).symm
    exact ⟨rfl, List.append_cancel_left h⟩
  · obtain ⟨hslash, hbrace, hdollar⟩ := ne_of_ordinary hc
    rw [head?_ordinary hc] at hhead
    rcases cases_written b with hfixed | ⟨d, rfl, hd⟩ | ⟨t, rfl⟩
    · rcases head?_fixed b hfixed with hb | hb
      · exact absurd (Option.some.inj (hhead.trans hb)) hslash
      · exact absurd (Option.some.inj (hhead.trans hb)) hbrace
    · rw [head?_ordinary hd] at hhead
      obtain rfl := Option.some.inj hhead
      exact ⟨rfl, List.append_cancel_left h⟩
    · exact absurd (Option.some.inj hhead) hdollar
  · obtain ⟨t, rfl⟩ := exists_formula_of_head? hhead.symm
    have hinner : s.toList ++ '$' :: xs = t.toList ++ '$' :: ys := by
      simpa [written_formula] using h
    have hclear : ∀ {text : List Char}, '$' ∉ text → ∀ c ∈ text, (c == '$') = false := by
      intro text htext c hc
      exact beq_eq_false_iff_ne.mpr fun hdollar => htext (hdollar ▸ hc)
    obtain ⟨htext, -, rfl⟩ := Text.append_cons_inj (hclear ha) (hclear hb) rfl rfl hinner
    exact ⟨congrArg formula (String.toList_injective htext), rfl⟩

/-- A text is read as signs in one way. -/
theorem eq_of_flatMap_written {as bs : List Sign} (has : ∀ a ∈ as, a.Clear) (hbs : ∀ b ∈ bs, b.Clear)
    (h : as.flatMap written = bs.flatMap written) : as = bs := by
  induction as generalizing bs with
  | nil =>
    cases bs with
    | nil => rfl
    | cons b bs =>
      obtain ⟨c, cs, hb⟩ := exists_written_eq_cons b
      simp [hb] at h
  | cons a as ih =>
    cases bs with
    | nil =>
      obtain ⟨c, cs, ha⟩ := exists_written_eq_cons a
      simp [ha] at h
    | cons b bs =>
      rw [List.forall_mem_cons] at has hbs
      rw [List.flatMap_cons, List.flatMap_cons] at h
      obtain ⟨rfl, hrest⟩ := written_append_inj has.1 hbs.1 h
      rw [ih has.2 hbs.2 hrest]

end Sign

namespace Tree

/-- What may stand in a paragraph, down to plain runs and formulas. -/
inductive Inline : Tree → Prop
  | plain (text : String) : Inline (plain text)
  | inlineMath {text : String} (clear : '$' ∉ text.toList) : Inline (inlineMath text)
  | bold {content : Tree} (inner : Inline content) : Inline (bold content)
  | italic {content : Tree} (inner : Inline content) : Inline (italic content)

def signs : Tree → List Sign
  | plain text => text.toList.map .letter
  | inlineMath text => [.formula text]
  | bold content => .bold :: signs content ++ [.closing]
  | italic content => .italic :: signs content ++ [.closing]
  | _ => []

variable {o : Options} {s t : Tree} {ss ts : List Tree}

theorem Inline.ofNodes (h : t.Inline) : t.OfNodes := by
  induction h with
  | plain text => exact .plain text
  | inlineMath clear => exact .inlineMath _
  | bold inner ih => exact .bold ih
  | italic inner ih => exact .italic ih

theorem Inline.rowsCounted (h : t.Inline) : t.RowsCounted := by
  induction h with
  | plain text => exact rowsCounted_of_parts trivial (by simp [parts])
  | inlineMath clear => exact rowsCounted_of_parts trivial (by simp [parts])
  | bold inner ih => exact rowsCounted_of_parts trivial (by simpa [parts] using ih)
  | italic inner ih => exact rowsCounted_of_parts trivial (by simpa [parts] using ih)

theorem Inline.clear (h : t.Inline) : ∀ sign ∈ t.signs, sign.Clear := by
  induction h with
  | plain text => simp [signs, Sign.Clear]
  | inlineMath clear => simpa [signs, Sign.Clear] using clear
  | bold inner ih => simpa [signs, Sign.Clear, or_imp, forall_and] using ih
  | italic inner ih => simpa [signs, Sign.Clear, or_imp, forall_and] using ih

/-- Inline trees are written sign by sign. -/
theorem Inline.toList_text (h : t.Inline) (escaping : o.escapePlainText = true) :
    (t.text o).toList = t.signs.flatMap Sign.written := by
  induction h with
  | plain text => simp [Tree.text, signs, escaping, Text.escapeChars, List.flatMap_map, Sign.written_letter]
  | inlineMath clear => simp [text, signs, Sign.written_formula]
  | bold inner ih =>
    have hopening : "\\textbf\x7b".toList = Sign.bold.written := rfl
    have hclosing : "\x7d".toList = Sign.closing.written := rfl
    simp [text, signs, ih, hopening, hclosing]
  | italic inner ih =>
    have hopening : "\\textit\x7b".toList = Sign.italic.written := rfl
    have hclosing : "\x7d".toList = Sign.closing.written := rfl
    simp [text, signs, ih, hopening, hclosing]

/-- Paragraph content with adjacent plain runs made one, and without empty ones. -/
def merged : List Tree → List Tree
  | [] => []
  | plain text :: ts =>
    match merged ts with
    | plain next :: rest => plain (text ++ next) :: rest
    | rest => if text.isEmpty then rest else plain text :: rest
  | t :: ts => t :: merged ts

def IsRun : Tree → Prop
  | plain _ => True
  | _ => False

/-- Content in which no run is empty or follows another. -/
inductive Settled : List Tree → Prop
  | nil : Settled []
  | run {text : String} {ts : List Tree} (full : text.toList ≠ []) (apart : ∀ t ∈ ts.head?, ¬t.IsRun)
      (rest : Settled ts) : Settled (plain text :: ts)
  | other {t : Tree} {ts : List Tree} (other : ¬t.IsRun) (rest : Settled ts) : Settled (t :: ts)

theorem merged_run (text : String) (ts : List Tree) :
    (∃ next rest, merged ts = plain next :: rest ∧
      merged (plain text :: ts) = plain (text ++ next) :: rest) ∨
    ((∀ t ∈ (merged ts).head?, ¬t.IsRun) ∧
      merged (plain text :: ts) = if text.isEmpty then merged ts else plain text :: merged ts) := by
  rw [merged]
  split
  · rename_i next rest heq
    exact .inl ⟨next, rest, heq, rfl⟩
  · rename_i hnot
    refine .inr ⟨?_, rfl⟩
    intro t ht hrun
    cases t with
    | plain next =>
      obtain ⟨rest, hrest⟩ := List.head?_eq_some_iff.mp ht
      exact hnot next rest hrest
    | _ => exact hrun

theorem merged_other {t : Tree} (h : ¬t.IsRun) (ts : List Tree) : merged (t :: ts) = t :: merged ts := by
  cases t with
  | plain text => exact absurd trivial h
  | _ => rfl

theorem settled_merged (ts : List Tree) : Settled (merged ts) := by
  induction ts with
  | nil => exact .nil
  | cons t ts ih =>
    by_cases hrun : t.IsRun
    · cases t with
      | plain text =>
        rcases merged_run text ts with ⟨next, rest, hts, hmerged⟩ | ⟨hapart, hmerged⟩
        · rw [hmerged]
          rw [hts] at ih
          cases ih with
          | run full apart rest => exact .run (by simp [full]) apart rest
          | other other rest => exact absurd trivial other
        · rw [hmerged]
          split
          · exact ih
          · rename_i hfull
            exact .run (by simpa using hfull) hapart ih
      | _ => exact hrun.elim
    · rw [merged_other hrun]
      exact .other hrun ih

theorem inline_merged (h : ∀ t ∈ ts, t.Inline) : ∀ t ∈ merged ts, t.Inline := by
  induction ts with
  | nil => exact h
  | cons t ts ih =>
    rw [List.forall_mem_cons] at h
    have hts := ih h.2
    by_cases hrun : t.IsRun
    · cases t with
      | plain text =>
        rcases merged_run text ts with ⟨next, rest, heq, hmerged⟩ | ⟨-, hmerged⟩
        · rw [heq, List.forall_mem_cons] at hts
          rw [hmerged, List.forall_mem_cons]
          exact ⟨.plain _, hts.2⟩
        · rw [hmerged]
          split
          · exact hts
          · exact List.forall_mem_cons.mpr ⟨h.1, hts⟩
      | _ => exact hrun.elim
    · rw [merged_other hrun]
      exact List.forall_mem_cons.mpr ⟨h.1, hts⟩

/-- Merging runs changes no sign. -/
theorem flatMap_signs_merged (ts : List Tree) : (merged ts).flatMap signs = ts.flatMap signs := by
  induction ts with
  | nil => rfl
  | cons t ts ih =>
    by_cases hrun : t.IsRun
    · cases t with
      | plain text =>
        rcases merged_run text ts with ⟨next, rest, heq, hmerged⟩ | ⟨-, hmerged⟩
        · rw [heq] at ih
          rw [hmerged, List.flatMap_cons, List.flatMap_cons, ← ih, List.flatMap_cons]
          simp [signs]
        · rw [hmerged, List.flatMap_cons, ← ih]
          split
          · rename_i hempty
            simp [signs, String.isEmpty_iff.mp hempty]
          · rfl
      | _ => exact hrun.elim
    · rw [merged_other hrun, List.flatMap_cons, List.flatMap_cons, ih]

/-- A run in a bold or italic part is followed by the end of that part. -/
def Bounded : Tree → List Sign → Prop
  | plain _, rest => ∃ after, rest = .closing :: after
  | _, _ => True

theorem bounded_closing (t : Tree) (after : List Sign) : t.Bounded (.closing :: after) := by
  cases t with
  | plain text => exact ⟨after, rfl⟩
  | _ => trivial

end Tree

theorem Sign.letters_append_inj {s t : List Char} {xs ys : List Sign}
    (hxs : ∀ c rest, xs ≠ .letter c :: rest) (hys : ∀ c rest, ys ≠ .letter c :: rest)
    (h : s.map .letter ++ xs = t.map .letter ++ ys) : s = t ∧ xs = ys := by
  induction s generalizing t with
  | nil =>
    cases t with
    | nil => exact ⟨rfl, h⟩
    | cons d t => exact absurd h (hxs _ _)
  | cons c s ih =>
    cases t with
    | nil => exact absurd h.symm (hys _ _)
    | cons d t =>
      obtain ⟨hhead, hrest⟩ := List.cons.inj h
      obtain ⟨rfl, rfl⟩ := ih hrest
      exact ⟨congrArg (· :: s) (Sign.letter.inj hhead), rfl⟩

namespace Tree

variable {o : Options} {s t : Tree} {ss ts : List Tree}

theorem signs_run_ne {text : String} {sign : Sign} (hsign : ∀ c, sign ≠ .letter c) (hne : sign ≠ .closing)
    {xs ys : List Sign} (hbounded : (plain text).Bounded xs) : (plain text).signs ++ xs ≠ sign :: ys := by
  obtain ⟨after, rfl⟩ := hbounded
  intro h
  rw [signs] at h
  cases htext : text.toList with
  | nil =>
    rw [htext] at h
    exact hne (List.cons.inj h).1.symm
  | cons c cs =>
    rw [htext] at h
    exact hsign c (List.cons.inj h).1.symm

/-- The first tree of a series of signs can be told from the signs. -/
theorem signs_append_inj (hs : s.Inline) (ht : t.Inline) {xs ys : List Sign} (hxs : s.Bounded xs)
    (hys : t.Bounded ys) (h : s.signs ++ xs = t.signs ++ ys) : s = t ∧ xs = ys := by
  -- the content of a bold or italic part is followed by the end of the part
  induction hs generalizing t xs ys with
  | plain text =>
    cases ht with
    | plain other =>
      obtain ⟨after, rfl⟩ := hxs
      obtain ⟨after', rfl⟩ := hys
      obtain ⟨htext, hrest⟩ := Sign.letters_append_inj (by simp) (by simp) h
      exact ⟨congrArg Tree.plain (String.toList_injective htext), hrest⟩
    | inlineMath clear => exact absurd h (signs_run_ne (by simp) (by simp) hxs)
    | bold inner => exact absurd h (signs_run_ne (by simp) (by simp) hxs)
    | italic inner => exact absurd h (signs_run_ne (by simp) (by simp) hxs)
  | @inlineMath text clear =>
    cases ht with
    | plain other => exact absurd h.symm (signs_run_ne (by simp) (by simp) hys)
    | inlineMath clear' =>
      obtain ⟨hhead, hrest⟩ := List.cons.inj h
      exact ⟨congrArg Tree.inlineMath (Sign.formula.inj hhead), hrest⟩
    | bold inner => simp [signs] at h
    | italic inner => simp [signs] at h
  | bold inner ih =>
    cases ht with
    | plain other => exact absurd h.symm (signs_run_ne (by simp) (by simp) hys)
    | inlineMath clear => simp [signs] at h
    | bold inner' =>
      obtain ⟨rfl, hrest⟩ := ih inner' (bounded_closing _ _) (bounded_closing _ _) (by simpa [signs] using h)
      exact ⟨rfl, (List.cons.inj hrest).2⟩
    | italic inner' => simp [signs] at h
  | italic inner ih =>
    cases ht with
    | plain other => exact absurd h.symm (signs_run_ne (by simp) (by simp) hys)
    | inlineMath clear => simp [signs] at h
    | bold inner' => simp [signs] at h
    | italic inner' =>
      obtain ⟨rfl, hrest⟩ := ih inner' (bounded_closing _ _) (bounded_closing _ _) (by simpa [signs] using h)
      exact ⟨rfl, (List.cons.inj hrest).2⟩

theorem Inline.exists_sign (h : t.Inline) (hrun : ¬t.IsRun) :
    ∃ sign rest, t.signs = sign :: rest ∧ ∀ c, sign ≠ .letter c := by
  cases h with
  | plain text => exact absurd trivial hrun
  | inlineMath clear => exact ⟨_, [], rfl, by simp⟩
  | bold inner => exact ⟨.bold, _, rfl, by simp⟩
  | italic inner => exact ⟨.italic, _, rfl, by simp⟩

theorem flatMap_signs_ne_letter (apart : ∀ t ∈ ts.head?, ¬t.IsRun) (h : ∀ t ∈ ts, t.Inline) (c : Char)
    (rest : List Sign) : ts.flatMap signs ≠ .letter c :: rest := by
  cases ts with
  | nil => simp
  | cons t ts =>
    obtain ⟨sign, after, hsigns, hne⟩ := (h t List.mem_cons_self).exists_sign (apart t rfl)
    intro heq
    rw [List.flatMap_cons, hsigns] at heq
    exact hne c (List.cons.inj heq).1

theorem flatMap_signs_run {text : String} (full : text.toList ≠ []) (ts : List Tree) :
    ∃ c rest, (plain text :: ts).flatMap signs = .letter c :: rest := by
  obtain ⟨c, cs, htext⟩ := List.exists_cons_of_ne_nil full
  refine ⟨c, cs.map .letter ++ ts.flatMap signs, ?_⟩
  rw [List.flatMap_cons, signs, htext]
  rfl

theorem bounded_of_not_isRun (h : ¬t.IsRun) (xs : List Sign) : t.Bounded xs := by
  cases t with
  | plain text => exact absurd trivial h
  | _ => trivial

/-- Content without empty or adjacent runs can be told from its signs. -/
theorem Settled.eq_of_signs (hss : Settled ss) (hts : Settled ts) (hs : ∀ s ∈ ss, s.Inline)
    (ht : ∀ t ∈ ts, t.Inline) (h : ss.flatMap signs = ts.flatMap signs) : ss = ts := by
  induction hss generalizing ts with
  | nil =>
    cases hts with
    | nil => rfl
    | run full apart rest => simp [signs, full] at h
    | other other rest =>
      obtain ⟨sign, after, hsigns, -⟩ := (ht _ List.mem_cons_self).exists_sign other
      simp [hsigns] at h
  | @run text ss full apart rest ih =>
    rw [List.forall_mem_cons] at hs
    obtain ⟨c, cs, hfirst⟩ := flatMap_signs_run full ss
    cases hts with
    | nil => simp [signs, full] at h
    | run full' apart' rest' =>
      rw [List.forall_mem_cons] at ht
      obtain ⟨htext, hrest⟩ := Sign.letters_append_inj (flatMap_signs_ne_letter apart hs.2)
        (flatMap_signs_ne_letter apart' ht.2) h
      rw [String.toList_injective htext, ih rest' hs.2 ht.2 hrest]
    | other other rest' =>
      exact absurd (h.symm.trans hfirst) (flatMap_signs_ne_letter (by simpa using other) ht c cs)
  | @other s ss other rest ih =>
    cases hts with
    | nil =>
      obtain ⟨sign, after, hsigns, -⟩ := (hs s List.mem_cons_self).exists_sign other
      simp [hsigns] at h
    | run full' apart' rest' =>
      obtain ⟨c, cs, hfirst⟩ := flatMap_signs_run full' _
      exact absurd (h.trans hfirst) (flatMap_signs_ne_letter (by simpa using other) hs c cs)
    | other other' rest' =>
      rw [List.forall_mem_cons] at hs ht
      obtain ⟨rfl, hrest⟩ := signs_append_inj hs.1 ht.1 (bounded_of_not_isRun other _)
        (bounded_of_not_isRun other' _) h
      rw [ih rest' hs.2 ht.2 hrest]

theorem merged_eq_iff_signs (hs : ∀ s ∈ ss, s.Inline) (ht : ∀ t ∈ ts, t.Inline) :
    merged ss = merged ts ↔ ss.flatMap signs = ts.flatMap signs := by
  constructor
  · intro h
    rw [← flatMap_signs_merged ss, h, flatMap_signs_merged]
  · intro h
    rw [← flatMap_signs_merged ss, ← flatMap_signs_merged ts] at h
    exact (settled_merged ss).eq_of_signs (settled_merged ts) (inline_merged hs) (inline_merged ht) h

theorem toList_join_texts (escaping : o.escapePlainText = true) (h : ∀ t ∈ ts, t.Inline) :
    (String.join (texts o ts)).toList = (ts.flatMap signs).flatMap Sign.written := by
  induction ts with
  | nil => rfl
  | cons t ts ih =>
    rw [List.forall_mem_cons] at h
    rw [texts, String.join_cons, String.toList_append, h.1.toList_text escaping, ih h.2, List.flatMap_cons,
      List.flatMap_append]

theorem render_paragraph (h : ∀ t ∈ ts, t.Inline) (o : Options) :
    (paragraph .listed ts).render o = .ok (String.join (texts o ts) ++ "\n") := by
  have hnodes : (paragraph .listed ts).OfNodes := .paragraph fun t ht => (h t ht).ofNodes
  have hcounted : (paragraph .listed ts).RowsCounted :=
    rowsCounted_of_parts trivial fun t ht => (h t ht).rowsCounted
  exact render_counted hnodes hcounted o

/-- Paragraphs are rendered alike only if they differ in nothing but how their plain text is cut into runs.
No run is read as anything else than its own letters. -/
theorem render_paragraph_eq_iff (escaping : o.escapePlainText = true) (hs : ∀ s ∈ ss, s.Inline)
    (ht : ∀ t ∈ ts, t.Inline) :
    (∃ text, (paragraph .listed ss).render o = .ok text) ∧
    ((paragraph .listed ss).render o = (paragraph .listed ts).render o ↔ merged ss = merged ts) ∧
    ∀ (run : String) (read : List Sign), (∀ sign ∈ read, sign.Clear) →
      ((plain run).text o).toList = read.flatMap Sign.written → read = run.toList.map .letter := by
  have hclear : ∀ us : List Tree, (∀ u ∈ us, u.Inline) → ∀ sign ∈ us.flatMap signs, sign.Clear := by
    intro us hus sign hsign
    obtain ⟨u, hu, hin⟩ := List.mem_flatMap.mp hsign
    exact (hus u hu).clear sign hin
  refine ⟨⟨_, render_paragraph hs o⟩, ?_, ?_⟩
  · rw [render_paragraph hs, render_paragraph ht, merged_eq_iff_signs hs ht]
    constructor
    · intro h
      have htext : String.join (texts o ss) = String.join (texts o ts) :=
        (String.append_left_inj _).mp (Except.ok.inj h)
      have hlist := congrArg String.toList htext
      rw [toList_join_texts escaping hs, toList_join_texts escaping ht] at hlist
      exact Sign.eq_of_flatMap_written (hclear ss hs) (hclear ts ht) hlist
    · intro h
      have hlist : (String.join (texts o ss)).toList = (String.join (texts o ts)).toList := by
        rw [toList_join_texts escaping hs, toList_join_texts escaping ht, h]
      rw [String.toList_injective hlist]
  · intro run read hread h
    rw [(Inline.plain run).toList_text escaping] at h
    exact (Sign.eq_of_flatMap_written (Inline.plain run).clear hread h).symm

theorem render_paragraph_eq_iff_forged :
    let o : Options := ⟨"utf-8", true, .text "section"⟩
    let ss := [plain "a", plain "", bold (inlineMath "x\x7d"), plain "\\textbf\x7b", plain "b\x7d"]
    let ts := [plain "a", bold (inlineMath "x\x7d"), plain "\\textbf\x7bb", plain "\x7d"]
    o.escapePlainText = true ∧ (∀ s ∈ ss, s.Inline) ∧ (∀ t ∈ ts, t.Inline) ∧
      (paragraph .listed ss).render o = (paragraph .listed ts).render o ∧
      (paragraph .listed [plain "\\textbf\x7bb\x7d"]).render o ≠
        (paragraph .listed [bold (plain "b")]).render o := by
  intro o ss ts
  have hmath : (bold (inlineMath "x\x7d")).Inline := .bold (.inlineMath (by decide))
  have hs : ∀ s ∈ ss, s.Inline := by simp [ss, Inline.plain, hmath]
  have ht : ∀ t ∈ ts, t.Inline := by simp [ts, Inline.plain, hmath]
  obtain ⟨-, hsame, -⟩ := render_paragraph_eq_iff (o := o) rfl hs ht
  obtain ⟨-, hforged, -⟩ := render_paragraph_eq_iff (o := o) rfl
    (List.forall_mem_singleton.mpr (.plain "\\textbf\x7bb\x7d"))
    (List.forall_mem_singleton.mpr (.bold (.plain "b")))
  exact ⟨rfl, hs, ht, hsame.mpr rfl, fun h => by simpa [merged] using hforged.mp h⟩

end Tree

end Manuscript
