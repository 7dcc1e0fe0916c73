import Manuscript.Text.Escape
import Mathlib.Data.List.TakeWhile
/-!
# Escaped text as tokens

LaTeX takes a text apart into tokens: a backslash makes a control word with the letters that follow it, a control
symbol with any other character, and all else is taken character by character. Escaped text comes apart into what
prints each character, whatever follows it, and into nothing else.
-/
namespace Manuscript.Text

/-- A backslash at the end of a text is `unfinished`. -/
inductive Token
  | character (c : Char)
  | symbol (c : Char)
  | word (name : String)
  | unfinished
  deriving DecidableEq, Repr

/-- The characters that a token is taken from. -/
def Token.written : Token → List Char
  | character c => [c]
  | symbol c => ['\\', c]
  | word name => '\\' :: name.toList
  | unfinished => ['\\']

/-- The tokens of a text. A control word takes all letters of ASCII that follow. -/
def tokens : List Char → List Token
  | [] => []
  | ['\\'] => [.unfinished]
  | '\\' :: c :: cs =>
    if c.isAlpha then
      .word (String.ofList (c :: cs.takeWhile Char.isAlpha)) :: tokens (cs.dropWhile Char.isAlpha)
    else .symbol c :: tokens cs
  | c :: cs => .character c :: tokens cs
  termination_by cs => cs.length
  decreasing_by
  · have := cs.length_dropWhile_le Char.isAlpha
    simp only [List.length_cons]
    omega
  · simp only [List.length_cons]
    omega
  · exact Nat.lt_succ_self _

/-- The control words that print a character. An empty group behind them keeps letters off. -/
def wordForms : List (String × Char) :=
  [("textbackslash", '\\'), ("textasciitilde", '~'), ("textasciicircum", '^')]

/-- The characters that are printed by control symbols of their own. -/
def symbolForms : List Char := ['\x7b', '\x7d', '$', '%', '&', '#', '_']

/-- The tokens that print a character. -/
def printing (c : Char) : List Token :=
  match wordForms.find? (·.2 == c) with
  | some form => [.word form.1, .character '\x7b', .character '\x7d']
  | none => if c ∈ symbolForms then [.symbol c] else [.character c]

/-- The text that tokens print, if there are none among them but those that print a character. -/
def printed? : List Token → Option (List Char)
  | [] => some []
  | .word name :: .character '\x7b' :: .character '\x7d' :: ts =>
    match wordForms.lookup name with
    | some c => (printed? ts).map (c :: ·)
    | none => none
  | .symbol c :: ts => if c ∈ symbolForms then (printed? ts).map (c :: ·) else none
  | .character c :: ts => if isActive c then none else (printed? ts).map (c :: ·)
  | _ => none

/-- The active characters among tokens, but not those of an empty group behind a control word. -/
def acting : List Token → List Char
  | [] => []
  | .word _ :: .character '\x7b' :: .character '\x7d' :: ts => acting ts
  | .character c :: ts => if isActive c then c :: acting ts else acting ts
  | _ :: ts => acting ts

@[simp] theorem tokens_nil : tokens [] = [] := by rw [tokens]

theorem tokens_character {c : Char} (h : c ≠ '\\') (cs : List Char) :
    tokens (c :: cs) = .character c :: tokens cs := by
  rw [tokens.eq_def]
  split <;> simp_all

theorem tokens_symbol {c : Char} (h : c.isAlpha = false) (cs : List Char) :
    tokens ('\\' :: c :: cs) = .symbol c :: tokens cs := by
  rw [tokens]
  simp only [h, Bool.false_eq_true, if_false]

/-- A control word ends where the letters do. -/
theorem tokens_word {name : String} {rest : List Char} (letters : name.toList.all Char.isAlpha = true)
    (full : name.toList ≠ []) (stop : ∀ c ∈ rest.head?, c.isAlpha = false) :
    tokens ('\\' :: (name.toList ++ rest)) = .word name :: tokens rest := by
  have hstop : rest.takeWhile Char.isAlpha = [] ∧ rest.dropWhile Char.isAlpha = rest := by
    cases rest with
    | nil => exact ⟨rfl, rfl⟩
    | cons c cs =>
      have hc : c.isAlpha = false := stop c rfl
      simp [hc]
  rw [List.all_eq_true] at letters
  cases hname : name.toList with
  | nil => exact absurd hname full
  | cons d ds =>
    rw [hname, List.forall_mem_cons] at letters
    have htaken : (ds ++ rest).takeWhile Char.isAlpha = ds := by
      rw [List.takeWhile_append_of_pos letters.2, hstop.1, List.append_nil]
    have hleft : (ds ++ rest).dropWhile Char.isAlpha = rest := by
      rw [List.dropWhile_append_of_pos letters.2, hstop.2]
    have hword : String.ofList (d :: ds) = name := by
      rw [← hname, String.ofList_toList]
    rw [List.cons_append, tokens]
    simp only [letters.1, if_true, htaken, hleft, hword]

/-- Nothing of a text is lost in its tokens. -/
theorem written_tokens (cs : List Char) : (tokens cs).flatMap Token.written = cs := by
  fun_induction tokens cs with
  | case1 => rfl
  | case2 => rfl
  | case3 c cs hc ih => simp [Token.written, ih, List.takeWhile_append_dropWhile]
  | case4 c cs hc ih => simp [Token.written, ih]
  | case5 c cs _ _ ih => simp [Token.written, ih]

/-- A control word is made of letters and prints a character that is written with it. -/
theorem wordForms_spec : ∀ form ∈ wordForms, form.1.toList.all Char.isAlpha = true ∧ form.1.toList ≠ [] ∧
    wordForms.lookup form.1 = some form.2 ∧
    printing form.2 = [.word form.1, .character '\x7b', .character '\x7d'] ∧
    escapeChar form.2 = '\\' :: (form.1.toList ++ ['\x7b', '\x7d']) := by
  decide

theorem symbolForms_spec : ∀ c ∈ symbolForms, c.isAlpha = false ∧ printing c = [.symbol c] ∧
    escapeChar c = ['\\', c] := by
  intro c hc
  simp only [symbolForms, List.mem_cons, List.not_mem_nil, or_false] at hc
  rcases hc with rfl | rfl | rfl | rfl | rfl | rfl | rfl <;> decide

theorem printing_of_not_active {c : Char} (h : isActive c = false) : printing c = [.character c] := by
  have hescape : escapeChar c = [c] := escapeChar_of_not_active h
  have hword : wordForms.find? (·.2 == c) = none := by
    rw [List.find?_eq_none]
    intro form hform heq
    obtain rfl : form.2 = c := by simpa using heq
    obtain ⟨-, -, -, -, hform⟩ := wordForms_spec form hform
    simp [hescape] at hform
  have hsymbol : c ∉ symbolForms := by
    intro hmem
    obtain ⟨-, -, hsymbol⟩ := symbolForms_spec c hmem
    simp [hescape] at hsymbol
  rw [printing, hword]
  exact if_neg hsymbol

/-- A character is printed by a control word, by a control symbol, or by itself if it is not active. -/
theorem char_cases (c : Char) : (∃ name, (name, c) ∈ wordForms) ∨ c ∈ symbolForms ∨ isActive c = false := by
  cases hc : isActive c with
  | true =>
    rw [isActive_iff] at hc
    simp only [List.mem_cons, List.not_mem_nil, or_false] at hc
    rcases hc with rfl | rfl | rfl | rfl | rfl | rfl | rfl | rfl | rfl | rfl <;> simp [wordForms, symbolForms]
  | false => exact .inr (.inr rfl)

/-- What a character is written as comes apart into what prints it, whatever follows. -/
theorem tokens_escapeChar (c : Char) (rest : List Char) :
    tokens (escapeChar c ++ rest) = printing c ++ tokens rest := by
  rcases char_cases c with ⟨name, hname⟩ | hsymbol | hordinary
  · obtain ⟨letters, full, -, hprinting, hescape⟩ := wordForms_spec _ hname
    have hstop : ∀ d ∈ (['\x7b', '\x7d'] ++ rest).head?, d.isAlpha = false := by
      intro d hd
      obtain rfl : '\x7b' = d := Option.some.inj hd
      decide
    rw [hescape, hprinting, List.cons_append, List.append_assoc, tokens_word letters full hstop, List.cons_append,
      tokens_character (by decide), List.cons_append, tokens_character (by decide)]
    rfl
  · obtain ⟨hletter, hprinting, hescape⟩ := symbolForms_spec c hsymbol
    rw [hescape, hprinting]
    exact tokens_symbol hletter rest
  · have hslash : c ≠ '\\' := by
      rintro rfl
      cases hordinary
    rw [escapeChar_of_not_active hordinary, printing_of_not_active hordinary]
    exact tokens_character hslash rest

theorem tokens_escapeChars (cs rest : List Char) :
    tokens (escapeChars cs ++ rest) = cs.flatMap printing ++ tokens rest := by
  induction cs with
  | nil => rfl
  | cons c cs ih =>
    rw [escapeChars_cons, List.append_assoc, tokens_escapeChar, ih, List.flatMap_cons, List.append_assoc]

theorem printed?_printing (c : Char) (ts : List Token) :
    printed? (printing c ++ ts) = (printed? ts).map (c :: ·) := by
  rcases char_cases c with ⟨name, hname⟩ | hsymbol | hordinary
  · obtain ⟨-, -, hlookup, hprinting, -⟩ := wordForms_spec _ hname
    rw [hprinting]
    simp only [List.cons_append, List.nil_append, printed?, hlookup]
  · rw [(symbolForms_spec c hsymbol).2.1]
    simp only [List.cons_append, List.nil_append, printed?, if_pos hsymbol]
  · rw [printing_of_not_active hordinary]
    simp [printed?, hordinary]

theorem printed?_flatMap_printing (cs : List Char) : printed? (cs.flatMap printing) = some cs := by
  induction cs with
  | nil => rfl
  | cons c cs ih =>
    rw [List.flatMap_cons, printed?_printing, ih]
    rfl

theorem eq_of_printed? {ts : List Token} {cs : List Char} (h : printed? ts = some cs) :
    ts = cs.flatMap printing := by
  fun_induction printed? ts generalizing cs with
  | case1 =>
    obtain rfl := Option.some.inj h
    rfl
  | case2 name ts c hlookup ih =>
    obtain ⟨ds, hds, rfl⟩ := Option.map_eq_some_iff.mp h
    have hname : (name, c) ∈ wordForms := by
      obtain ⟨before, after, heq, -⟩ := List.lookup_eq_some_iff.mp hlookup
      simp [heq]
    rw [ih hds, List.flatMap_cons, (wordForms_spec _ hname).2.2.2.1]
    rfl
  | case3 => cases h
  | case4 c ts hsymbol ih =>
    obtain ⟨ds, hds, rfl⟩ := Option.map_eq_some_iff.mp h
    rw [ih hds, List.flatMap_cons, (symbolForms_spec c hsymbol).2.1]
    rfl
  | case5 => cases h
  | case6 => cases h
  | case7 c ts hordinary ih =>
    obtain ⟨ds, hds, rfl⟩ := Option.map_eq_some_iff.mp h
    rw [ih hds, List.flatMap_cons, printing_of_not_active (by simpa using hordinary)]
    rfl
  | case8 => cases h

theorem acting_printing (c : Char) (ts : List Token) : acting (printing c ++ ts) = acting ts := by
  rcases char_cases c with ⟨name, hname⟩ | hsymbol | hordinary
  · rw [(wordForms_spec _ hname).2.2.2.1]
    rfl
  · rw [(symbolForms_spec c hsymbol).2.1]
    rfl
  · rw [printing_of_not_active hordinary]
    simp [acting, hordinary]

theorem acting_flatMap_printing (cs : List Char) : acting (cs.flatMap printing) = [] := by
  induction cs with
  | nil => rfl
  | cons c cs ih => rw [List.flatMap_cons, acting_printing, ih]

theorem written_printing (c : Char) : (printing c).flatMap Token.written = escapeChar c := by
  rcases char_cases c with ⟨name, hname⟩ | hsymbol | hordinary
  · obtain ⟨-, -, -, hprinting, hescape⟩ := wordForms_spec _ hname
    rw [hprinting, hescape]
    simp [Token.written]
  · obtain ⟨-, hprinting, hescape⟩ := symbolForms_spec c hsymbol
    rw [hprinting, hescape]
    rfl
  · rw [printing_of_not_active hordinary, escapeChar_of_not_active hordinary]
    rfl

theorem unfinished_notMem_printing (c : Char) : .unfinished ∉ printing c := by
  rcases char_cases c with ⟨name, hname⟩ | hsymbol | hordinary
  · simp [(wordForms_spec _ hname).2.2.2.1]
  · simp [(symbolForms_spec c hsymbol).2.1]
  · simp [printing_of_not_active hordinary]

/-- Escaped text is what LaTeX reads back as the text. Its tokens are those that print its characters one after the
other, whatever follows; none of them is unfinished, and no active character acts. They print the text, and no other
text has tokens that do. So escaping loses nothing, and texts are escaped part by part. -/
theorem tokens_escape (t : String) :
    (∀ rest, tokens ((escape t).toList ++ rest) = t.toList.flatMap printing ++ tokens rest) ∧
      printed? (tokens (escape t).toList) = some t.toList ∧
      (∀ s : String, printed? (tokens s.toList) = some t.toList ↔ s = escape t) ∧
      .unfinished ∉ tokens (escape t).toList ∧ acting (tokens (escape t).toList) = [] ∧
      (∀ s, escape s = escape t ↔ s = t) ∧ ∀ s, escape (t ++ s) = escape t ++ escape s := by
  have hfollowed (s : String) (rest : List Char) :
      tokens ((escape s).toList ++ rest) = s.toList.flatMap printing ++ tokens rest := by
    rw [toList_escape, tokens_escapeChars]
  have htokens (s : String) : tokens (escape s).toList = s.toList.flatMap printing := by
    simpa using hfollowed s []
  have hprinted (s : String) : printed? (tokens (escape s).toList) = some s.toList := by
    rw [htokens, printed?_flatMap_printing]
  refine ⟨hfollowed t, hprinted t, fun s => ⟨fun h => ?_, fun h => h ▸ hprinted t⟩, ?_, ?_,
    fun s => ⟨fun h => ?_, congrArg escape⟩, escape_append t⟩
  · apply String.toList_injective
    calc s.toList = (tokens s.toList).flatMap Token.written := (written_tokens s.toList).symm
      _ = (t.toList.flatMap printing).flatMap Token.written := by rw [eq_of_printed? h]
      _ = t.toList.flatMap escapeChar := by simp only [List.flatMap_assoc, written_printing]
      _ = (escape t).toList := (toList_escape t).symm
  · rw [htokens, List.mem_flatMap]
    rintro ⟨c, -, hc⟩
    exact unfinished_notMem_printing c hc
  · rw [htokens, acting_flatMap_printing]
  · apply String.toList_injective
    apply Option.some.inj
    rw [← hprinted s, ← hprinted t, h]

/-- The letters behind an escaped backslash are no part of its control word. -/
example : tokens (escape "\\x").toList =
    [.word "textbackslash", .character '\x7b', .character '\x7d', .character 'x'] := by
  cbv

end Manuscript.Text
