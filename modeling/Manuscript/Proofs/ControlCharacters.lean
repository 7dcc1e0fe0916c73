import Manuscript.Options
import Manuscript.Text.Escape
/-!
# Control characters

Commands and their arguments are told by three control characters. Whatever is accepted as the command of
headings, a text, a document class or bytes, is printed as a word without them.
-/
namespace Manuscript

namespace Text

/-- The characters that a command begins with and that an argument stands between. -/
def isControl (c : Char) : Bool := c == '\\' || c == '\x7b' || c == '\x7d'

/-- Text without control characters. -/
def Clean (cs : List Char) : Prop := ∀ c ∈ cs, isControl c = false

instance (cs : List Char) : Decidable (Clean cs) :=
  decidable_of_iff (cs.all fun c => !isControl c) (by simp [Clean])

theorem clean_cons {c : Char} {cs : List Char} : Clean (c :: cs) ↔ isControl c = false ∧ Clean cs :=
  List.forall_mem_cons

theorem Clean.not_mem {cs : List Char} (h : Clean cs) : '\\' ∉ cs := fun hmem =>
  absurd (h _ hmem) (by decide)

theorem isControl_iff (c : Char) : isControl c = true ↔ c = '\\' ∨ c = '\x7b' ∨ c = '\x7d' := by
  simp [isControl, or_assoc]

/-- Where the first character of a class stands can be told from a text. -/
theorem append_cons_inj {p : Char → Bool} {s t xs ys : List Char} {c d : Char}
    (hs : ∀ c ∈ s, p c = false) (ht : ∀ c ∈ t, p c = false) (hc : p c = true) (hd : p d = true)
    (h : s ++ c :: xs = t ++ d :: ys) : s = t ∧ c = d ∧ xs = ys := by
  have houtside : ∀ {u : List Char}, (∀ c ∈ u, p c = false) → ∀ c ∈ u, (!p c) = true := by
    intro u hu c hc
    simp [hu c hc]
  have htaken := congrArg (List.takeWhile fun c => !p c) h
  have hst : s = t := by
    rw [List.takeWhile_append_of_pos (houtside hs), List.takeWhile_append_of_pos (houtside ht),
      List.takeWhile_cons_of_neg (by simp [hc]), List.takeWhile_cons_of_neg (by simp [hd])] at htaken
    simpa using htaken
  subst hst
  exact ⟨rfl, List.cons.inj (List.append_cancel_left h)⟩

theorem isControl_of_isLetter {c : Char} (h : isLetter c = true) : isControl c = false := by
  have hslash : isLetter '\\' = false := by decide +kernel
  have hopening : isLetter '\x7b' = false := by decide +kernel
  have hclosing : isLetter '\x7d' = false := by decide +kernel
  rw [← Bool.not_eq_true, isControl_iff]
  rintro (rfl | rfl | rfl) <;> simp_all

theorem isControl_of_isAlpha {c : Char} (h : c.isAlpha = true) : isControl c = false := by
  rw [← Bool.not_eq_true, isControl_iff]
  rintro (rfl | rfl | rfl) <;> exact absurd h (by decide)

theorem isControl_of_not_active {c : Char} (h : isActive c = false) : isControl c = false := by
  rw [← Bool.not_eq_true, isControl_iff]
  rintro (rfl | rfl | rfl) <;> cases h

theorem quoteFor_cases (cs : List Char) : quoteFor cs = '"' ∨ quoteFor cs = '\'' := by
  rw [quoteFor]
  split
  · exact .inl rfl
  · exact .inr rfl

/-- Letters of ASCII stand in quoted bytes as themselves. -/
theorem quotedForm_of_isAlpha {c quote : Char} (h : c.isAlpha = true) (hquote : quote.isAlpha = false) :
    quotedForm quote (fun c => 0x20 ≤ c.toNat && c.toNat < 0x7f) c = [c] := by
  have hne : ∀ d : Char, d.isAlpha = false → c ≠ d := by
    rintro d hd rfl
    rw [h] at hd
    cases hd
  have hprintable : (0x20 ≤ c.toNat && c.toNat < 0x7f) = true := by
    have hrange : (65 ≤ c.toNat ∧ c.toNat ≤ 90) ∨ (97 ≤ c.toNat ∧ c.toNat ≤ 122) := by
      have hcases : (decide (c.val ≥ 65 ∧ c.val ≤ 90) ||
          decide (c.val ≥ 97) && decide (c.val ≤ 122)) = true := h
      simpa [UInt32.le_iff_toNat_le] using hcases
    simp
    omega
  simp [quotedForm, hprintable, hne quote hquote, hne '\\' rfl, hne '\n' rfl, hne '\r' rfl, hne '\t' rfl]

theorem clean_quotedBytes {bytes : List UInt8} (h : ∀ b ∈ bytes, (Char.ofNat b.toNat).isAlpha = true) :
    Clean (quotedBytes bytes).toList := by
  let cs := bytes.map fun b => Char.ofNat b.toNat
  have hcs : ∀ c ∈ cs, c.isAlpha = true := List.forall_mem_map.mpr h
  have hquote : (quoteFor cs).isAlpha = false ∧ isControl (quoteFor cs) = false := by
    rcases quoteFor_cases cs with hq | hq <;> rw [hq] <;> exact ⟨rfl, rfl⟩
  have hforms : cs.flatMap (quotedForm (quoteFor cs) fun c => 0x20 ≤ c.toNat && c.toNat < 0x7f) = cs := by
    have hmap := List.map_congr_left fun c hc => quotedForm_of_isAlpha (hcs c hc) hquote.1
    rw [List.flatMap_def, hmap, ← List.flatMap_def, List.flatMap_singleton']
  have hall : (quotedBytes bytes).toList = 'b' :: quoteFor cs :: (cs ++ [quoteFor cs]) := by
    rw [quotedBytes, quotedChars, String.toList_ofList, hforms]
    rfl
  intro c hc
  rw [hall] at hc
  simp only [List.mem_cons, List.mem_append, List.not_mem_nil, or_false] at hc
  rcases hc with rfl | rfl | hc | rfl
  · rfl
  · exact hquote.2
  · exact isControl_of_isAlpha (hcs c hc)
  · exact hquote.2

end Text

/-- A word without control characters. -/
def ControlWord (s : String) : Prop := s.toList ≠ [] ∧ Text.Clean s.toList

instance (s : String) : Decidable (ControlWord s) := inferInstanceAs (Decidable (_ ∧ Text.Clean _))

namespace Options

/-- Options that can be made: those that pass the check of some values for their fields. -/
def Made (o : Options) : Prop :=
  ∃ encoding escapePlainText sectionCommand, checked encoding escapePlainText sectionCommand = .ok o

theorem isCommandName_iff (name : String) :
    isCommandName name = true ↔ name ≠ "" ∧ ∀ c ∈ name.toList, Text.isLetter c = true := by
  simp [isCommandName]

theorem controlWord_of_isCommandName {s : String} (h : isCommandName s = true) : ControlWord s := by
  obtain ⟨hne, hletters⟩ := (isCommandName_iff s).mp h
  exact ⟨by simpa using hne, fun c hc => Text.isControl_of_isLetter (hletters c hc)⟩

theorem controlWord_fullName (m : Member) : ControlWord m.fullName := by
  cases m <;> rename_i x <;> cases x <;> decide

/-- What is accepted is a text of letters, a document class, or bytes that are letters of ASCII. -/
theorem checkedCommand_cases {value : Datum} {a : Atom} (h : checkedCommand value = .ok a) :
    (∃ s, a = .text s ∧ isCommandName s = true) ∨ (∃ m, a = .member m) ∨
      ∃ bytes, a = .bytes bytes ∧ bytes.all isLetterByte = true := by
  unfold checkedCommand at h
  split at h
  · cases h
  · split at h
    · split at h
      · rename_i hbytes
        cases h
        exact .inr (.inr ⟨_, rfl, hbytes⟩)
      · cases h
    · rename_i x hx
      split at h
      · rename_i s hs
        split at h
        · rename_i hname
          cases h
          cases a with
          | text t =>
            obtain rfl : t = s := Option.some.inj hs
            exact .inl ⟨t, rfl, hname⟩
          | member m => exact .inr (.inl ⟨m, rfl⟩)
          | _ => cases hs
        · cases h
      · cases h
    · cases h

theorem controlWord_of_checkedCommand {value : Datum} {a : Atom} (h : checkedCommand value = .ok a) :
    ControlWord a.printed := by
  rcases checkedCommand_cases h with ⟨s, rfl, hs⟩ | ⟨m, rfl⟩ | ⟨bytes, rfl, hbytes⟩
  · exact controlWord_of_isCommandName hs
  · exact controlWord_fullName m
  · refine ⟨by simp [Atom.printed, Text.quotedBytes], Text.clean_quotedBytes fun b hb => ?_⟩
    have hletter := List.all_eq_true.mp hbytes b hb
    rw [isLetterByte, Bool.and_eq_true] at hletter
    exact hletter.1

/-- Options that pass the check are of values that pass it one by one. -/
theorem checked_eq_ok {encoding escapePlainText command : Datum} {o : Options}
    (h : checked encoding escapePlainText command = .ok o) : checkedEncoding encoding = .ok o.encodingName ∧
      o.escapePlainText = escapePlainText.isTrue ∧ checkedCommand command = .ok o.sectionCommand := by
  rw [checked] at h
  cases hencoding : checkedEncoding encoding with
  | error f => simp [hencoding] at h
  | ok name =>
    cases hcommand : checkedCommand command with
    | error f => simp [hencoding, hcommand, Except.map] at h
    | ok a =>
      obtain rfl : (⟨name, escapePlainText.isTrue, a⟩ : Options) = o := by
        simpa [hencoding, hcommand, Except.map] using h
      exact ⟨rfl, rfl, rfl⟩

theorem Made.controlWord {o : Options} (h : o.Made) : ControlWord o.sectionCommand.printed := by
  obtain ⟨encoding, escapePlainText, sectionCommand, hchecked⟩ := h
  obtain ⟨-, -, hcommand⟩ := checked_eq_ok hchecked
  exact controlWord_of_checkedCommand hcommand

theorem made_escaping : Made ⟨"utf-8", true, .text "section"⟩ := by
  have hchecked : checked (.atom (.text "utf-8")) (.atom (.bool true)) (.atom (.text "section")) =
      .ok ⟨"utf-8", true, .text "section"⟩ := rfl
  exact ⟨_, _, _, hchecked⟩

end Options

end Manuscript
