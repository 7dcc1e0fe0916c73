/-!
# Escaping plain text

Ten characters are active in LaTeX body text. `escape` writes each of them in a form that prints the
character, in one pass, so the braces of a written form are never escaped again. Escaping works
character by character: it commutes with concatenation.
-/
namespace Manuscript.Text

/-- The ten active characters with the form that prints each of them. -/
def activeForms : List (Char × String) :=
  [('\\', "\\textbackslash\x7b\x7d"), ('\x7b', "\\\x7b"), ('\x7d', "\\\x7d"), ('$', "\\$"),
    ('%', "\\%"), ('&', "\\&"), ('#', "\\#"), ('_', "\\_"), ('~', "\\textasciitilde\x7b\x7d"),
    ('^', "\\textasciicircum\x7b\x7d")]

def isActive (c : Char) : Bool := activeForms.any (c == ·.1)

/-- The written form of one character: the character itself unless it is active. -/
def escapeChar (c : Char) : List Char :=
  match activeForms.lookup c with
  | some form => form.toList
  | none => [c]

def escapeChars (cs : List Char) : List Char := cs.flatMap escapeChar

def escape (text : String) : String := String.ofList (escapeChars text.toList)

@[simp] theorem escapeChars_cons (c : Char) (cs : List Char) :
    escapeChars (c :: cs) = escapeChar c ++ escapeChars cs := rfl

@[simp] theorem escapeChars_append (xs ys : List Char) :
    escapeChars (xs ++ ys) = escapeChars xs ++ escapeChars ys := by
  simp [escapeChars]

@[simp] theorem toList_escape (text : String) : (escape text).toList = escapeChars text.toList := by
  simp [escape]

@[simp] theorem escape_append (s t : String) : escape (s ++ t) = escape s ++ escape t := by
  apply String.toList_injective
  simp

theorem isActive_iff (c : Char) :
    isActive c = true ↔
      c ∈ ['\\', '\x7b', '\x7d', '$', '%', '&', '#', '_', '~', '^'] := by
  simp [isActive, activeForms]

/-- A character that is not active is written as itself. -/
theorem escapeChar_of_not_active {c : Char} (h : isActive c = false) : escapeChar c = [c] := by
  have : activeForms.lookup c = none := by
    rw [List.lookup_eq_none_iff]
    intro p hp
    have := List.any_eq_false.mp h p hp
    simpa using this
  simp [escapeChar, this]

theorem exists_form_of_active {c : Char} (h : isActive c = true) : ∃ form ∈ activeForms, c = form.1 := by
  simpa [isActive] using h

/-- What holds of all written forms, and is kept when texts are put together, holds of escaped text. -/
theorem escapeChars_induction {P : List Char → Prop} (nil : P [])
    (append : ∀ xs ys, P xs → P ys → P (xs ++ ys)) (active : ∀ form ∈ activeForms, P (escapeChar form.1))
    (ordinary : ∀ c, isActive c = false → P [c]) (cs : List Char) : P (escapeChars cs) := by
  induction cs with
  | nil => exact nil
  | cons c cs ih =>
    refine append _ _ ?_ ih
    cases hc : isActive c with
    | true =>
      obtain ⟨form, hform, rfl⟩ := exists_form_of_active hc
      exact active form hform
    | false =>
      rw [escapeChar_of_not_active hc]
      exact ordinary c hc

end Manuscript.Text
