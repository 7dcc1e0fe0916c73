import Manuscript.Delivery
import Manuscript.Proofs.ControlCharacters
import Manuscript.Proofs.Growing
import Manuscript.Proofs.Reaching
/-!
# Checking options

What passes the checks of options, and what the outcome of settling options means for a rendering call: it is refused
before it does anything, or does what a renderer with the settled options does.
-/
namespace Manuscript

/-- The faults of values that are of a right type but cannot be used. -/
def Fault.isValueFault : Fault → Bool
  | .notMember _ _ | .unknownEncoding _ | .badSectionCommand _ | .closed _ | .nullCharacter | .nullByte => true
  | _ => false

/-- No codec has a name with a null character. -/
theorem Codec.isKnown_of_null {name : String} (h : '\x00' ∈ name.toList) : isKnown name = false := by
  rw [isKnown, ofName?, if_pos (List.contains_iff_mem.mpr h)]
  rfl

namespace Options

/-- Options that can be used: the encoding is a known one, and the heading command a word of letters. -/
structure Usable (o : Options) : Prop where
  known : Codec.isKnown o.encodingName = true
  named : ∃ name, o.sectionCommand = .text name ∧ name ≠ "" ∧ ∀ c ∈ name.toList, Text.isLetter c = true

theorem usable_standard : standard.Usable where
  known := by decide +kernel
  named := ⟨"section", rfl, (isCommandName_iff "section").mp (by decide +kernel)⟩

theorem checkedEncoding_text (name : String) :
    Codec.isKnown name = true ∧ checkedEncoding (.text name) = .ok name ∨
      Codec.isKnown name = false ∧ ∃ f, checkedEncoding (.text name) = .error f ∧ f.isValueFault = true := by
  have hchecked : checkedEncoding (.text name) =
      if name.toList.contains '\x00' then .error .nullCharacter
      else if Codec.isKnown name then .ok name
      else .error (.unknownEncoding (Datum.text name).literal) := rfl
  rw [hchecked]
  by_cases hnull : '\x00' ∈ name.toList
  · exact .inr ⟨Codec.isKnown_of_null hnull, .nullCharacter, by simp [hnull], rfl⟩
  · cases hknown : Codec.isKnown name with
    | true => exact .inl ⟨rfl, by simp [hnull]⟩
    | false => exact .inr ⟨rfl, .unknownEncoding (Datum.text name).literal, by simp [hnull], rfl⟩

theorem checkedCommand_text (name : String) :
    isCommandName name = true ∧ checkedCommand (.text name) = .ok (.text name) ∨
      isCommandName name = false ∧
        ∃ f, checkedCommand (.text name) = .error f ∧ f.isValueFault = true := by
  have hchecked : checkedCommand (.text name) =
      if !(!name.isEmpty) then .error (.badSectionCommand (Datum.text name).literal)
      else if isCommandName name then .ok (.text name)
      else .error (.badSectionCommand (Datum.text name).literal) := rfl
  rw [hchecked]
  cases hname : isCommandName name with
  | true =>
    have hne : name ≠ "" := ((isCommandName_iff name).mp hname).1
    exact .inl ⟨rfl, by simp [hne]⟩
  | false => exact .inr ⟨rfl, .badSectionCommand (Datum.text name).literal, by simp, rfl⟩

/-- Values of the right types pass the check if and only if options of them can be used. -/
theorem checked_texts (encoding : String) (escapePlainText : Bool) (command : String) :
    let o : Options := ⟨encoding, escapePlainText, .text command⟩
    let result := checked (.text encoding) (.atom (.bool escapePlainText)) (.text command)
    o.Usable ∧ result = .ok o ∨ ¬o.Usable ∧ ∃ f, result = .error f ∧ f.isValueFault = true := by
  intro o result
  simp only [result, checked]
  rcases checkedEncoding_text encoding with ⟨hknown, hencoding⟩ | ⟨hunknown, f, hencoding, hf⟩
  · rw [hencoding]
    rcases checkedCommand_text command with ⟨hname, hcommand⟩ | ⟨hname, f, hcommand, hf⟩
    · rw [hcommand]
      exact .inl ⟨⟨hknown, command, rfl, (isCommandName_iff command).mp hname⟩, rfl⟩
    · rw [hcommand]
      refine .inr ⟨fun h => ?_, f, rfl, hf⟩
      obtain ⟨name, hsame, hletters⟩ := h.named
      obtain rfl : command = name := by simpa [o] using hsame
      simp [(isCommandName_iff command).mpr hletters] at hname
  · rw [hencoding]
    exact .inr ⟨fun h => Bool.false_ne_true (hunknown.symm.trans h.known), f, rfl, hf⟩

/-- The fault of a check is the one of the encoding or the one of the heading command. -/
theorem checked_eq_error {encoding escapePlainText command : Datum} {f : Fault}
    (h : checked encoding escapePlainText command = .error f) :
    checkedEncoding encoding = .error f ∨ checkedCommand command = .error f := by
  rw [checked] at h
  cases hencoding : checkedEncoding encoding with
  | error e =>
    rw [hencoding] at h
    exact .inl (congrArg _ (Except.error.inj h))
  | ok name =>
    cases hcommand : checkedCommand command with
    | error e =>
      rw [hencoding, hcommand] at h
      exact .inr (congrArg _ (Except.error.inj h))
    | ok a =>
      rw [hencoding, hcommand] at h
      cases h

/-- Of all that counts as text only a text itself names an encoding. -/
theorem checkedEncoding_eq_ok_iff {value : Datum} {name : String} :
    checkedEncoding value = .ok name ↔ value = .text name ∧ Codec.isKnown name = true := by
  have hstandard (c : StandardClass) : Codec.isKnown c.name = false := by cases c <;> decide +kernel
  constructor
  · intro h
    unfold checkedEncoding at h
    split at h
    · rename_i found hfound
      split_ifs at h with hnull hknown
      obtain rfl := Except.ok.inj h
      refine ⟨?_, hknown⟩
      cases value with
      | atom a =>
        cases a with
        | text text => exact congrArg Datum.text (Option.some.inj hfound)
        | member m =>
          cases m with
          | documentClass c =>
            obtain rfl : c.name = found := Option.some.inj hfound
            simp [hstandard] at hknown
          | _ => cases hfound
        | _ => cases hfound
      | _ => cases hfound
    · cases h
  · rintro ⟨rfl, hknown⟩
    rcases checkedEncoding_text name with ⟨-, h⟩ | ⟨hunknown, -⟩
    · exact h
    · rw [hknown] at hunknown
      cases hunknown

theorem checkedCommand_eq_ok {value : Datum} {a : Atom} (h : checkedCommand value = .ok a) :
    value = .atom a ∧ a.isTrue = true := by
  unfold checkedCommand at h
  split_ifs at h with htrue
  split at h
  · split_ifs at h
    obtain rfl := Except.ok.inj h
    exact ⟨rfl, by simpa [Datum.isTrue] using htrue⟩
  · split at h
    · split_ifs at h
      obtain rfl := Except.ok.inj h
      exact ⟨rfl, by simpa [Datum.isTrue] using htrue⟩
    · cases h
  · cases h

end Options

/-- Usable options pass the check once more if nothing is put over them. -/
theorem Overrides.applied_of_isEmpty {overrides : Overrides} {o : Options} (h : overrides.isEmpty = true)
    (ho : o.Usable) : overrides.applied o = .ok o := by
  obtain ⟨name, hname, -⟩ := ho.named
  obtain ⟨encoding, escapePlainText, command⟩ := o
  obtain rfl : command = .text name := hname
  obtain ⟨⟨hencoding, hescape⟩, hcommand⟩ : (overrides.encoding = none ∧ overrides.escapePlainText = none) ∧
      overrides.sectionCommand = none := by simpa [isEmpty] using h
  rw [applied, hencoding, hescape, hcommand]
  rcases Options.checked_texts encoding escapePlainText name with ⟨-, hchecked⟩ | ⟨hnot, -⟩
  · exact hchecked
  · exact absurd ho hnot

/-- Whether a cell counts as true: only empty sequences and dictionaries do not. -/
def Cell.isFilled : Cell → Bool
  | .sequence _ items => !items.isEmpty
  | .dict entries => !entries.isEmpty
  | _ => true

namespace Store

variable {s : Store} {v : Value} {r : Ref}

theorem datum_atom (s : Store) (a : Atom) : s.datum (.atom a) = .atom a := Carried.datumTo_atom s s.depth a

/-- Only an atom itself stands for an atom that is anything at all. -/
theorem eq_atom_of_datum {a : Atom} (h : s.datum v = .atom a) (ha : a ≠ .none) : v = .atom a := by
  cases v with
  | atom b =>
    rw [datum_atom] at h
    exact congrArg Value.atom (Datum.atom.inj h)
  | ref r =>
    refine absurd ?_ ha
    rw [datum] at h
    cases hdepth : s.depth with
    | zero =>
      rw [hdepth] at h
      exact (Datum.atom.inj h).symm
    | succ depth =>
      rw [hdepth, datumTo] at h
      split at h <;> cases h
      rfl

theorem isTrue_ref {c : Cell} (hcell : s.cell? r = some c) : s.isTrue (.ref r) = c.isFilled := by
  obtain ⟨depth, hdepth⟩ := Nat.exists_eq_add_one_of_ne_zero (Nat.ne_zero_of_lt (index_lt hcell))
  rw [isTrue, datum, Store.depth, hdepth, datumTo, hcell]
  cases c <;> simp [Datum.isTrue, Cell.isFilled]

end Store

namespace Given

variable {g : Given} {overrides : Overrides} {o : Options} {f : Fault}

/-- A rendering call does all that a renderer with some options does, and answers as it does. -/
structure RendersAs [Codecs] (g : Given) (overrides : Overrides) (o : Options) : Prop where
  text (t : Tree) (notes : List Note) : publishString g overrides t notes =
    { renderString o t with notes := notes ++ (renderString o t).notes }
  answer (t : Tree) (fs : Files) : publish g overrides t none fs =
    ⟨none, fs, .noDestination :: (renderString o t).notes, (renderString o t).taken,
      (renderString o t).result.map some⟩
  delivery (t : Tree) (d : Destination) (fs : Files) : publish g overrides t (some d) fs =
    ⟨some (deliver o t d fs).destination, (deliver o t d fs).files, (deliver o t d fs).outcome.map fun _ => none⟩

/-- A rendering call ends in a fault before it does anything: its destination and all files are as they were. -/
structure Refused [Codecs] (g : Given) (overrides : Overrides) (f : Fault) : Prop where
  text (t : Tree) (notes : List Note) : publishString g overrides t notes = ⟨[], [], .error f⟩
  call (t : Tree) (d : Option Destination) (fs : Files) : publish g overrides t d fs = ⟨d, fs, [], [], .error f⟩

theorem rendersAs_of_resolved [Codecs] (h : g.resolved overrides = .ok o) : g.RendersAs overrides o where
  text _ _ := by simp only [publishString, h]
  answer _ _ := by simp only [publish, h]
  delivery _ _ _ := by simp only [publish, h]

theorem refused_of_resolved [Codecs] (h : g.resolved overrides = .error f) : g.Refused overrides f where
  text _ _ := by simp only [publishString, h]
  call _ _ _ := by simp only [publish, h]

theorem refused_iff [Codecs] : g.Refused overrides f ↔ g.resolved overrides = .error f := by
  constructor
  · intro h
    cases hresolved : g.resolved overrides with
    | error e =>
      have htext := h.text (.plain "") []
      simp only [publishString, hresolved] at htext
      exact congrArg Except.error (Except.error.inj (Outcome.mk.inj htext).2.2)
    | ok o =>
      -- A call that has begun leaves its own notes, and one that was refused leaves none.
      have htext := h.text (.plain "") [.noDestination]
      simp only [publishString, hresolved] at htext
      simpa using (Outcome.mk.inj htext).1
  · exact refused_of_resolved

end Given

end Manuscript
