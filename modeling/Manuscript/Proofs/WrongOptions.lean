import Manuscript.Proofs.OptionChecks
/-!
# Options of another class

A rendering call looks at the class of its options only after it has put its overrides over them. With overrides it
refuses most options of another class for other reasons, and works with the standard ones in the place of some.
-/
namespace Manuscript

namespace Options

variable {renderer expected received : String}

/-- A value is never refused as an encoding for the class of options. -/
theorem checkedEncoding_ne_wrongOptions (value : Datum) :
    checkedEncoding value ≠ .error (.wrongOptions renderer expected received) := by
  intro h
  unfold checkedEncoding at h
  split at h
  · split_ifs at h <;> cases h
  · cases h

theorem checkedCommand_ne_wrongOptions (value : Datum) :
    checkedCommand value ≠ .error (.wrongOptions renderer expected received) := by
  intro h
  unfold checkedCommand at h
  split_ifs at h
  · cases h
  · split at h
    · split_ifs at h
      cases h
    · split at h
      · split_ifs at h
        cases h
      · cases h
    · cases h

theorem checked_ne_wrongOptions (encoding escapePlainText command : Datum) :
    checked encoding escapePlainText command ≠ .error (.wrongOptions renderer expected received) := by
  intro h
  rcases checked_eq_error h with hencoding | hcommand
  · exact checkedEncoding_ne_wrongOptions encoding hencoding
  · exact checkedCommand_ne_wrongOptions command hcommand

end Options

/-- Overrides that can be put over general options: those for a known encoding alone. -/
structure Overrides.General (overrides : Overrides) : Prop where
  escapePlainText : overrides.escapePlainText = none
  sectionCommand : overrides.sectionCommand = none
  encoding : ∀ d, overrides.encoding = some d → ∃ name, d = .text name ∧ Codec.isKnown name = true

namespace Given

variable {overrides : Overrides} {renderer expected received : String}

/-- Overrides make general options of general ones, or end in a fault that does not tell of a class. -/
theorem generalOverridden_cases (encodingName : String) (hfilled : overrides.isEmpty = false) :
    (overrides.General ∧ ∃ name, generalOverridden encodingName overrides = .ok (general name)) ∨
      ¬overrides.General ∧ ∃ f, generalOverridden encodingName overrides = .error f ∧
        f ≠ .wrongOptions renderer expected received := by
  cases hescape : overrides.escapePlainText with
  | some d =>
    refine .inr ⟨fun h => ?_, .unknownField "BaseRendererOptions" "escape_plain_text", ?_, by simp⟩
    · cases hescape.symm.trans h.escapePlainText
    · simp [generalOverridden, hescape]
  | none =>
    cases hcommand : overrides.sectionCommand with
    | some d =>
      refine .inr ⟨fun h => ?_, .unknownField "BaseRendererOptions" "section_command", ?_, by simp⟩
      · cases hcommand.symm.trans h.sectionCommand
      · simp [generalOverridden, hescape, hcommand]
    | none =>
      obtain ⟨d, hd⟩ : ∃ d, overrides.encoding = some d := by
        simpa [Overrides.isEmpty, hescape, hcommand, Option.isSome_iff_exists] using hfilled
      have hgeneral : generalOverridden encodingName overrides = (Options.checkedEncoding d).map general := by
        simp [generalOverridden, hescape, hcommand, hd]
      rw [hgeneral]
      cases hencoding : Options.checkedEncoding d with
      | error f =>
        refine .inr ⟨fun h => ?_, f, rfl, ?_⟩
        · obtain ⟨name, hname⟩ := h.encoding d hd
          cases hencoding.symm.trans (Options.checkedEncoding_eq_ok_iff.mpr hname)
        · rintro rfl
          exact Options.checkedEncoding_ne_wrongOptions d hencoding
      | ok name =>
        refine .inl ⟨⟨hescape, hcommand, fun e he => ?_⟩, name, rfl⟩
        obtain rfl := Option.some.inj (hd.symm.trans he)
        exact ⟨name, Options.checkedEncoding_eq_ok_iff.mp hencoding⟩

/-- What is no options at all gives way to the standard ones if it counts as false, and else cannot be updated. -/
theorem resolved_other (value : Datum) (hfilled : overrides.isEmpty = false) : (other value).resolved overrides =
    if value.isTrue then .error (notUpdated value) else overrides.applied .standard := by
  cases htrue : value.isTrue with
  | true => simp [resolved, overridden, hfilled, htrue]
  | false =>
    cases happlied : overrides.applied .standard <;>
      simp [resolved, overridden, hfilled, htrue, happlied, Except.map, accepted]

theorem notUpdated_ne_wrongOptions (value : Datum) : notUpdated value ≠ .wrongOptions renderer expected received := by
  unfold notUpdated
  split
  · split_ifs <;> nofun
  · nofun

/-- With overrides, general options are refused for their class if and only if the overrides can be put over them, and
for some reason in any case. -/
theorem refused_general [Codecs] (encodingName : String) (hfilled : overrides.isEmpty = false) :
    ((general encodingName).Refused overrides
        (.wrongOptions "latex" "LatexRendererOptions" "BaseRendererOptions") ↔ overrides.General) ∧
      ∃ f, (general encodingName).Refused overrides f := by
  have hoverridden : (general encodingName).overridden overrides = generalOverridden encodingName overrides := by
    simp [overridden, hfilled]
  rcases generalOverridden_cases encodingName hfilled with ⟨hgeneral, name, hok⟩ | ⟨hnot, f, hf, hne⟩
  · have hrefused : (general encodingName).Refused overrides
        (.wrongOptions "latex" "LatexRendererOptions" "BaseRendererOptions") :=
      refused_of_resolved (by simp only [resolved, hoverridden, hok, accepted, typeName])
    exact ⟨⟨fun _ => hgeneral, fun _ => hrefused⟩, _, hrefused⟩
  · have hresolved : (general encodingName).resolved overrides = .error f := by
      simp only [resolved, hoverridden, hf]
    refine ⟨⟨fun hrefused => ?_, fun hgeneral => absurd hgeneral hnot⟩, f, refused_of_resolved hresolved⟩
    exact absurd (Except.error.inj (hresolved.symm.trans (refused_iff.mp hrefused))) hne

/-- With overrides, what is no options at all is never refused for its class. -/
theorem refused_other [Codecs] (value : Datum) (hfilled : overrides.isEmpty = false) :
    ¬(other value).Refused overrides (.wrongOptions renderer expected received) ∧
      (value.isTrue = true → (other value).Refused overrides (notUpdated value)) ∧
      (value.isTrue = false →
        (∀ f, overrides.applied .standard = .error f → (other value).Refused overrides f) ∧
        ∀ o, overrides.applied .standard = .ok o → (other value).RendersAs overrides o) := by
  have hresolved := resolved_other value hfilled
  refine ⟨fun hrefused => ?_, fun htrue => ?_, fun hfalse => ?_⟩
  · have hwrong := hresolved.symm.trans (refused_iff.mp hrefused)
    split_ifs at hwrong
    · exact notUpdated_ne_wrongOptions value (Except.error.inj hwrong)
    · exact Options.checked_ne_wrongOptions _ _ _ hwrong
  · rw [if_pos htrue] at hresolved
    exact refused_of_resolved hresolved
  · rw [if_neg (Bool.eq_false_iff.mp hfalse)] at hresolved
    exact ⟨fun f hf => refused_of_resolved (hresolved.trans hf), fun o ho => rendersAs_of_resolved (hresolved.trans ho)⟩

end Given

namespace Store

variable {s : Store} {v : Value}

theorem typeName_datum (s : Store) (v : Value) : (s.datum v).typeName = s.typeName v := by
  cases v with
  | atom a => rw [datum_atom]; rfl
  | ref r =>
    cases hcell : s.cell? r with
    | none =>
      rw [datum]
      cases s.depth <;> simp [datumTo, typeName, hcell, Datum.typeName, Datum.none, Atom.typeName]
    | some c =>
      obtain ⟨depth, hdepth⟩ := Nat.exists_eq_add_one_of_ne_zero (Nat.ne_zero_of_lt (index_lt hcell))
      rw [datum, Store.depth, hdepth, datumTo, typeName, hcell]
      cases c <;> rfl

/-- Options of another class are general ones, or no options at all. -/
theorem given_cases (hv : v ≠ .none) (hkind : s.kind? v ≠ some .latexOptions) :
    s.kind? v = some .baseOptions ∧ s.isTrue v = true ∧ s.typeName v = "BaseRendererOptions" ∧
        (∃ name, s.given v = .general name) ∨
      s.kind? v ≠ some .baseOptions ∧ s.given v = .other (s.datum v) := by
  by_cases hbase : s.kind? v = some .baseOptions
  · obtain ⟨r, fields, rfl, hcell⟩ := kind?_eq_some.mp hbase
    have htarget : s.target? (.ref r) = some (.object .baseOptions fields) := hcell
    have htype : s.typeName (.ref r) = "BaseRendererOptions" := by
      rw [typeName, hcell]
      rfl
    have hgiven : s.given (.ref r) = .general (s.printed ((s.field? (.ref r) "encoding").getD .none)) := by
      simp [given, kind?, htarget]
    exact .inl ⟨hbase, isTrue_ref hcell, htype, _, hgiven⟩
  · refine .inr ⟨hbase, ?_⟩
    cases v with
    | atom a =>
      cases a with
      | none => exact absurd rfl hv
      | _ => rfl
    | ref r =>
      unfold given
      cases hfound : s.kind? (.ref r) with
      | none => rfl
      | some kind =>
        cases kind with
        | latexOptions => exact absurd hfound hkind
        | baseOptions => exact absurd hfound hbase
        | _ => rfl

/-- Without overrides the class of the options is all that a rendering call looks at. -/
theorem refused_of_isEmpty [Codecs] (hv : v ≠ .none) (hkind : s.kind? v ≠ some .latexOptions) {overrides : Overrides}
    (hempty : overrides.isEmpty = true) :
    (s.given v).Refused overrides (.wrongOptions "latex" "LatexRendererOptions" (s.typeName v)) := by
  refine Given.refused_of_resolved ?_
  rw [Given.resolved, Given.overridden.eq_def, if_pos hempty]
  rcases given_cases hv hkind with ⟨-, -, htype, name, hgiven⟩ | ⟨-, hgiven⟩
  · simp only [hgiven, Given.accepted, Given.typeName, htype]
  · simp only [hgiven, Given.accepted, Given.typeName, typeName_datum]

/-- Options of another class are refused for that if there are no overrides, or if they are general ones and the
overrides can be put over them, and at no other time. If they count as true, they are refused for some reason, and
what is no options at all is refused for its lack of updates. If they count as false, the call puts any overrides over
the standard options and renders with these. -/
theorem wrong_options [Codecs] (hv : v ≠ .none) (hkind : s.kind? v ≠ some .latexOptions) (overrides : Overrides) :
    let wrong := Fault.wrongOptions "latex" "LatexRendererOptions" (s.typeName v)
    ((s.given v).Refused overrides wrong ↔
      overrides.isEmpty = true ∨ s.kind? v = some .baseOptions ∧ overrides.General) ∧
    (s.isTrue v = true → ∃ f, (s.given v).Refused overrides f ∧
      (s.kind? v = some .baseOptions ∨ overrides.isEmpty = true ∨ f = Given.notUpdated (s.datum v))) ∧
    (s.isTrue v = false → overrides.isEmpty = false →
      (∀ f, overrides.applied .standard = .error f → (s.given v).Refused overrides f) ∧
      ∀ o, overrides.applied .standard = .ok o → (s.given v).RendersAs overrides o) := by
  intro wrong
  cases hfilled : overrides.isEmpty with
  | true =>
    have hrefused : (s.given v).Refused overrides wrong := refused_of_isEmpty hv hkind hfilled
    exact ⟨⟨fun _ => .inl rfl, fun _ => hrefused⟩, fun _ => ⟨wrong, hrefused, .inr (.inl rfl)⟩, nofun⟩
  | false =>
    rcases given_cases hv hkind with ⟨hbase, htrue, htype, name, hgiven⟩ | ⟨hbase, hgiven⟩
    · obtain ⟨hwrong, f, hf⟩ := Given.refused_general name hfilled
      rw [hgiven, htrue]
      refine ⟨?_, fun _ => ⟨f, hf, .inl hbase⟩, nofun⟩
      simpa [wrong, htype, hbase] using hwrong
    · obtain ⟨hwrong, hupdated, hrenders⟩ := Given.refused_other (s.datum v) hfilled
      rw [hgiven]
      refine ⟨⟨fun h => absurd h hwrong, ?_⟩, fun htrue => ⟨_, hupdated htrue, .inr (.inr rfl)⟩,
        fun hfalse _ => hrenders hfalse⟩
      rintro (hempty | ⟨hgeneral, -⟩)
      · cases hempty
      · exact absurd hgeneral hbase

/-- General options, for ASCII. -/
def asciiOptions : Store := ⟨#[.object .baseOptions [("encoding", .text "ascii")]], 0⟩

/-- General options are refused for their class with an encoding put over them, but not with a field that they do not
have. Five is refused for its lack of updates, and zero is not refused at all. -/
theorem wrong_options_general :
    let v : Value := .ref ⟨0⟩
    let wrong := Fault.wrongOptions "latex" "LatexRendererOptions" "BaseRendererOptions"
    let escaping := asciiOptions.overrides [("escape_plain_text", .bool true)]
    (asciiOptions.given v).Refused (asciiOptions.overrides [("encoding", .text "latin-1")]) wrong ∧
      (¬(asciiOptions.given v).Refused escaping wrong ∧ ∃ f, (asciiOptions.given v).Refused escaping f) ∧
      (asciiOptions.given (.int 5)).Refused escaping (.noAttribute (.value "int") "create_updated") ∧
      (asciiOptions.given (.int 0)).RendersAs escaping ⟨"utf-8", true, .text "section"⟩ := by
  intro v wrong escaping
  have hv : v ≠ .none := nofun
  have hkind : asciiOptions.kind? v ≠ some .latexOptions := by decide
  have hfive : Value.int 5 ≠ .none := nofun
  have hzero : Value.int 0 ≠ .none := nofun
  have hnumber (i : Int) : asciiOptions.kind? (.int i) ≠ some .latexOptions := nofun
  refine ⟨?_, ⟨fun hrefused => ?_, ?_⟩, ?_, ?_⟩
  · have hgeneral : (asciiOptions.overrides [("encoding", .text "latin-1")]).General :=
      ⟨rfl, rfl, fun d hd => ⟨"latin-1", (Option.some.inj hd).symm, by decide +kernel⟩⟩
    exact (wrong_options hv hkind _).1.mpr (.inr ⟨rfl, hgeneral⟩)
  · rcases (wrong_options hv hkind escaping).1.mp hrefused with hempty | ⟨-, hgeneral⟩
    · cases hempty
    · cases hgeneral.escapePlainText
  · obtain ⟨f, hf, -⟩ := (wrong_options hv hkind escaping).2.1 rfl
    exact ⟨f, hf⟩
  · obtain ⟨f, hf, hbase | hempty | rfl⟩ := (wrong_options hfive (hnumber 5) escaping).2.1 rfl
    · cases hbase
    · cases hempty
    · exact hf
  · obtain ⟨-, hrenders⟩ := (wrong_options hzero (hnumber 0) escaping).2.2 rfl rfl
    exact hrenders _ (by decide +kernel)

/-- With an override a document comes out although zero is given as options, and five is refused, but not for its
class. -/
theorem wrong_options_zero :
    let t : Tree := .document (.standard .article) (.preamble none none .listed []) .listed []
    let overrides := Store.empty.overrides [("escape_plain_text", .bool true)]
    let wrong := Fault.wrongOptions "latex" "LatexRendererOptions" "int"
    (Value.int 0 ≠ .none ∧ Store.empty.kind? (.int 0) ≠ some .latexOptions ∧ Store.empty.typeName (.int 0) = "int") ∧
      (publishString (Store.empty.given (.int 0)) overrides t []).result =
        .ok "\\documentclass\x7barticle\x7d\n\\begin\x7bdocument\x7d\n\\end\x7bdocument\x7d\n" ∧
      ¬(Store.empty.given (.int 0)).Refused overrides wrong ∧
      (Value.int 5 ≠ .none ∧ Store.empty.kind? (.int 5) ≠ some .latexOptions ∧ Store.empty.typeName (.int 5) = "int") ∧
      (publishString (Store.empty.given (.int 5)) overrides t []).result =
        .error (.noAttribute (.value "int") "create_updated") ∧
      ¬(Store.empty.given (.int 5)).Refused overrides wrong := by
  intro t overrides wrong
  have hzero : (publishString (Store.empty.given (.int 0)) overrides t []).result =
      .ok "\\documentclass\x7barticle\x7d\n\\begin\x7bdocument\x7d\n\\end\x7bdocument\x7d\n" := by rfl
  have hfive : (publishString (Store.empty.given (.int 5)) overrides t []).result =
      .error (.noAttribute (.value "int") "create_updated") := rfl
  refine ⟨⟨nofun, nofun, rfl⟩, hzero, fun hrefused => ?_, ⟨nofun, nofun, rfl⟩, hfive, fun hrefused => ?_⟩
  · rw [hrefused.text] at hzero
    cases hzero
  · rw [hrefused.text] at hfive
    simp [wrong] at hfive

end Store

end Manuscript
