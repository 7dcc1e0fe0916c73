import Manuscript.Proofs.OptionChecks
/-!
# Chains of options

Options are made from the standard ones or from others, with new values for some fields. A rendering call puts its
overrides over its options in the same way before it renders, so it comes out as a renderer with updated options does.
-/
namespace Manuscript

/-- The fields of an object that holds options. -/
def Options.fields (o : Options) : List (String × Value) :=
  [("encoding", .text o.encodingName), ("escape_plain_text", .bool o.escapePlainText),
    ("section_command", .atom o.sectionCommand)]

/-- New values for some of the fields of options, as values of a store. -/
structure Keywords where
  encoding : Option Value
  escapePlainText : Option Value
  sectionCommand : Option Value

namespace Keywords

/-- The values by the names of their fields, as calls are given them. -/
def entries (k : Keywords) : List (String × Value) :=
  (k.encoding.map fun v => ("encoding", v)).toList ++
    ((k.escapePlainText.map fun v => ("escape_plain_text", v)).toList ++
      (k.sectionCommand.map fun v => ("section_command", v)).toList)

/-- The fields of options with the new values in place of the old ones. -/
def fieldsOver (k : Keywords) (o : Options) : List (String × Value) :=
  [("encoding", k.encoding.getD (.text o.encodingName)),
    ("escape_plain_text", k.escapePlainText.getD (.bool o.escapePlainText)),
    ("section_command", k.sectionCommand.getD (.atom o.sectionCommand))]

theorem lookup_entries (k : Keywords) : k.entries.lookup "encoding" = k.encoding ∧
    k.entries.lookup "escape_plain_text" = k.escapePlainText ∧
      k.entries.lookup "section_command" = k.sectionCommand := by
  rcases k with ⟨_ | _, _ | _, _ | _⟩ <;> exact ⟨rfl, rfl, rfl⟩

theorem find?_entries (k : Keywords) :
    (k.entries.find? fun e => !Kind.latexOptions.fields.contains e.1) = none := by
  rcases k with ⟨_ | _, _ | _, _ | _⟩ <;> rfl

/-- What is checked when overrides are put over options are the fields that the new options would have. -/
theorem applied_overrides (k : Keywords) (s : Store) (o : Options) :
    (s.overrides k.entries).applied o =
      Options.checked (s.datum (k.encoding.getD (.text o.encodingName)))
        (s.datum (k.escapePlainText.getD (.bool o.escapePlainText)))
        (s.datum (k.sectionCommand.getD (.atom o.sectionCommand))) := by
  obtain ⟨hencoding, hescape, hcommand⟩ := k.lookup_entries
  have hgetD (v : Option Value) (a : Atom) :
      (v.map s.datum).getD (.atom a) = s.datum (v.getD (.atom a)) := by
    cases v <;> simp [Store.datum_atom]
  rw [Overrides.applied, Store.overrides]
  simp only [hencoding, hescape, hcommand, hgetD]
  rfl

end Keywords

namespace Store

variable {s : Store} {v : Value} {r : Ref} {o : Options} {k : Keywords}

/-- A value refers to an object that holds options. -/
def OptionsAt (s : Store) (v : Value) (o : Options) : Prop :=
  ∃ r, v = .ref r ∧ s.cell? r = some (.object .latexOptions o.fields)

/-- Options can be made from others, and from nothing at all, which stands for the standard ones. -/
def Origin (s : Store) (v : Value) (o : Options) : Prop := v = .none ∧ o = .standard ∨ s.OptionsAt v o

/-- A value is an atom, or refers to a cell of the store. -/
def Has (s : Store) (v : Value) : Prop := ∀ r, v = .ref r → ∃ c, s.cell? r = some c

theorem given_object (hcell : s.cell? r = some (.object .latexOptions (k.fieldsOver o))) :
    s.given (.ref r) = .options ⟨s.printed (k.encoding.getD (.text o.encodingName)),
      s.isTrue (k.escapePlainText.getD (.bool o.escapePlainText)),
      match k.sectionCommand.getD (.atom o.sectionCommand) with
      | .atom a => a
      | other => .text (s.printed other)⟩ := by
  have htarget : s.target? (.ref r) = some (.object .latexOptions (k.fieldsOver o)) := hcell
  simp only [given, kind?, field?, htarget]
  rfl

theorem OptionsAt.given (h : s.OptionsAt v o) : s.given v = .options o := by
  obtain ⟨r, rfl, hcell⟩ := h
  rw [given_object (k := ⟨none, none, none⟩) hcell]
  simp only [Option.getD_none, printed, isTrue, Value.text, Value.bool, datum_atom]
  rfl

theorem isTrue_alloc (hv : s.Has v) (c : Cell) : (s.alloc c).1.isTrue v = s.isTrue v := by
  cases v with
  | atom a => simp only [isTrue, datum_atom]
  | ref r =>
    obtain ⟨d, hcell⟩ := hv r rfl
    rw [isTrue_ref hcell, isTrue_ref (cell?_alloc_of_some hcell c)]

/-- New options are read as what passed the check when they were made. -/
theorem given_made (hk : s.Has (k.escapePlainText.getD (.bool o.escapePlainText))) {new : Options}
    (hchecked : (s.overrides k.entries).applied o = .ok new) :
    (s.alloc (.object .latexOptions (k.fieldsOver o))).1.given (.ref ⟨s.cells.size⟩) = .options new := by
  rw [k.applied_overrides] at hchecked
  obtain ⟨hencoding, hescape, hcommand⟩ := Options.checked_eq_ok hchecked
  have hname : k.encoding.getD (.text o.encodingName) = .text new.encodingName :=
    eq_atom_of_datum (Options.checkedEncoding_eq_ok_iff.mp hencoding).1 (by simp)
  have hword : k.sectionCommand.getD (.atom o.sectionCommand) = .atom new.sectionCommand := by
    obtain ⟨hdatum, htrue⟩ := Options.checkedCommand_eq_ok hcommand
    exact eq_atom_of_datum hdatum fun hnone => by simp [hnone, Atom.isTrue] at htrue
  rw [given_object (cell?_alloc_new s _), isTrue_alloc hk, hname, hword, isTrue, ← hescape]
  simp only [printed, Value.text, datum_atom]
  rfl

end Store

namespace Change

/-- Makes options from the standard ones, which nothing at all stands for, or from other options. -/
def optionsFrom (v : Value) (keywords : List (String × Value)) : Change Value :=
  if v = .none then instantiate .latexOptions keywords else call v (.createUpdated keywords)

theorem withStandardFields_options (k : Keywords) :
    withStandardFields .latexOptions k.entries Kind.latexOptions.fields = pure (k.fieldsOver .standard) := by
  rcases k with ⟨_ | _, _ | _, _ | _⟩ <;> rfl

theorem runOn_checkOptions (s : Store) (field : String → Value) (notes : List Note) :
    (checkOptions .latexOptions field).runOn ⟨s, notes⟩ =
      ((Options.checked (s.datum (field "encoding")) (s.datum (field "escape_plain_text"))
        (s.datum (field "section_command"))).map fun _ => (), ⟨s, notes⟩) := by
  rw [checkOptions, runOn_bind_of_ok (runOn_look _ _)]
  dsimp only [id]
  rw [runOn_bind, runOn_settle]
  cases Options.checked (s.datum (field "encoding")) (s.datum (field "escape_plain_text"))
    (s.datum (field "section_command")) <;> rfl

/-- What comes of options with new values for some fields: the fault of putting these over the old options, or a new
object. -/
def optionsMade (s : Store) (k : Keywords) (o : Options) (notes : List Note) : Except Fault Value × Draft :=
  match (s.overrides k.entries).applied o with
  | .error f => (.error f, ⟨s, notes⟩)
  | .ok _ => (.ok (.ref ⟨s.cells.size⟩), ⟨(s.alloc (.object .latexOptions (k.fieldsOver o))).1, notes⟩)

theorem optionsMade_of_ok {s : Store} {k : Keywords} {o new : Options}
    (h : (s.overrides k.entries).applied o = .ok new) (notes : List Note) : optionsMade s k o notes =
      (.ok (.ref ⟨s.cells.size⟩), ⟨(s.alloc (.object .latexOptions (k.fieldsOver o))).1, notes⟩) := by
  rw [optionsMade, h]

theorem optionsMade_of_error {s : Store} {k : Keywords} {o : Options} {f : Fault}
    (h : (s.overrides k.entries).applied o = .error f) (notes : List Note) :
    optionsMade s k o notes = (.error f, ⟨s, notes⟩) := by
  rw [optionsMade, h]

theorem runOn_construct_options (s : Store) (k : Keywords) (o : Options) (notes : List Note) :
    (construct .latexOptions (k.fieldsOver o)).runOn ⟨s, notes⟩ = optionsMade s k o notes := by
  have hconstruct : construct .latexOptions (k.fieldsOver o) =
      checkOptions .latexOptions (fun name => ((k.fieldsOver o).lookup name).getD .none) >>= fun _ =>
        newObject .latexOptions (k.fieldsOver o) := rfl
  have hchecked : (s.overrides k.entries).applied o =
      Options.checked (s.datum (((k.fieldsOver o).lookup "encoding").getD .none))
        (s.datum (((k.fieldsOver o).lookup "escape_plain_text").getD .none))
        (s.datum (((k.fieldsOver o).lookup "section_command").getD .none)) := k.applied_overrides s o
  rw [hconstruct, runOn_bind, runOn_checkOptions, ← hchecked, optionsMade]
  cases (s.overrides k.entries).applied o <;> rfl

theorem runOn_optionsFrom {s : Store} {v : Value} {o : Options} (h : s.Origin v o) (k : Keywords)
    (notes : List Note) : (optionsFrom v k.entries).runOn ⟨s, notes⟩ = optionsMade s k o notes := by
  rw [← runOn_construct_options]
  rcases h with ⟨rfl, rfl⟩ | ⟨r, rfl, hcell⟩
  · rw [optionsFrom, if_pos rfl, instantiate, withStandardFields_options]
    rfl
  · have hkind : s.kind? (.ref r) = some .latexOptions := Store.kind?_eq_some.mpr ⟨r, _, rfl, hcell⟩
    have hfields : Kind.latexOptions.fields.map (fun name =>
        (name, (k.entries.lookup name).getD ((s.field? (.ref r) name).getD .none))) = k.fieldsOver o := by
      obtain ⟨hencoding, hescape, hcommand⟩ := k.lookup_entries
      have htarget : s.target? (.ref r) = some (.object .latexOptions o.fields) := hcell
      simp only [Kind.fields, List.map_cons, List.map_nil, hencoding, hescape, hcommand, Store.field?, htarget]
      rfl
    have hgiven : Value.ref r ≠ .none := by simp [Value.none]
    rw [optionsFrom, if_neg hgiven, call, runOn_bind_of_ok (runOn_look _ _), hkind]
    change (createUpdated (.ref r) .latexOptions k.entries).runOn ⟨s, notes⟩ = _
    rw [createUpdated, k.find?_entries]
    dsimp only
    rw [runOn_bind_of_ok (runOn_look _ _)]
    dsimp only [id]
    rw [hfields]

end Change

namespace Store

variable {s : Store} {v : Value} {o : Options}

/-- A rendering call puts its overrides over the options that others would be made from. -/
theorem Origin.resolved (h : s.Origin v o) (ho : o.Usable) (overrides : Overrides) :
    (s.given v).resolved overrides = overrides.applied o := by
  cases hempty : overrides.isEmpty with
  | true =>
    rw [Overrides.applied_of_isEmpty hempty ho]
    rcases h with ⟨rfl, rfl⟩ | hv
    · simp only [Given.resolved, Given.overridden, hempty, if_true]
      rfl
    · simp only [Given.resolved, Given.overridden, hempty, if_true, hv.given, Given.accepted]
  | false =>
    have hresolved {g : Given} (hg : g.overridden overrides = (overrides.applied o).map .options) :
        g.resolved overrides = overrides.applied o := by
      rw [Given.resolved, hg]
      cases overrides.applied o <;> rfl
    rcases h with ⟨rfl, rfl⟩ | hv
    · refine hresolved ?_
      simp [Given.overridden, hempty, Store.given, Value.none]
    · refine hresolved ?_
      simp [Given.overridden, hempty, hv.given]

end Store

/-- New values for some of the fields of options, of the types that these fields have. -/
structure Update where
  encoding : Option String
  escapePlainText : Option Bool
  sectionCommand : Option String

namespace Update

def keywords (u : Update) : Keywords :=
  ⟨u.encoding.map Value.text, u.escapePlainText.map Value.bool, u.sectionCommand.map Value.text⟩

/-- The last value that updates give to a field, or else the standard one. -/
def last {α : Type} (field : Update → Option α) (standard : α) (us : List Update) : α :=
  (us.filterMap field).getLast?.getD standard

/-- The options that updates in turn lead to, from the standard ones. -/
def options (us : List Update) : Options :=
  ⟨last encoding "utf-8" us, last escapePlainText false us, .text (last sectionCommand "section" us)⟩

theorem last_append {α : Type} (field : Update → Option α) (standard : α) (us : List Update) (u : Update) :
    last field standard (us ++ [u]) = (field u).getD (last field standard us) := by
  rw [last, last, List.filterMap_append, List.getLast?_append]
  cases hu : field u <;> simp [hu]

/-- One more update changes the fields of the options before. -/
theorem fieldsOver_options (us : List Update) (u : Update) :
    u.keywords.fieldsOver (options us) = (options (us ++ [u])).fields := by
  simp only [Keywords.fieldsOver, keywords, options, Options.fields, last_append]
  cases u.encoding <;> cases u.escapePlainText <;> cases u.sectionCommand <;> rfl

/-- Updates pass the check if and only if the options that they lead to can be used. -/
theorem applied_options (s : Store) (us : List Update) (u : Update) :
    let o := options (us ++ [u])
    let result := (s.overrides u.keywords.entries).applied (options us)
    o.Usable ∧ result = .ok o ∨ ¬o.Usable ∧ ∃ f, result = .error f ∧ f.isValueFault = true := by
  intro o result
  obtain ⟨hencoding, hescape, hcommand⟩ : u.keywords.encoding.getD (.text (options us).encodingName) =
        .text o.encodingName ∧
      u.keywords.escapePlainText.getD (.bool (options us).escapePlainText) = .bool o.escapePlainText ∧
        u.keywords.sectionCommand.getD (.atom (options us).sectionCommand) = .atom o.sectionCommand := by
    simpa [Keywords.fieldsOver, Options.fields] using fieldsOver_options us u
  have hresult : result = Options.checked (.text o.encodingName) (.atom (.bool o.escapePlainText))
      (.atom o.sectionCommand) := by
    rw [show result = _ from u.keywords.applied_overrides s (options us), hencoding, hescape, hcommand]
    simp only [Value.text, Value.bool, Store.datum_atom]
    rfl
  rw [hresult]
  exact Options.checked_texts _ _ _

end Update

namespace Change

variable {s t : Store} {v : Value} {path : List Update} {made : List (Value × List Update)}

/-- What a caller makes of options, starting in some store: new ones or updates of nothing but those made before, with
any values of the right types, each of them or with a fault. All options are kept with the updates that led to them.
Other values are made in between. -/
inductive OptionRun (s : Store) : Store → List (Value × List Update) → Prop
  | start : OptionRun s s []
  | value {t : Store} {made : List (Value × List Update)} (before : OptionRun s t made) (c : Cell) :
      OptionRun s (t.alloc c).1 made
  | made {t : Store} {made : List (Value × List Update)} (before : OptionRun s t made) {v w : Value}
      {path : List Update} (origin : (v, path) ∈ (.none, []) :: made) (u : Update) (notes : List Note) {after : Draft}
      (result : (optionsFrom v u.keywords.entries).runOn ⟨t, notes⟩ = (.ok w, after)) :
      OptionRun s after.store (made ++ [(w, path ++ [u])])
  | failed {t : Store} {made : List (Value × List Update)} (before : OptionRun s t made) {v : Value}
      {path : List Update} (origin : (v, path) ∈ (.none, []) :: made) (u : Update) (notes : List Note) {f : Fault}
      {after : Draft} (result : (optionsFrom v u.keywords.entries).runOn ⟨t, notes⟩ = (.error f, after)) :
      OptionRun s after.store made

/-- What holds of all options at any time: they hold the last values that they were given, and can be used. -/
def Hold (t : Store) (made : List (Value × List Update)) : Prop :=
  ∀ e ∈ made, t.OptionsAt e.1 (Update.options e.2) ∧ (Update.options e.2).Usable

theorem Hold.origin (h : Hold t made) (he : (v, path) ∈ (.none, []) :: made) :
    t.Origin v (Update.options path) ∧ (Update.options path).Usable := by
  rcases List.mem_cons.mp he with he | he
  · obtain ⟨rfl, rfl⟩ := Prod.mk.inj he
    exact ⟨.inl ⟨rfl, rfl⟩, Options.usable_standard⟩
  · obtain ⟨hat, husable⟩ := h _ he
    exact ⟨.inr hat, husable⟩

theorem Hold.alloc (h : Hold t made) (c : Cell) : Hold (t.alloc c).1 made := by
  intro e he
  obtain ⟨⟨r, hr, hcell⟩, husable⟩ := h e he
  exact ⟨⟨r, hr, Store.cell?_alloc_of_some hcell c⟩, husable⟩

/-- An update makes a new object if the options that it leads to can be used. Otherwise it ends in a fault of a value,
and leaves everything as it was. -/
theorem Hold.runOn_optionsFrom (h : Hold t made) (he : (v, path) ∈ (.none, []) :: made) (u : Update)
    (notes : List Note) :
    let o := Update.options (path ++ [u])
    let run := (optionsFrom v u.keywords.entries).runOn ⟨t, notes⟩
    o.Usable ∧ run = (.ok (.ref ⟨t.cells.size⟩), ⟨(t.alloc (.object .latexOptions o.fields)).1, notes⟩) ∨
      ¬o.Usable ∧ ∃ f, run = (.error f, ⟨t, notes⟩) ∧ f.isValueFault = true := by
  intro o run
  have hrun := Change.runOn_optionsFrom (h.origin he).1 u.keywords notes
  rcases Update.applied_options t path u with ⟨husable, happlied⟩ | ⟨hnot, f, happlied, hf⟩
  · rw [optionsMade_of_ok happlied, Update.fieldsOver_options] at hrun
    exact .inl ⟨husable, hrun⟩
  · rw [optionsMade_of_error happlied] at hrun
    exact .inr ⟨hnot, f, hrun, hf⟩

theorem OptionRun.hold (run : OptionRun s t made) : Hold t made := by
  induction run with
  | start => exact nofun
  | value before c ih => exact ih.alloc c
  | @made t made before v w path origin u notes after result ih =>
    rcases ih.runOn_optionsFrom origin u notes with ⟨husable, hrun⟩ | ⟨-, f, hrun, -⟩
    · obtain ⟨hw, rfl⟩ := Prod.mk.inj (hrun.symm.trans result)
      obtain rfl := Except.ok.inj hw
      intro e he
      rcases List.mem_append.mp he with he | he
      · exact ih.alloc _ e he
      · obtain rfl := List.mem_singleton.mp he
        exact ⟨⟨_, rfl, Store.cell?_alloc_new t _⟩, husable⟩
    · cases (Prod.mk.inj (hrun.symm.trans result)).1
  | @failed t made before v path origin u notes f after result ih =>
    rcases ih.runOn_optionsFrom origin u notes with ⟨-, hrun⟩ | ⟨-, g, hrun, -⟩
    · cases (Prod.mk.inj (hrun.symm.trans result)).1
    · obtain ⟨-, rfl⟩ := Prod.mk.inj (hrun.symm.trans result)
      exact ih

/-- A rendering call with overrides ends in the fault that an update with them ends in, or renders as a renderer with
the updated options does. -/
theorem Hold.rendering [Codecs] (h : Hold t made) (he : (v, path) ∈ (.none, []) :: made) {k : Keywords}
    (hk : ∀ x, k.escapePlainText = some x → t.Has x) (notes : List Note) :
    (∃ f, (optionsFrom v k.entries).runOn ⟨t, notes⟩ = (.error f, ⟨t, notes⟩) ∧
      (t.given v).Refused (t.overrides k.entries) f) ∨
    ∃ w c o, (optionsFrom v k.entries).runOn ⟨t, notes⟩ = (.ok w, ⟨(t.alloc c).1, notes⟩) ∧
      (t.alloc c).1.given w = .options o ∧ (t.given v).RendersAs (t.overrides k.entries) o := by
  obtain ⟨horigin, husable⟩ := h.origin he
  have hrun := Change.runOn_optionsFrom horigin k notes
  have hresolved := horigin.resolved husable (t.overrides k.entries)
  cases happlied : (t.overrides k.entries).applied (Update.options path) with
  | error f =>
    rw [optionsMade_of_error happlied] at hrun
    rw [happlied] at hresolved
    exact .inl ⟨f, hrun, Given.refused_of_resolved hresolved⟩
  | ok o =>
    have hescape : t.Has (k.escapePlainText.getD (.bool (Update.options path).escapePlainText)) := by
      cases hgiven : k.escapePlainText with
      | none => exact nofun
      | some x => exact hk x hgiven
    rw [optionsMade_of_ok happlied] at hrun
    rw [happlied] at hresolved
    exact .inr ⟨_, _, o, hrun, Store.given_made hescape happlied, Given.rendersAs_of_resolved hresolved⟩

end Change

end Manuscript
