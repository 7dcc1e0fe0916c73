import Manuscript.Proofs.Building
/-!
# What builders start from

New objects fit if they start without children, or with the content that their kind needs. Standard values
are made for each object anew. A list that is given is held as it is, so it may be held already: by objects that may
hold the same it can be shared, but with others each would come to hold what the other one may not.
-/
namespace Manuscript

open Cell (fieldIn)

namespace Store

/-- An empty list that no object holds but such as may hold the same as objects of a kind. -/
def Spare (s : Store) (kind : Kind) (v : Value) : Prop :=
  s.list? v = some [] ∧ ∀ p, s.Holds p v → ∃ other, s.kind? (.ref p) = some other ∧ kind.HoldsLike other

/-- What an object may be made from: an empty list for what it will hold, which no object holds that may hold anything
else; a text or an inline node to wrap; a preamble; and columns for all cells of a row. What can be left out may be
left out. -/
structure Starts (s : Store) (kind : Kind) (given : List (String × Value)) : Prop where
  spare : kind ≠ .tableRow → ∀ name v, kind.listField? = some name → given.lookup name = some v → s.Spare kind v
  wrapped : kind = .bold ∨ kind = .italic → ∃ v, given.lookup "content" = some v ∧
    (isText v = true ∨ (s.kind? v).any Kind.isInline = true)
  front : kind = .document → ∀ v, given.lookup "preamble" = some v → s.kind? v = some .preamble
  counted : kind = .tableRow → ∀ v, given.lookup "columns" = some v → v = .none ∨ ∃ n : Int,
    v.asInt? = some n ∧ ((given.lookup "cells").map fun cells => (s.supply cells).2.length).getD 0 ≤ n

/-- The same of all fields, when standard values stand for those left out. -/
structure Prepared (s : Store) (kind : Kind) (field : String → Value) : Prop where
  spare : ∀ name, kind.listField? = some name → s.Spare kind (field name)
  wrapped : kind = .bold ∨ kind = .italic →
    isText (field "content") = true ∨ (s.kind? (field "content")).any Kind.isInline = true
  front : kind = .document → s.kind? (field "preamble") = some .preamble

/-- What may stand in a field that was left out. -/
structure Standing (s : Store) (kind : Kind) (name : String) (v : Value) : Prop where
  spare : kind.listField? = some name → s.Spare kind v
  front : kind = .document → name = "preamble" → s.kind? v = some .preamble

/-- The fields with these names are as given, or else something stands in for them. -/
def Completes (s : Store) (kind : Kind) (given fields : List (String × Value)) (names : List String) : Prop :=
  ∀ name ∈ names, given.lookup name = some (fieldIn fields name) ∨
    given.lookup name = none ∧ s.Standing kind name (fieldIn fields name)

variable {s t : Store} {v : Value} {kind : Kind} {field : String → Value}

theorem GrowsTo.spare (h : s.GrowsTo t) (hv : s.Spare kind v) : t.Spare kind v := by
  obtain ⟨hlist, hshared⟩ := hv
  obtain ⟨l, rfl, hcell⟩ := list?_eq_some.mp hlist
  refine ⟨h.keeps.list? hlist, fun p hp => ?_⟩
  obtain ⟨other, hother, hlike⟩ := hshared p (h.holds p l (index_lt hcell) hp)
  exact ⟨other, h.keeps.kind? _ _ hother, hlike⟩

theorem Standing.mono {name : String} (h : s.GrowsTo t) (hv : s.Standing kind name v) :
    t.Standing kind name v where
  spare hname := h.spare (hv.spare hname)
  front hkind hname := h.keeps.kind? _ _ (hv.front hkind hname)

theorem Prepared.mono (h : s.GrowsTo t) (hp : s.Prepared kind field) : t.Prepared kind field where
  spare name hname := h.spare (hp.spare name hname)
  wrapped hkind := (hp.wrapped hkind).imp_right (any_kind?_mono (h.keeps.kind? _))
  front hkind := h.keeps.kind? _ _ (hp.front hkind)

theorem Prepared.fits (h : s.Prepared kind field) (hrow : kind ≠ .tableRow)
    (hwrap : ¬ (kind = .bold ∨ kind = .italic)) : s.Fits kind field where
  listed name hname := ⟨[], (h.spare name hname).1, by simp⟩
  wrapped hkind := absurd hkind hwrap
  front := h.front
  counted hkind := absurd hkind hrow

/-- An object may start from the standard values of all fields that matter, unless it wraps another one. -/
theorem starts_of_left_out {given : List (String × Value)}
    (h : ∀ name ∈ kind.bearing, given.lookup name = none) (hwrap : ¬ (kind = .bold ∨ kind = .italic)) :
    s.Starts kind given where
  spare _ name v hname hv := by simp [h name (Kind.mem_bearing hname)] at hv
  wrapped hkind := absurd hkind hwrap
  front hkind v hv := by
    subst hkind
    simp [h "preamble" (by decide)] at hv
  counted hkind v hv := by
    subst hkind
    simp [h "columns" (by decide)] at hv

end Store

namespace Kind

theorem mem_fields_of_listField? {kind : Kind} {name : String} (h : kind.listField? = some name) :
    name ∈ kind.fields := by
  cases kind <;> simp_all [listField?, itemField?, fields]

theorem standard?_of_listField? {kind : Kind} {name : String} (h : kind.listField? = some name) :
    kind.standard? name = none := by
  cases kind <;> simp_all [listField?, itemField?] <;> subst h <;> rfl

end Kind

namespace Change

variable {s : Store} {kind : Kind} {fields given : List (String × Value)}

theorem builds_newObject (hs : s.Sound) (fits : s.Fits kind (fieldIn fields))
    (shared : ∀ name, kind.listField? = some name → ∀ p, s.Holds p (fieldIn fields name) →
      ∃ other, s.kind? (.ref p) = some other ∧ kind.HoldsLike other) :
    Builds s (newObject kind fields) := fun _ => ⟨hs.newObject fits shared, nofun⟩

theorem grows_checkOptions (hs : s.Sound) (kind : Kind) (field : String → Value) :
    Grows s (checkOptions kind field) fun _ _ => True := by
  refine grows_look_bind ?_
  split
  · exact grows_settle_bind hs fun _ _ => grows_pure hs trivial
  · exact grows_settle_bind hs fun _ _ => grows_pure hs trivial
  · exact grows_pure hs trivial

theorem grows_documentClassValue (hs : s.Sound) (v : Value) :
    Grows s (documentClassValue v) fun _ _ => True := by
  unfold documentClassValue
  split
  · split
    · exact grows_pure hs trivial
    · exact grows_pure hs trivial
  · exact grows_look_bind (grows_settle_bind hs fun _ _ => grows_pure hs trivial)

theorem builds_constructWrapper (hs : s.Sound) (hkind : kind = .bold ∨ kind = .italic) {content : Value}
    (h : Store.isText content = true ∨ (s.kind? content).any Kind.isInline = true) :
    Builds s (do
      newObject kind [("content", ← if Store.isText content then newPlain content else pure content)]) := by
  have hnew {t : Store} {w : Value} (ht : t.Sound) (hw : (t.kind? w).any Kind.isInline = true) :
      Builds t (newObject kind [("content", w)]) := by
    have hlist : kind.listField? = none := by rcases hkind with rfl | rfl <;> rfl
    refine builds_newObject ht ⟨fun name hname => ?_, fun _ => hw, fun hdoc => ?_, fun hrow => ?_⟩
      fun name hname => ?_
    · simp [hlist] at hname
    · rcases hkind with rfl | rfl <;> cases hdoc
    · rcases hkind with rfl | rfl <;> cases hrow
    · simp [hlist] at hname
  split_ifs with htext
  · refine (grows_newPlain hs content).bind_builds fun t w _ ht hw => hnew ht ?_
    simp [hw, Kind.isInline]
  · rw [pure_bind]
    exact hnew hs (h.resolve_left htext)

theorem builds_newPrepared (hs : s.Sound) (h : s.Prepared kind (fieldIn fields)) (hrow : kind ≠ .tableRow)
    (hwrap : ¬ (kind = .bold ∨ kind = .italic)) {changed : List (String × Value)}
    (agree : ∀ name ∈ kind.bearing, fieldIn changed name = fieldIn fields name) :
    Builds s (newObject kind changed) := by
  refine builds_newObject hs ((h.fits hrow hwrap).congr agree) fun name hname => ?_
  rw [agree name (Kind.mem_bearing hname)]
  exact (h.spare name hname).2

theorem builds_construct (hs : s.Sound) (hrow : kind ≠ .tableRow) (h : s.Prepared kind (fieldIn fields)) :
    Builds s (construct kind fields) := by
  unfold construct
  split
  · exact builds_constructWrapper hs (.inl rfl) (h.wrapped (.inl rfl))
  · exact builds_constructWrapper hs (.inr rfl) (h.wrapped (.inr rfl))
  · refine (grows_documentClassValue hs _).bind_builds fun t c hst ht _ => ?_
    refine builds_newPrepared ht (h.mono hst) hrow (by simp) fun name hname => ?_
    obtain rfl | rfl : name = "preamble" ∨ name = "elements" := by simpa [Kind.bearing] using hname
    · rfl
    · rfl
  · exact absurd rfl hrow
  · refine (grows_toColumnSettings hs _).bind_builds fun t settings hst ht _ => ?_
    refine builds_newPrepared ht (h.mono hst) hrow (by simp) fun name hname => ?_
    obtain rfl : name = "rows" := by simpa [Kind.bearing] using hname
    rfl
  · rename_i hbold hitalic _ _ _
    refine (grows_checkOptions hs _ _).bind_builds fun t _ hst ht _ => ?_
    exact builds_newPrepared ht (h.mono hst) hrow (not_or.mpr ⟨hbold, hitalic⟩) fun _ _ => rfl

theorem builds_constructRow (hs : s.Sound)
    (h : fieldIn fields "columns" = .none ∨ ∃ n : Int, (fieldIn fields "columns").asInt? = some n ∧
      (s.supply (fieldIn fields "cells")).2.length ≤ n) :
    Builds s (construct .tableRow fields) := by
  refine (grows_itemTexts hs _).bind_builds fun t texts _ ht htexts => ?_
  have hcells : ∀ v ∈ texts.map Value.text, t.mayHold .tableRow v = true := by
    simp [Store.mayHold_tableRow]
  -- whether a row is ended by a terminator is looked up when its cells are there already
  let skipped := (t.newList (texts.map Value.text)).1.isTrue (fieldIn fields "skip_terminator")
  let columns : Value := if fieldIn fields "columns" = .none ∧ !skipped then .int texts.length
    else fieldIn fields "columns"
  have hcolumns : columns = .none ∨ ∃ n : Int, columns.asInt? = some n ∧ texts.length ≤ n := by
    by_cases hcount : fieldIn fields "columns" = .none ∧ (!skipped) = true
    · exact .inr ⟨texts.length, by simp only [columns, if_pos hcount]; rfl, Int.le_refl _⟩
    · simp only [columns, if_neg hcount, htexts]
      exact h
  have hgrows : Grows t (newList (texts.map Value.text) >>= fun cells => newObject .tableRow
      [("cells", cells), ("columns", columns), ("skip_terminator", fieldIn fields "skip_terminator")])
      fun u v => u.kind? v = some .tableRow := by
    refine grows_newHolder ht (show Kind.tableRow.listField? = some "cells" from rfl) (fun _ => rfl) hcells
      (by decide) fun _ _ => ?_
    rw [List.length_map]
    exact hcolumns
  intro notes
  have hlist : (newList (texts.map Value.text)).runOn ⟨t, notes⟩ =
      (.ok (t.newList (texts.map Value.text)).2, ⟨(t.newList (texts.map Value.text)).1, notes⟩) := rfl
  have hbuilds := hgrows.builds notes
  rw [runOn_bind_of_ok hlist] at hbuilds ⊢
  rw [runOn_bind_of_ok (runOn_look _ _)]
  exact hbuilds

theorem grows_standardField (hs : s.Sound) (kind : Kind) (name : String) :
    Grows s (standardField kind name) fun t v => t.Standing kind name v := by
  unfold standardField
  split
  · rename_i a hstandard
    refine grows_pure hs ⟨fun hname => ?_, ?_⟩
    · simp [Kind.standard?_of_listField? hname] at hstandard
    · rintro rfl rfl
      cases hstandard
  · refine (grows_newHolder hs (show Kind.preamble.listField? = some "elements" from rfl) (fun _ => rfl)
      (by simp) (by decide) nofun).mono fun t v _ hv => ⟨nofun, fun _ _ => hv⟩
  · exact (grows_newTypedSettings hs []).mono fun t v _ hv => ⟨nofun, nofun⟩
  · exact (grows_newObject hs rfl _).mono fun t v _ hv => ⟨nofun, nofun⟩
  · rename_i hfront _ _ _
    refine (grows_newList hs []).mono fun t v _ ⟨hlist, hfree⟩ =>
      ⟨fun _ => ⟨hlist, fun p hp => absurd hp (hfree p)⟩, fun hkind hname => ?_⟩
    exact absurd hname (hfront hkind)

theorem grows_withStandardFields (hs : s.Sound) (kind : Kind) (given : List (String × Value))
    (names : List String) :
    Grows s (withStandardFields kind given names) fun t fields => t.Completes kind given fields names := by
  induction names generalizing s with
  | nil => exact grows_pure hs nofun
  | cons first names ih =>
    have hrest {t : Store} (ht : t.Sound) (v : Value)
        (hv : given.lookup first = some v ∨ given.lookup first = none ∧ t.Standing kind first v) :
        Grows t (withStandardFields kind given names >>= fun rest => pure ((first, v) :: rest))
          fun u fields => u.Completes kind given fields (first :: names) := by
      refine (ih ht).bind fun u fields htu hu hfields => grows_pure hu fun name hname => ?_
      rw [Cell.fieldIn_cons]
      split_ifs with heq
      · subst heq
        exact hv.imp_right fun h => ⟨h.1, h.2.mono htu⟩
      · exact hfields name ((List.mem_cons.mp hname).resolve_left heq)
    rw [withStandardFields]
    cases hgiven : given.lookup first with
    | some v => exact (grows_pure hs hgiven).bind fun t w _ ht hw => hrest ht w (.inl hw)
    | none =>
      exact (grows_standardField hs kind first).bind fun t v _ ht hv => hrest ht v (.inr ⟨hgiven, hv⟩)

theorem Starts.prepared {t : Store} (h : s.Starts kind given) (hst : s.GrowsTo t) (hrow : kind ≠ .tableRow)
    (hfields : t.Completes kind given fields kind.fields) : t.Prepared kind (fieldIn fields) where
  spare name hname := by
    rcases hfields name (Kind.mem_fields_of_listField? hname) with hgiven | ⟨_, hstanding⟩
    · exact hst.spare (h.spare hrow name _ hname hgiven)
    · exact hstanding.spare hname
  wrapped hkind := by
    obtain ⟨v, hv, hcontent⟩ := h.wrapped hkind
    have hmem : "content" ∈ kind.fields := by rcases hkind with rfl | rfl <;> decide
    have hfield : fieldIn fields "content" = v := by
      rcases hfields "content" hmem with hgiven | ⟨hnone, _⟩
      · exact Option.some.inj (hgiven.symm.trans hv)
      · simp [hv] at hnone
    rw [hfield]
    exact hcontent.imp_right (Store.any_kind?_mono (hst.keeps.kind? v))
  front hkind := by
    have hmem : "preamble" ∈ kind.fields := by subst hkind; decide
    rcases hfields "preamble" hmem with hgiven | ⟨_, hstanding⟩
    · exact hst.keeps.kind? _ _ (h.front hkind _ hgiven)
    · exact hstanding.front hkind rfl

theorem withStandardFields_tableRow (given : List (String × Value)) :
    withStandardFields .tableRow given Kind.tableRow.fields =
      (match given.lookup "cells" with
        | some v => pure v
        | none => newList []) >>= fun cells =>
          pure [("cells", cells), ("columns", (given.lookup "columns").getD .none),
            ("skip_terminator", (given.lookup "skip_terminator").getD (.bool false))] := by
  cases hcells : given.lookup "cells" <;> cases hcolumns : given.lookup "columns" <;>
    cases hskip : given.lookup "skip_terminator" <;>
      simp [withStandardFields, Kind.fields, hcells, hcolumns, hskip, standardField, Kind.standard?,
        Value.none, Value.bool]

theorem builds_instantiateRow (hs : s.Sound) (h : s.Starts .tableRow given) :
    Builds s (instantiate .tableRow given) := by
  let columns := (given.lookup "columns").getD .none
  have hcounted (n : Nat) (hn : ((given.lookup "cells").map fun v => (s.supply v).2.length).getD 0 = n) :
      columns = .none ∨ ∃ m : Int, columns.asInt? = some m ∧ n ≤ m := by
    cases hcolumns : given.lookup "columns" with
    | none => exact .inl (by simp [columns, hcolumns])
    | some v =>
      have hv : columns = v := by simp [columns, hcolumns]
      rw [hv]
      exact hn ▸ h.counted rfl v hcolumns
  rw [instantiate, withStandardFields_tableRow, bind_assoc]
  cases hcells : given.lookup "cells" with
  | some cells => exact builds_constructRow hs (hcounted _ (by rw [hcells]; rfl))
  | none =>
    refine (grows_newList hs []).bind_builds fun t cells _ ht hlist => builds_constructRow ht ?_
    have hsupply (rest : List (String × Value)) :
        (t.supply (fieldIn (("cells", cells) :: rest) "cells")).2 = [] := by
      rw [Cell.fieldIn_cons, if_pos rfl, Store.supply_of_list hlist.1]
    rw [hsupply]
    exact hcounted 0 (by rw [hcells]; rfl)

/-- An object made from what its kind may start from fits. -/
theorem builds_instantiate (hs : s.Sound) (h : s.Starts kind given) : Builds s (instantiate kind given) := by
  by_cases hrow : kind = .tableRow
  · subst hrow
    exact builds_instantiateRow hs h
  · refine (grows_withStandardFields hs kind given kind.fields).bind_builds fun t fields hst ht hfields => ?_
    exact builds_construct ht hrow (Starts.prepared h hst hrow hfields)

end Change

end Manuscript
