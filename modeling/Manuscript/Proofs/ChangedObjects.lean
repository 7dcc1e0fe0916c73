import Manuscript.Proofs.Fitting
/-!
# Changed objects

A sound store stays sound when one object is changed, with the list that it holds, into another one that
fits: what other objects hold in that list they may hold as well.
-/
namespace Manuscript.Store

open Cell (fieldIn)

variable {s t : Store} {v : Value} {kind : Kind} {fields changed : List (String × Value)} {name : String}
  {r l : Ref} {items : List Value}

/-- One store comes from another one by a change of one object, with the list that it holds. -/
structure Rewrites (s t : Store) (r : Ref) (kind : Kind) (fields changed : List (String × Value)) : Prop where
  before : s.cell? r = some (.object kind fields)
  after : t.cell? r = some (.object kind changed)
  list : ∀ name, kind.listField? = some name → fieldIn changed name = fieldIn fields name
  same : ∀ q, q ≠ r → ¬ s.Holds r (.ref q) → t.cell? q = s.cell? q

namespace Rewrites

theorem kind? (h : s.Rewrites t r kind fields changed) (hs : s.Sound) (v : Value) (k : Kind)
    (hv : s.kind? v = some k) : t.kind? v = some k := by
  obtain ⟨q, given, rfl, hq⟩ := kind?_eq_some.mp hv
  by_cases heq : q = r
  · subst heq
    obtain ⟨rfl, rfl⟩ : kind = k ∧ fields = given := by simpa [h.before] using hq
    exact kind?_eq_some.mpr ⟨q, changed, rfl, h.after⟩
  · have hfree : ¬ s.Holds r (.ref q) := by
      intro hholds
      obtain ⟨l, items, hl, hlist⟩ := hs.list_of_holds hholds
      obtain rfl : q = l := by simpa using hl
      exact object_ne_list hq hlist rfl
    exact kind?_eq_some.mpr ⟨q, given, rfl, (h.same q heq hfree).trans hq⟩

/-- The list that the object held is a list still, and so none of the other objects. -/
theorem object (h : s.Rewrites t r kind fields changed) (fits : t.Fits kind (fieldIn changed)) {q : Ref}
    {k : Kind} {given : List (String × Value)} (hne : q ≠ r) (hq : t.cell? q = some (.object k given)) :
    s.cell? q = some (.object k given) := by
  have hfree : ¬ s.Holds r (.ref q) := by
    rintro ⟨c, hcell, k', fields', name, rfl, hname, hfield⟩
    obtain ⟨rfl, rfl⟩ : kind = k' ∧ fields = fields' := by simpa [h.before] using hcell
    obtain ⟨items, hitems, _⟩ := fits.listed name hname
    obtain ⟨l, hl, hlist⟩ := list?_eq_some.mp hitems
    obtain rfl : q = l := by simpa [h.list name hname, hfield] using hl
    exact object_ne_list hq hlist rfl
  exact (h.same q hne hfree).symm.trans hq

theorem holds (h : s.Rewrites t r kind fields changed) (fits : t.Fits kind (fieldIn changed)) {p : Ref}
    (hp : t.Holds p v) : s.Holds p v := by
  obtain ⟨c, hcell, k, given, name, rfl, hname, rfl⟩ := hp
  by_cases heq : p = r
  · subst heq
    obtain ⟨rfl, rfl⟩ : kind = k ∧ changed = given := by simpa [h.after] using hcell
    exact ⟨_, h.before, kind, fields, name, rfl, hname, (h.list name hname).symm⟩
  · exact ⟨_, h.object fits heq hcell, k, given, name, rfl, hname, rfl⟩

/-- The list of another object is as before, or it is the one of the changed object, which may hold the same. -/
theorem list_other (h : s.Rewrites t r kind fields changed) (hs : s.Sound) (fits : t.Fits kind (fieldIn changed))
    {q : Ref} {k : Kind} {given : List (String × Value)} (hne : q ≠ r) (hold : s.cell? q = some (.object k given))
    (hname : k.listField? = some name) :
    t.list? (fieldIn given name) = s.list? (fieldIn given name) ∨
      k.HoldsLike kind ∧ ∃ items, t.list? (fieldIn given name) = some items ∧ ∀ v ∈ items, t.mayHold kind v = true := by
  have hholds : s.Holds q (fieldIn given name) := ⟨_, hold, k, given, name, rfl, hname, rfl⟩
  obtain ⟨l, items, hl, hlist⟩ := hs.list_of_holds hholds
  by_cases hr : s.Holds r (.ref l)
  · have hlike : k.HoldsLike kind := by
      obtain ⟨k', kind', hk', hkind', hlike⟩ := (hs.shared q r _ (hl ▸ hholds) hr).resolve_left hne
      obtain rfl := Option.some.inj ((kind?_eq_some.mpr ⟨q, given, rfl, hold⟩).symm.trans hk')
      obtain rfl := Option.some.inj ((kind?_eq_some.mpr ⟨r, fields, rfl, h.before⟩).symm.trans hkind')
      exact hlike
    obtain ⟨c, hcell, kind', fields', own, rfl, hown, hfield⟩ := hr
    obtain ⟨rfl, rfl⟩ : kind = kind' ∧ fields = fields' := by simpa [h.before] using hcell
    obtain ⟨new, hnew, hmay⟩ := fits.listed own hown
    rw [h.list own hown, hfield] at hnew
    exact .inr ⟨hlike, new, hl ▸ hnew, hmay⟩
  · have hlne : l ≠ r := (object_ne_list h.before hlist).symm
    rw [hl, list?_eq_some.mpr ⟨l, rfl, hlist⟩]
    exact .inl (list?_eq_some.mpr ⟨l, rfl, (h.same l hlne hr).trans hlist⟩)

/-- All other objects fit as before. -/
theorem fits_other (h : s.Rewrites t r kind fields changed) (hs : s.Sound)
    (fits : t.Fits kind (fieldIn changed)) {q : Ref} {k : Kind} {given : List (String × Value)} (hne : q ≠ r)
    (hq : t.cell? q = some (.object k given)) : t.Fits k (fieldIn given) := by
  have hold := h.object fits hne hq
  have hfits := hs.fits q k given hold
  refine ⟨fun name hname => ?_, fun hkind => any_kind?_mono (h.kind? hs _) (hfits.wrapped hkind),
    fun hkind => h.kind? hs _ _ (hfits.front hkind), fun hkind items hitems => ?_⟩
  · rcases h.list_other hs fits hne hold hname with hsame | ⟨hlike, items, hitems, hmay⟩
    · obtain ⟨items, hitems, hmay⟩ := hfits.listed name hname
      exact ⟨items, hsame.trans hitems, fun v hv => mayHold_mono (h.kind? hs) (hmay v hv)⟩
    · exact ⟨items, hitems, fun v hv => mayHold_of_holdsLike hlike (hmay v hv)⟩
  · subst hkind
    rcases h.list_other hs fits hne hold (show Kind.tableRow.listField? = some "cells" from rfl) with hsame | ⟨hlike, -⟩
    · exact hfits.counted rfl items (hsame.symm.trans hitems)
    · exact absurd rfl hlike.1

theorem sound (h : s.Rewrites t r kind fields changed) (hs : s.Sound)
    (fits : t.Fits kind (fieldIn changed)) : t.Sound where
  fits q k given hq := by
    by_cases heq : q = r
    · subst heq
      obtain ⟨rfl, rfl⟩ : kind = k ∧ changed = given := by simpa [h.after] using hq
      exact fits
    · exact h.fits_other hs fits heq hq
  shared p q v hp hq :=
    (hs.shared p q v (h.holds fits hp) (h.holds fits hq)).imp_right (·.mono (h.kind? hs))

end Rewrites

theorem fieldIn_of_cell (h : s.cell? r = some (.object kind fields)) (name : String) :
    (s.field? (.ref r) name).getD .none = fieldIn fields name := by
  simp [field?, target?, Value.ref?, h, fieldIn]

theorem fieldIn_replaced (fields : List (String × Value)) (name other : String) (new : Value) :
    fieldIn (fields.map fun e => if e.1 = name then (name, new) else e) other =
      if other = name ∧ fields.any (·.1 == name) then new else fieldIn fields other := by
  induction fields with
  | nil => simp [fieldIn]
  | cons e fields ih =>
    obtain ⟨key, w⟩ := e
    by_cases hkey : key = name
    · subst hkey
      by_cases hother : other = key
      · simp [Cell.fieldIn_cons, hother]
      · simp [Cell.fieldIn_cons, hother, ih]
    · by_cases hother : other = key
      · subst hother
        simp [Cell.fieldIn_cons, hkey]
      · have hne : (key == name) = false := by simpa using hkey
        simp only [List.map_cons, if_neg hkey, Cell.fieldIn_cons, if_neg hother, ih, List.any_cons, hne,
          Bool.false_or]

theorem fieldIn_added (fields : List (String × Value)) (name other : String) (new : Value)
    (h : fields.any (·.1 == name) = false) :
    fieldIn (fields ++ [(name, new)]) other = if other = name then new else fieldIn fields other := by
  induction fields with
  | nil => exact Cell.fieldIn_cons name new [] other
  | cons e fields ih =>
    obtain ⟨key, w⟩ := e
    obtain ⟨hkey, hrest⟩ : key ≠ name ∧ fields.any (·.1 == name) = false := by simpa using h
    rw [List.cons_append, Cell.fieldIn_cons, Cell.fieldIn_cons, ih hrest]
    by_cases hother : other = key
    · subst hother
      simp [hkey]
    · simp [hother]

/-- A field with a new value, all others as before. -/
theorem exists_setField (h : s.cell? r = some (.object kind fields)) (name : String) (new : Value) :
    ∃ changed, s.setField (.ref r) name new = s.put r (.object kind changed) ∧
      ∀ other, fieldIn changed other = if other = name then new else fieldIn fields other := by
  by_cases hany : fields.any (·.1 == name) = true
  · refine ⟨fields.map fun e => if e.1 = name then (name, new) else e, ?_, fun other => ?_⟩
    · simp only [setField, h, hany, if_true]
    · simp only [fieldIn_replaced, hany, and_true]
  · rw [Bool.not_eq_true] at hany
    refine ⟨fields ++ [(name, new)], ?_, fun other => fieldIn_added fields name other new hany⟩
    simp only [setField, h, hany, Bool.false_eq_true, if_false]

theorem setItems_of_cell (h : s.cell? l = some (.sequence .list items)) (f : List Value → List Value) :
    s.setItems (.ref l) f = s.put l (.sequence .list (f items)) := by
  simp only [setItems, h]

theorem Sound.setField (hs : s.Sound) (hk : s.kind? v = some kind) (h : name ∉ kind.bearing) (new : Value) :
    (s.setField v name new).Sound := by
  obtain ⟨r, fields, rfl, hcell⟩ := kind?_eq_some.mp hk
  obtain ⟨changed, hset, hchanged⟩ := exists_setField hcell name new
  have hagree : ∀ other ∈ kind.bearing, fieldIn changed other = fieldIn fields other := by
    intro other hother
    rw [hchanged, if_neg]
    rintro rfl
    exact h hother
  have hother (q : Ref) (hq : q ≠ r) : (s.put r (.object kind changed)).cell? q = s.cell? q :=
    cell?_put_of_ne s r q _ hq
  have hrewrites : s.Rewrites (s.put r (.object kind changed)) r kind fields changed :=
    ⟨hcell, cell?_put_self s r _ (index_lt hcell), fun name hname => hagree name (Kind.mem_bearing hname),
      fun q hq _ => hother q hq⟩
  rw [hset]
  refine hrewrites.sound hs (((hs.fits r kind fields hcell).transport (hrewrites.kind? hs) ?_).congr hagree)
  intro name hname
  obtain ⟨l, items, hl, hlist⟩ := hs.list_of_holds ⟨_, hcell, kind, fields, name, rfl, hname, rfl⟩
  have hne : l ≠ r := (object_ne_list hcell hlist).symm
  rw [hl, list?_eq_some.mpr ⟨l, rfl, hlist⟩]
  exact list?_eq_some.mpr ⟨l, rfl, (hother l hne).trans hlist⟩

/-- An object can be given other items, if it may hold them. -/
theorem Sound.setItems (hs : s.Sound) (hcell : s.cell? r = some (.object kind fields))
    (hname : kind.listField? = some name) (hrow : kind ≠ .tableRow)
    (hitems : s.list? (fieldIn fields name) = some items) {f : List Value → List Value}
    (may : ∀ v ∈ f items, s.mayHold kind v = true) : (s.setItems (fieldIn fields name) f).Sound := by
  obtain ⟨l, hl, hlist⟩ := list?_eq_some.mp hitems
  have hne : r ≠ l := object_ne_list hcell hlist
  have hrewrites : s.Rewrites (s.put l (.sequence .list (f items))) r kind fields fields := by
    refine ⟨hcell, (cell?_put_of_ne s l r _ hne).trans hcell, fun _ _ => rfl, fun q _ hq => ?_⟩
    refine cell?_put_of_ne s l q _ ?_
    rintro rfl
    exact hq ⟨_, hcell, kind, fields, name, rfl, hname, hl⟩
  have hkinds := hrewrites.kind? hs
  have hfits := hs.fits r kind fields hcell
  rw [hl, setItems_of_cell hlist]
  refine hrewrites.sound hs ⟨fun given hgiven => ?_, fun hkind => any_kind?_mono (hkinds _) (hfits.wrapped hkind),
    fun hkind => hkinds _ _ (hfits.front hkind), fun hkind => absurd hkind hrow⟩
  obtain rfl := Option.some.inj (hname.symm.trans hgiven)
  refine ⟨f items, ?_, fun v hv => mayHold_mono hkinds (may v hv)⟩
  exact list?_eq_some.mpr ⟨l, hl, cell?_put_self s l _ (index_lt hlist)⟩

/-- A row can be given other cells, and other columns for them, if it records enough of these. -/
theorem Sound.setCells (hs : s.Sound) (hcell : s.cell? r = some (.object .tableRow fields))
    (hl : fieldIn fields "cells" = .ref l) (hrow : t.cell? r = some (.object .tableRow changed))
    (cells : fieldIn changed "cells" = .ref l) (hnew : t.cell? l = some (.sequence .list items))
    (same : ∀ q, q ≠ r → q ≠ l → t.cell? q = s.cell? q) (texts : ∀ v ∈ items, ∃ text, v = .text text)
    (columns : fieldIn changed "columns" = .none ∨
      ∃ n : Int, (fieldIn changed "columns").asInt? = some n ∧ items.length ≤ n) : t.Sound := by
  have hname {name : String} (h : Kind.tableRow.listField? = some name) : "cells" = name := by
    simpa [Kind.listField?, Kind.itemField?] using h
  have hrewrites : s.Rewrites t r .tableRow fields changed := by
    refine ⟨hcell, hrow, fun name h => ?_, fun q hq hfree => same q hq ?_⟩
    · obtain rfl := hname h
      rw [cells, hl]
    · rintro rfl
      exact hfree ⟨_, hcell, .tableRow, fields, "cells", rfl, rfl, hl⟩
  have hcells : t.list? (fieldIn changed "cells") = some items := list?_eq_some.mpr ⟨l, cells, hnew⟩
  refine hrewrites.sound hs ⟨fun name h => ?_, by simp, by simp, fun _ found hfound => ?_⟩
  · obtain rfl := hname h
    exact ⟨items, hcells, fun v hv => mayHold_tableRow.mpr (texts v hv)⟩
  · rw [hcells] at hfound
    obtain rfl := Option.some.inj hfound
    exact columns

end Manuscript.Store
