import Manuscript.Proofs.Fitting
/-!
# Changes that only add

A change grows a sound store if it leaves it sound, with all old cells as they were, whether it gives an
answer or ends in a fault. To convert an argument, or to make what a builder adds, is such a change.
-/
namespace Manuscript

open Cell (fieldIn)

namespace Store

variable {s : Store} {v : Value} {kind : Kind} {fields : List (String × Value)}

/-- A new object that fits leaves a store sound if its list is held by such objects only as may hold the same. -/
theorem Sound.newObject (hs : s.Sound) (fits : s.Fits kind (fieldIn fields))
    (shared : ∀ name, kind.listField? = some name → ∀ p, s.Holds p (fieldIn fields name) →
      ∃ other, s.kind? (.ref p) = some other ∧ kind.HoldsLike other) :
    (s.newObject kind fields).1.Sound := by
  refine hs.alloc (fun k given h => ?_) fun p v ⟨k, given, name, h, hname, hv⟩ hp => ?_
  · obtain ⟨rfl, rfl⟩ : kind = k ∧ fields = given := by simpa using h
    exact (keeps_alloc s _).fits fits
  · obtain ⟨rfl, rfl⟩ : kind = k ∧ fields = given := by simpa using h
    obtain ⟨other, hother, hlike⟩ := shared name hname p (hv ▸ hp)
    exact ⟨kind, other, kind?_eq_some.mpr ⟨_, fields, rfl, cell?_alloc_new s _⟩,
      (keeps_alloc s _).kind? _ _ hother, hlike⟩

theorem Sound.alloc_of_not_object (hs : s.Sound) {c : Cell} (h : ∀ k given, c ≠ .object k given) :
    (s.alloc c).1.Sound :=
  hs.alloc (fun k given hc => absurd hc (h k given)) fun _ _ ⟨k, given, _, hc, _⟩ => absurd hc (h k given)

theorem supply_of_list {items : List Value} (h : s.list? v = some items) : s.supply v = (.listed, items) := by
  obtain ⟨r, rfl, hcell⟩ := list?_eq_some.mp h
  obtain ⟨depth, hdepth⟩ := Nat.exists_eq_add_one_of_ne_zero (Nat.ne_zero_of_lt (index_lt hcell))
  rw [supply, Store.depth, hdepth]
  simp [supplyTo, hcell]

/-- Only an iterator is the source of items that are given once. -/
theorem source_of_supplyTo (depth : Nat) {typeName : String} {r : Ref}
    (h : (s.supplyTo depth v).1 = .unsized typeName (some r)) :
    ∃ items, s.cell? r = some (.iterator items) := by
  induction depth generalizing v typeName with
  | zero =>
    cases v with
    | atom a =>
      simp only [supplyTo] at h
      split at h <;> cases h
    | ref q => cases h
  | succ depth ih =>
    cases v with
    | atom a =>
      simp only [supplyTo] at h
      split at h <;> cases h
    | ref q =>
      simp only [supplyTo] at h
      split at h
      · cases h
      · cases h
      · rename_i items hcell
        simp only [Supply.unsized.injEq, Option.some.injEq] at h
        exact ⟨items, h.2 ▸ hcell⟩
      · split at h
        · cases h
        · rename_i field _
          split at h
          · cases h
          · rename_i name source items hsupply
            simp only [Supply.unsized.injEq] at h
            exact @ih field name (by rw [hsupply, h.2])
          · cases h
      · cases h

theorem growsTo_taking (hs : s.Sound) (r : Ref) : s.GrowsTo (s.taking r) ∧ (s.taking r).Sound := by
  unfold taking
  split
  · rename_i items hcell
    exact ⟨growsTo_put_iterator hcell, hs.put_iterator hcell⟩
  · exact ⟨.refl s, hs⟩

theorem growsTo_takingAll (hs : s.Sound) (taken : List Ref) :
    s.GrowsTo (s.takingAll taken) ∧ (s.takingAll taken).Sound := by
  induction taken generalizing s with
  | nil => exact ⟨.refl s, hs⟩
  | cons r taken ih =>
    obtain ⟨hgrows, hsound⟩ := growsTo_taking hs r
    obtain ⟨hmore, hend⟩ := ih hsound
    exact ⟨hgrows.trans hmore, hend⟩

end Store

namespace Change

variable {α β : Type} {s : Store} {v : Value} {kind : Kind}

/-- From a store a change leaves a sound one that has only grown, and what it gives meets a condition. -/
def Grows (s : Store) (change : Change α) (post : Store → α → Prop) : Prop :=
  ∀ notes, s.GrowsTo (change.runOn ⟨s, notes⟩).2.store ∧ (change.runOn ⟨s, notes⟩).2.store.Sound ∧
    ∀ a, (change.runOn ⟨s, notes⟩).1 = .ok a → post (change.runOn ⟨s, notes⟩).2.store a

theorem runOn_bind_of_ok {change : Change α} {draft after : Draft} {a : α}
    (h : change.runOn draft = (.ok a, after)) (next : α → Change β) :
    (change >>= next).runOn draft = (next a).runOn after := by
  rw [runOn_bind, h]

theorem grows_pure (hs : s.Sound) {post : Store → α → Prop} {a : α} (h : post s a) :
    Grows s (pure a) post := by
  intro notes
  refine ⟨.refl s, hs, fun b hb => ?_⟩
  obtain rfl := Except.ok.inj hb
  exact h

theorem grows_refuse (hs : s.Sound) {post : Store → α → Prop} (f : Fault) : Grows s (refuse f) post :=
  fun _ => ⟨.refl s, hs, fun _ h => nomatch h⟩

theorem Grows.mono {change : Change α} {post more : Store → α → Prop} (h : Grows s change post)
    (imp : ∀ t a, s.GrowsTo t → post t a → more t a) : Grows s change more := by
  intro notes
  obtain ⟨hgrows, hsound, hpost⟩ := h notes
  exact ⟨hgrows, hsound, fun a ha => imp _ a hgrows (hpost a ha)⟩

theorem Grows.bind {change : Change α} {next : α → Change β} {mid : Store → α → Prop}
    {post : Store → β → Prop} (h : Grows s change mid)
    (hnext : ∀ t a, s.GrowsTo t → t.Sound → mid t a → Grows t (next a) post) :
    Grows s (change >>= next) post := by
  intro notes
  obtain ⟨hgrows, hsound, hmid⟩ := h notes
  rw [runOn_bind]
  rcases hrun : change.runOn ⟨s, notes⟩ with ⟨_ | a, t, more⟩ <;> rw [hrun] at hgrows hsound hmid
  · exact ⟨hgrows, hsound, fun _ hok => nomatch hok⟩
  · obtain ⟨hgrows', hsound', hpost⟩ := hnext t a hgrows hsound (hmid a rfl) more
    exact ⟨hgrows.trans hgrows', hsound', hpost⟩

theorem grows_look (hs : s.Sound) {f : Store → α} {post : Store → α → Prop} (h : post s (f s)) :
    Grows s (look f) post := grows_pure hs h

theorem grows_look_bind {f : Store → α} {next : α → Change β} {post : Store → β → Prop}
    (h : Grows s (next (f s)) post) : Grows s (look f >>= next) post := h

theorem grows_settle_bind (hs : s.Sound) {result : Except Fault α} {next : α → Change β}
    {post : Store → β → Prop} (h : ∀ a, result = .ok a → Grows s (next a) post) :
    Grows s (settle result >>= next) post := by
  cases result with
  | ok a => exact h a rfl
  | error f => exact grows_refuse hs f

theorem grows_settle (hs : s.Sound) {result : Except Fault α} {post : Store → α → Prop}
    (h : ∀ a, result = .ok a → post s a) : Grows s (settle result) post := by
  cases result with
  | ok a => exact grows_pure hs (h a rfl)
  | error f => exact grows_refuse hs f

theorem grows_make (hs : s.Sound) {f : Store → Store × Value} {post : Store → Value → Prop}
    (grows : s.GrowsTo (f s).1) (sound : s.Sound → (f s).1.Sound) (h : post (f s).1 (f s).2) :
    Grows s (make f) post := by
  intro notes
  refine ⟨grows, sound hs, fun a ha => ?_⟩
  obtain rfl := Except.ok.inj ha
  exact h

theorem grows_alter (hs : s.Sound) {f : Store → Store} (h : s.Sound → s.GrowsTo (f s) ∧ (f s).Sound) :
    Grows s (alter f) fun _ _ => True := fun _ => ⟨(h hs).1, (h hs).2, fun _ _ => trivial⟩

theorem grows_newList (hs : s.Sound) (items : List Value) :
    Grows s (newList items) fun t v => t.list? v = some items ∧ ∀ p, ¬ t.Holds p v := by
  refine grows_make hs ((Store.GrowsTo.refl s).alloc fun r ⟨_, _, _, h, _⟩ => nomatch h)
    (·.alloc_of_not_object (by simp)) ⟨?_, fun p hp => ?_⟩
  · exact Store.list?_eq_some.mpr ⟨_, rfl, Store.cell?_alloc_new s _⟩
  · rcases Store.holds_alloc_cases hp with hold | ⟨_, _, _, _, h, _⟩
    · obtain ⟨r, items, hr, hlist⟩ := hs.list_of_holds hold
      obtain rfl := Value.ref.inj hr
      exact absurd (Store.index_lt hlist) (by simp)
    · cases h

end Change

end Manuscript
