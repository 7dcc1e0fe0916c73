import Manuscript.Proofs.Copies
import Manuscript.Store.Builder
/-!
# Objects that fit

A store is sound if every object holds what its kind admits, in a list that no other object holds unless it may hold
the same. New cells leave a sound store sound, and so does to go through an iterator.
-/
namespace Manuscript

namespace Kind

/-- The field with the list of what an object holds. -/
def listField? : Kind → Option String
  | table => some "rows"
  | kind => kind.itemField?

/-- Whether an object may hold another one in its list. -/
def mayHold : Kind → Kind → Bool
  | paragraph, k => k.isInline
  | sectioning, k | document, k => k.isBlock
  | preamble, k => k.isPreambleEntry
  | align, k => k == equation
  | list, k => k == item
  | table, k => k == tableRow
  | _, _ => false

/-- Objects of two kinds may hold the same in their lists. Rows are left out: they hold texts, and no more of them
than they have columns. -/
def HoldsLike (k other : Kind) : Prop :=
  k ≠ tableRow ∧ other ≠ tableRow ∧ ∀ child, k.mayHold child = other.mayHold child

theorem HoldsLike.symm {k other : Kind} (h : k.HoldsLike other) : other.HoldsLike k :=
  ⟨h.2.1, h.1, fun child => (h.2.2 child).symm⟩

/-- The fields that decide whether an object fits. -/
def bearing : Kind → List String
  | bold | italic | paragraph => ["content"]
  | sectioning | preamble => ["elements"]
  | document => ["preamble", "elements"]
  | align => ["equations"]
  | list => ["items"]
  | tableRow => ["cells", "columns"]
  | table => ["rows"]
  | _ => []

theorem mem_bearing {kind : Kind} {name : String} (h : kind.listField? = some name) :
    name ∈ kind.bearing := by
  cases kind <;> simp_all [listField?, itemField?, bearing]

end Kind

namespace Cell

def isIterator : Cell → Bool
  | iterator _ => true
  | _ => false

/-- The value of a field, by its name. -/
def fieldIn (fields : List (String × Value)) (name : String) : Value := (fields.lookup name).getD .none

theorem fieldIn_cons (key : String) (v : Value) (fields : List (String × Value)) (name : String) :
    fieldIn ((key, v) :: fields) name = if name = key then v else fieldIn fields name := by
  by_cases h : name = key
  · simp [fieldIn, h]
  · have hne : (name == key) = false := by simpa using h
    simp [fieldIn, List.lookup_cons, h, hne]

/-- The cell of an object holds the value in the field for its list. -/
def Holds (c : Cell) (v : Value) : Prop :=
  ∃ kind fields name, c = object kind fields ∧ kind.listField? = some name ∧ fieldIn fields name = v

end Cell

namespace Store

open Cell (fieldIn)

/-- The items of a list. -/
def list? (s : Store) (v : Value) : Option (List Value) :=
  match s.target? v with
  | some (.sequence .list items) => some items
  | _ => none

/-- Whether an object of a kind may hold a value in its list. Rows hold texts. -/
def mayHold (s : Store) (kind : Kind) (v : Value) : Bool :=
  match kind, v with
  | .tableRow, .atom (.text _) => true
  | .tableRow, _ => false
  | kind, v => (s.kind? v).any kind.mayHold

/-- An object fits if its list, its content and its preamble are of the right kinds, and if it records no
fewer columns than it has cells. -/
structure Fits (s : Store) (kind : Kind) (field : String → Value) : Prop where
  listed : ∀ name, kind.listField? = some name →
    ∃ items, s.list? (field name) = some items ∧ ∀ v ∈ items, s.mayHold kind v = true
  wrapped : kind = .bold ∨ kind = .italic → (s.kind? (field "content")).any Kind.isInline = true
  front : kind = .document → s.kind? (field "preamble") = some .preamble
  counted : kind = .tableRow → ∀ items, s.list? (field "cells") = some items →
    field "columns" = .none ∨ ∃ n : Int, (field "columns").asInt? = some n ∧ items.length ≤ n

def Holds (s : Store) (r : Ref) (v : Value) : Prop := ∃ c, s.cell? r = some c ∧ c.Holds v

/-- Two objects may hold the same in their lists. -/
def HoldAlike (s : Store) (p q : Ref) : Prop :=
  ∃ k other, s.kind? (.ref p) = some k ∧ s.kind? (.ref q) = some other ∧ k.HoldsLike other

structure Sound (s : Store) : Prop where
  fits : ∀ r kind fields, s.cell? r = some (.object kind fields) → s.Fits kind (fieldIn fields)
  shared : ∀ p q v, s.Holds p v → s.Holds q v → p = q ∨ s.HoldAlike p q

/-- A store is kept if all of its cells are as before. Iterators may have been gone through. -/
def Keeps (s t : Store) : Prop := ∀ r c, s.cell? r = some c → c.isIterator = false → t.cell? r = some c

/-- A store grows if it is kept, and if objects hold old lists only if they did before. -/
structure GrowsTo (s t : Store) : Prop where
  size : s.cells.size ≤ t.cells.size
  keeps : s.Keeps t
  holds : ∀ p r, r.index < s.cells.size → t.Holds p (.ref r) → s.Holds p (.ref r)

variable {s t u : Store} {v : Value} {kind : Kind} {field other : String → Value} {p q r : Ref} {c d : Cell}

theorem kind?_eq_some :
    s.kind? v = some kind ↔ ∃ r fields, v = .ref r ∧ s.cell? r = some (.object kind fields) := by
  constructor
  · intro h
    cases v with
    | atom a => cases h
    | ref r =>
      simp only [kind?, target?, Value.ref?, Option.bind_some] at h
      split at h
      · rename_i k fields hcell
        obtain rfl := Option.some.inj h
        exact ⟨r, fields, rfl, hcell⟩
      · cases h
  · rintro ⟨r, fields, rfl, hcell⟩
    simp [kind?, target?, Value.ref?, hcell]

theorem list?_eq_some {items : List Value} :
    s.list? v = some items ↔ ∃ r, v = .ref r ∧ s.cell? r = some (.sequence .list items) := by
  constructor
  · intro h
    cases v with
    | atom a => cases h
    | ref r =>
      simp only [list?, target?, Value.ref?, Option.bind_some] at h
      split at h
      · rename_i found hcell
        obtain rfl := Option.some.inj h
        exact ⟨r, rfl, hcell⟩
      · cases h
  · rintro ⟨r, rfl, hcell⟩
    simp [list?, target?, Value.ref?, hcell]

theorem object_ne_list {fields : List (String × Value)} {items : List Value}
    (hp : s.cell? p = some (.object kind fields)) (hq : s.cell? q = some (.sequence .list items)) : p ≠ q := by
  rintro rfl
  simp [hp] at hq

theorem any_kind?_mono {w : Value} {p : Kind → Bool} (kinds : ∀ k, s.kind? v = some k → t.kind? w = some k)
    (h : (s.kind? v).any p = true) : (t.kind? w).any p = true := by
  obtain ⟨k, hk, hp⟩ := (Option.any_eq_true _ _).mp h
  exact (Option.any_eq_true _ _).mpr ⟨k, kinds k hk, hp⟩

theorem mayHold_eq_any (h : kind ≠ .tableRow) (v : Value) :
    s.mayHold kind v = (s.kind? v).any kind.mayHold := by
  cases kind <;> first | rfl | exact absurd rfl h

theorem mayHold_tableRow : s.mayHold .tableRow v = true ↔ ∃ text, v = .text text := by
  constructor
  · intro h
    unfold mayHold at h
    split at h
    · exact ⟨_, rfl⟩
    · cases h
    · contradiction
  · rintro ⟨text, rfl⟩
    rfl

theorem mayHold_mono (kinds : ∀ v k, s.kind? v = some k → t.kind? v = some k)
    (h : s.mayHold kind v = true) : t.mayHold kind v = true := by
  by_cases hrow : kind = .tableRow
  · subst hrow
    exact mayHold_tableRow.mpr (mayHold_tableRow.mp h)
  · rw [mayHold_eq_any hrow] at h ⊢
    exact any_kind?_mono (kinds v) h

theorem mayHold_of_holdsLike {other : Kind} (hlike : kind.HoldsLike other) (h : s.mayHold other v = true) :
    s.mayHold kind v = true := by
  rw [mayHold_eq_any hlike.2.1] at h
  rw [mayHold_eq_any hlike.1, funext hlike.2.2]
  exact h

theorem HoldAlike.mono (kinds : ∀ v k, s.kind? v = some k → t.kind? v = some k) (h : s.HoldAlike p q) :
    t.HoldAlike p q := by
  obtain ⟨k, other, hk, hother, hlike⟩ := h
  exact ⟨k, other, kinds _ _ hk, kinds _ _ hother, hlike⟩

theorem HoldAlike.symm (h : s.HoldAlike p q) : s.HoldAlike q p := by
  obtain ⟨k, other, hk, hother, hlike⟩ := h
  exact ⟨other, k, hother, hk, hlike.symm⟩

/-- What an object holds fits elsewhere if all is of its kind there and the list is the same. -/
theorem Fits.transport (h : s.Fits kind field) (kinds : ∀ v k, s.kind? v = some k → t.kind? v = some k)
    (lists : ∀ name, kind.listField? = some name → t.list? (field name) = s.list? (field name)) :
    t.Fits kind field where
  listed name hname := by
    obtain ⟨items, hitems, hmay⟩ := h.listed name hname
    exact ⟨items, (lists name hname).trans hitems, fun v hv => mayHold_mono kinds (hmay v hv)⟩
  wrapped hkind := any_kind?_mono (kinds _) (h.wrapped hkind)
  front hkind := kinds _ _ (h.front hkind)
  counted hkind items hitems := by
    subst hkind
    exact h.counted rfl items ((lists "cells" rfl).symm.trans hitems)

/-- Only some fields decide whether an object fits. -/
theorem Fits.congr (h : s.Fits kind field) (agree : ∀ name ∈ kind.bearing, other name = field name) :
    s.Fits kind other where
  listed name hname := by
    rw [agree name (Kind.mem_bearing hname)]
    exact h.listed name hname
  wrapped hkind := by
    rw [agree "content" (by rcases hkind with rfl | rfl <;> decide)]
    exact h.wrapped hkind
  front hkind := by
    rw [agree "preamble" (by subst hkind; decide)]
    exact h.front hkind
  counted hkind := by
    rw [agree "cells" (by subst hkind; decide), agree "columns" (by subst hkind; decide)]
    exact h.counted hkind

/-- Of most kinds every object fits. -/
theorem fits_of_bearing (h : kind.bearing = []) : s.Fits kind field where
  listed name hname := by
    have hmem := Kind.mem_bearing hname
    rw [h] at hmem
    cases hmem
  wrapped hkind := by rcases hkind with rfl | rfl <;> cases h
  front hkind := by subst hkind; cases h
  counted hkind := by subst hkind; cases h

theorem Sound.list_of_holds (h : s.Sound) (hp : s.Holds p v) :
    ∃ r items, v = .ref r ∧ s.cell? r = some (.sequence .list items) := by
  obtain ⟨c, hcell, kind, fields, name, rfl, hname, rfl⟩ := hp
  obtain ⟨items, hitems, _⟩ := (h.fits p kind fields hcell).listed name hname
  obtain ⟨r, hr, hlist⟩ := list?_eq_some.mp hitems
  exact ⟨r, items, hr, hlist⟩

theorem Keeps.kind? (h : s.Keeps t) (v : Value) (k : Kind) (hv : s.kind? v = some k) :
    t.kind? v = some k := by
  obtain ⟨r, fields, rfl, hcell⟩ := kind?_eq_some.mp hv
  exact kind?_eq_some.mpr ⟨r, fields, rfl, h r _ hcell rfl⟩

theorem Keeps.list? (h : s.Keeps t) {items : List Value} (hv : s.list? v = some items) :
    t.list? v = some items := by
  obtain ⟨r, rfl, hcell⟩ := list?_eq_some.mp hv
  exact list?_eq_some.mpr ⟨r, rfl, h r _ hcell rfl⟩

/-- What fits still fits in a store that is kept. -/
theorem Keeps.fits (h : s.Keeps t) (hfits : s.Fits kind field) : t.Fits kind field := by
  refine hfits.transport h.kind? fun name hname => ?_
  obtain ⟨items, hitems, _⟩ := hfits.listed name hname
  rw [hitems, h.list? hitems]

/-- A sound store that is kept stays sound if the new objects fit and only such objects hold one list as may hold the
same. -/
theorem Keeps.sound (h : s.Keeps t) (hs : s.Sound)
    (new : ∀ r kind fields, t.cell? r = some (.object kind fields) →
      s.cell? r = some (.object kind fields) ∨ t.Fits kind (fieldIn fields))
    (shared : ∀ p q v, t.Holds p v → t.Holds q v → p = q ∨ t.HoldAlike p q) : t.Sound where
  fits r kind fields hcell := by
    rcases new r kind fields hcell with hold | hnew
    · exact h.fits (hs.fits r kind fields hold)
    · exact hnew
  shared := shared

theorem GrowsTo.refl (s : Store) : s.GrowsTo s :=
  ⟨Nat.le_refl _, fun _ _ h _ => h, fun _ _ _ h => h⟩

theorem GrowsTo.trans (hst : s.GrowsTo t) (htu : t.GrowsTo u) : s.GrowsTo u where
  size := Nat.le_trans hst.size htu.size
  keeps r c h hc := htu.keeps r c (hst.keeps r c h hc) hc
  holds p r hr h := hst.holds p r hr (htu.holds p r (Nat.lt_of_lt_of_le hr hst.size) h)

/-! ## New cells -/

theorem cell?_alloc_new (s : Store) (c : Cell) : (s.alloc c).1.cell? ⟨s.cells.size⟩ = some c := by
  simp [alloc, cell?]

theorem cell?_alloc_of_some (h : s.cell? r = some d) (c : Cell) : (s.alloc c).1.cell? r = some d :=
  (cell?_alloc s c r (index_lt h)).trans h

theorem cell?_alloc_cases (h : (s.alloc c).1.cell? r = some d) :
    s.cell? r = some d ∨ r = ⟨s.cells.size⟩ ∧ d = c := by
  by_cases hold : r.index < s.cells.size
  · exact .inl ((cell?_alloc s c r hold).symm.trans h)
  · have hlt := index_lt h
    simp only [alloc, Array.size_push] at hlt
    obtain rfl : r = ⟨s.cells.size⟩ := by
      cases r
      simp only [Ref.mk.injEq] at hold hlt ⊢
      omega
    exact .inr ⟨rfl, Option.some.inj (h.symm.trans (cell?_alloc_new s c))⟩

theorem keeps_alloc (s : Store) (c : Cell) : s.Keeps (s.alloc c).1 :=
  fun _ _ h _ => cell?_alloc_of_some h c

theorem holds_alloc_cases (h : (s.alloc c).1.Holds p v) : s.Holds p v ∨ p = ⟨s.cells.size⟩ ∧ c.Holds v := by
  obtain ⟨d, hcell, hd⟩ := h
  rcases cell?_alloc_cases hcell with hold | ⟨rfl, rfl⟩
  · exact .inl ⟨d, hold, hd⟩
  · exact .inr ⟨rfl, hd⟩

/-- A new cell leaves a store sound if it is not that of an object, or of one that fits and whose list only objects
hold that may hold the same. -/
theorem Sound.alloc (hs : s.Sound) (fits : ∀ kind fields, c = .object kind fields →
      (s.alloc c).1.Fits kind (fieldIn fields))
    (shared : ∀ p v, c.Holds v → s.Holds p v → (s.alloc c).1.HoldAlike ⟨s.cells.size⟩ p) :
    (s.alloc c).1.Sound := by
  refine (keeps_alloc s c).sound hs (fun r kind fields h => ?_) fun p q v hp hq => ?_
  · rcases cell?_alloc_cases h with hold | ⟨rfl, hc⟩
    · exact .inl hold
    · exact .inr (fits kind fields hc.symm)
  · rcases holds_alloc_cases hp with hp | ⟨rfl, hpc⟩ <;> rcases holds_alloc_cases hq with hq | ⟨rfl, hqc⟩
    · exact (hs.shared p q v hp hq).imp_right (·.mono (keeps_alloc s c).kind?)
    · exact .inr (shared p v hqc hp).symm
    · exact .inr (shared q v hpc hq)
    · exact .inl rfl

/-- A store that has grown grows further by a cell that holds no old list. -/
theorem GrowsTo.alloc (h : s.GrowsTo t) (new : ∀ r, c.Holds (.ref r) → s.cells.size ≤ r.index) :
    s.GrowsTo (t.alloc c).1 where
  size := Nat.le_trans h.size (by simp [Store.alloc])
  keeps r d hr hd := cell?_alloc_of_some (h.keeps r d hr hd) c
  holds p r hr hp := by
    rcases holds_alloc_cases hp with hp | ⟨rfl, hc⟩
    · exact h.holds p r hr hp
    · exact absurd hr (Nat.not_lt.mpr (new r hc))

/-! ## Iterators -/

theorem cell?_put_iterator {items : List Value} {rest : List Value} (h : s.cell? r = some (.iterator items))
    (hq : (s.put r (.iterator rest)).cell? q = some c) (hc : c.isIterator = false) :
    s.cell? q = some c := by
  by_cases heq : q = r
  · subst heq
    rw [cell?_put_self s q _ (index_lt h)] at hq
    obtain rfl := Option.some.inj hq
    cases hc
  · rwa [cell?_put_of_ne s r q _ heq] at hq

/-- To go through an iterator changes nothing else. -/
theorem growsTo_put_iterator {items rest : List Value} (h : s.cell? r = some (.iterator items)) :
    s.GrowsTo (s.put r (.iterator rest)) where
  size := by simp [put]
  keeps q c hq hc := by
    have hne : q ≠ r := by
      rintro rfl
      rw [h] at hq
      obtain rfl := Option.some.inj hq
      cases hc
    exact (cell?_put_of_ne s r q _ hne).trans hq
  holds p q _ := by
    rintro ⟨c, hcell, hc⟩
    obtain ⟨kind, fields, name, rfl, _, _⟩ := id hc
    exact ⟨_, cell?_put_iterator h hcell rfl, hc⟩

theorem Sound.put_iterator {items rest : List Value} (hs : s.Sound) (h : s.cell? r = some (.iterator items)) :
    (s.put r (.iterator rest)).Sound := by
  refine (growsTo_put_iterator h).keeps.sound hs
    (fun q kind fields hq => .inl (cell?_put_iterator h hq rfl)) fun p q v hp hq => ?_
  have hback : ∀ p, (s.put r (.iterator rest)).Holds p v → s.Holds p v := by
    rintro p ⟨c, hcell, hc⟩
    obtain ⟨kind, fields, name, rfl, _, _⟩ := id hc
    exact ⟨_, cell?_put_iterator h hcell rfl, hc⟩
  exact (hs.shared p q v (hback p hp) (hback q hq)).imp_right (·.mono (growsTo_put_iterator h).keeps.kind?)

end Store

end Manuscript
