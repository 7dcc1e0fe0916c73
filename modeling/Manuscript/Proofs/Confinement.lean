import Manuscript.Proofs.Building
import Manuscript.Proofs.Reaching
/-!
# Where changes reach

A change works within a set of references if these refer to nothing else: what it is given lies in the set, what
it makes is new, and so what it gives lies in the set too. All other cells are as before, even if it ends in a
fault. Every call is such a change.
-/
namespace Manuscript

/-- A value refers to nothing outside of a set of references. -/
def Value.In (P : Ref → Prop) (v : Value) : Prop := ∀ r, v = .ref r → P r

namespace Value

variable {P : Ref → Prop}

@[simp] theorem in_atom (a : Atom) : (atom a).In P := nofun

@[simp] theorem in_none : none.In P := in_atom _

@[simp] theorem in_text (s : String) : (text s).In P := in_atom _

@[simp] theorem in_bool (b : Bool) : (bool b).In P := in_atom _

@[simp] theorem in_int (i : Int) : (int i).In P := in_atom _

theorem in_ref {r : Ref} : (ref r).In P ↔ P r :=
  ⟨fun h => h r rfl, fun h _ hq => Value.ref.inj hq ▸ h⟩

end Value

namespace ColumnSettings

variable {α : Type}

/-- All settings of columns meet a condition. -/
def All (Q : α → Prop) : ColumnSettings α → Prop
  | typed columns => ∀ c ∈ columns, Q c
  | keyed entries => ∀ e ∈ entries, Q e.2
  | raw _ | unsized _ | unsuited _ => True

end ColumnSettings

namespace Columns

variable {α : Type} {Q : α → Prop} {standard : α} {columns : List α} {n : Nat}

theorem exists_of_bind {β γ ε : Type} {x : Except ε β} {f : β → Except ε γ} {c : γ} (h : x >>= f = .ok c) :
    ∃ b, x = .ok b ∧ f b = .ok c := by
  cases x with
  | error e => cases h
  | ok b => exact ⟨b, rfl, h⟩

theorem forall_mem_of_mapM {β γ ε : Type} {R : γ → Prop} {f : β → Except ε γ} {bs : List β} {cs : List γ}
    (h : bs.mapM f = .ok cs) (hf : ∀ b c, f b = .ok c → R c) : ∀ c ∈ cs, R c := by
  induction bs generalizing cs with
  | nil =>
    obtain rfl := Except.ok.inj h
    simp
  | cons b bs ih =>
    rw [List.mapM_cons] at h
    obtain ⟨c, hc, h⟩ := exists_of_bind h
    obtain ⟨rest, hrest, h⟩ := exists_of_bind h
    obtain rfl := Except.ok.inj h
    exact List.forall_mem_cons.mpr ⟨hf b c hc, ih hrest⟩

theorem effective_all {given : List α} (h : ∀ c ∈ given, Q c) (hs : Q standard) :
    ∀ c ∈ effective given standard n, Q c := by
  intro c hc
  rcases List.mem_append.mp (List.mem_of_mem_take hc) with hc | hc
  · exact h c hc
  · rw [List.eq_of_mem_replicate hc, beyond]
    cases hlast : given.getLast? with
    | none => exact hs
    | some last => exact h last (List.mem_of_getLast? hlast)

theorem entry_all {entries : List (Datum × α)} (h : ∀ e ∈ entries, Q e.2) {key : Int} {c : α}
    (hc : entry entries key = .ok c) : Q c := by
  unfold entry at hc
  split at hc
  · rename_i e he
    obtain rfl := Except.ok.inj hc
    exact h e (List.mem_of_find?_eq_some he)
  · cases hc

theorem keyed_all {entries : List (Datum × α)} (h : ∀ e ∈ entries, Q e.2) (hs : Q standard)
    (hcolumns : keyed entries standard n = .ok columns) : ∀ c ∈ columns, Q c := by
  obtain ⟨given, hgiven, hrest⟩ := exists_of_bind hcolumns
  have hall : ∀ c ∈ given, Q c := forall_mem_of_mapM hgiven fun _ _ hc => entry_all h hc
  have hlonger {last : α} (hl : Q last) : ∀ c ∈ given ++ List.replicate (n - entries.length) last, Q c :=
    List.forall_mem_append.mpr ⟨hall, fun c hc => List.eq_of_mem_replicate hc ▸ hl⟩
  dsimp only at hrest
  split_ifs at hrest
  · obtain rfl := Except.ok.inj hrest
    exact hall
  · obtain rfl := Except.ok.inj hrest
    exact hlonger hs
  · obtain ⟨last, hlast, hend⟩ := exists_of_bind hrest
    obtain rfl := Except.ok.inj hend
    exact hlonger (entry_all h hlast)

theorem resolved_all {settings : ColumnSettings α} (h : settings.All Q) (hs : Q standard)
    (hcolumns : resolved settings standard n = .ok columns) : ∀ c ∈ columns, Q c := by
  cases settings with
  | typed given =>
    obtain rfl := Except.ok.inj hcolumns
    exact effective_all h hs
  | keyed entries => exact keyed_all h hs hcolumns
  | unsized typeName =>
    simp only [resolved] at hcolumns
    split_ifs at hcolumns
    obtain rfl := Except.ok.inj hcolumns
    simp
  | raw spec => cases hcolumns
  | unsuited f => cases hcolumns

theorem repeated_all {d : Datum} (hs : Q standard) (hcolumns : repeated standard d = .ok columns) :
    ∀ c ∈ columns, Q c := by
  unfold repeated at hcolumns
  split at hcolumns
  · split_ifs at hcolumns
    obtain rfl := Except.ok.inj hcolumns
    exact fun c hc => List.eq_of_mem_replicate hc ▸ hs
  · cases hcolumns

end Columns

namespace Store

variable {s t u : Store} {P : Ref → Prop} {v w : Value} {r : Ref} {c : Cell} {name : String}

/-- The references of a set refer to one another only, and those that are still to be given out are among them. -/
structure Confined (s : Store) (P : Ref → Prop) : Prop where
  new : ∀ r : Ref, s.cells.size ≤ r.index → P r
  closed : ∀ r c, P r → s.cell? r = some c → ∀ w ∈ c.values, w.In P

/-- One store comes from another one by a change within a set of references. -/
structure Inside (s : Store) (P : Ref → Prop) (t : Store) : Prop where
  confined : t.Confined P
  outside : ∀ r, ¬P r → t.cell? r = s.cell? r
  size : s.cells.size ≤ t.cells.size

theorem Inside.trans (h : s.Inside P t) (h' : t.Inside P u) : s.Inside P u :=
  ⟨h'.confined, fun r hr => (h'.outside r hr).trans (h.outside r hr), Nat.le_trans h.size h'.size⟩

namespace Confined

theorem refl (h : s.Confined P) : s.Inside P s := ⟨h, fun _ _ => rfl, Nat.le_refl _⟩

/-! ## Reading -/

theorem of_target (h : s.Confined P) (hv : v.In P) (hc : s.target? v = some c) : ∀ w ∈ c.values, w.In P := by
  cases v with
  | atom a => cases hc
  | ref r => exact h.closed r c (hv r rfl) hc

theorem field (h : s.Confined P) (hv : v.In P) (hw : s.field? v name = some w) : w.In P := by
  unfold field? at hw
  split at hw
  · rename_i kind fields hc
    obtain ⟨before, after, rfl, -⟩ := List.lookup_eq_some_iff.mp hw
    exact h.of_target hv hc w (by simp [Cell.values])
  · cases hw

theorem field_getD (h : s.Confined P) (hv : v.In P) : ((s.field? v name).getD .none).In P := by
  cases hw : s.field? v name with
  | none => exact Value.in_none
  | some w => exact h.field hv hw

theorem attributeOf (h : s.Confined P) (hv : v.In P) (hw : s.attribute? v name = some w) : w.In P := by
  unfold attribute? at hw
  split at hw
  · obtain ⟨a, -, rfl⟩ := Option.map_eq_some_iff.mp hw
    exact Value.in_atom a
  · exact h.field hv hw

theorem atomItems_in {a : Atom} {items : List Value} (h : atomItems? a = some items) : ∀ w ∈ items, w.In P := by
  unfold atomItems? at h
  split at h
  · obtain rfl := Option.some.inj h
    simp
  · obtain ⟨e, -, rfl⟩ := Option.map_eq_some_iff.mp h
    simp
  · obtain ⟨text, -, rfl⟩ := Option.map_eq_some_iff.mp h
    simp

/-- What a value gives lies where the value does, and so does the iterator that it comes from. -/
theorem supplyTo (h : s.Confined P) (hv : v.In P) (depth : Nat) :
    (∀ w ∈ (s.supplyTo depth v).2, w.In P) ∧
      ∀ typeName source, (s.supplyTo depth v).1 = .unsized typeName (some source) → P source := by
  induction depth generalizing v with
  | zero =>
    cases v with
    | atom a =>
      simp only [Store.supplyTo]
      split
      · rename_i items hitems
        exact ⟨atomItems_in hitems, by simp⟩
      · simp
    | ref r => simp [Store.supplyTo]
  | succ depth ih =>
    cases v with
    | atom a =>
      simp only [Store.supplyTo]
      split
      · rename_i items hitems
        exact ⟨atomItems_in hitems, by simp⟩
      · simp
    | ref r =>
      have hr := hv r rfl
      simp only [Store.supplyTo]
      split
      · rename_i shape items hc
        exact ⟨h.closed r _ hr hc, by simp⟩
      · rename_i entries hc
        refine ⟨fun w hw => h.closed r _ hr hc w ?_, by simp⟩
        obtain ⟨e, he, rfl⟩ := List.mem_map.mp hw
        exact List.mem_flatMap.mpr ⟨e, he, by simp⟩
      · rename_i items hc
        refine ⟨h.closed r _ hr hc, fun typeName source hsource => ?_⟩
        obtain ⟨-, hsame⟩ := Supply.unsized.inj hsource
        exact Option.some.inj hsame ▸ hr
      · rename_i kind fields hc
        split
        · simp
        · rename_i field hfield
          obtain ⟨name, -, hname⟩ := Option.bind_eq_some_iff.mp hfield
          have hin : field.In P := by
            obtain ⟨before, after, rfl, -⟩ := List.lookup_eq_some_iff.mp hname
            exact h.closed r _ hr hc field (by simp [Cell.values])
          obtain ⟨hitems, hsource⟩ := ih hin
          split <;> rename_i hsupply <;> rw [hsupply] at hitems hsource
          · exact ⟨hitems, by simp⟩
          · rename_i typeName source items
            refine ⟨hitems, fun _ r hs => hsource typeName r ?_⟩
            rw [(Supply.unsized.inj hs).2]
          · exact ⟨hitems, by simp⟩
      · simp

theorem supply (h : s.Confined P) (hv : v.In P) :
    (∀ w ∈ (s.supply v).2, w.In P) ∧
      ∀ typeName source, (s.supply v).1 = .unsized typeName (some source) → P source :=
  h.supplyTo hv s.depth

theorem columnsOf (h : s.Confined P) (hv : v.In P) : (s.columnsOf v).All (·.In P) := by
  unfold Store.columnsOf
  split
  · rename_i entries hc
    intro e he
    obtain ⟨x, hx, rfl⟩ := List.mem_map.mp he
    exact h.of_target hv hc x.2 (List.mem_flatMap.mpr ⟨x, hx, by simp⟩)
  · split
    · intro e he
      obtain ⟨x, -, rfl⟩ := List.mem_map.mp he
      exact Value.in_atom _
    · trivial
  · split
    · rename_i items hsupply
      have hitems := (h.supply hv).1
      rw [hsupply] at hitems
      exact hitems
    · trivial

theorem settingsOf (h : s.Confined P) (hv : v.In P) : (s.settingsOf v).All (·.In P) := by
  unfold Store.settingsOf
  split
  · trivial
  · rename_i columns hcolumns _
    exact h.columnsOf (h.attributeOf hv hcolumns)
  · trivial

/-! ## Writing -/

theorem put (h : s.Confined P) (hr : P r) (hc : ∀ w ∈ c.values, w.In P) : s.Inside P (s.put r c) := by
  have hsize : (s.put r c).cells.size = s.cells.size := by simp [Store.put]
  refine ⟨⟨fun q hq => h.new q (hsize ▸ hq), fun q d hq hd => ?_⟩, fun q hq => ?_, Nat.le_of_eq hsize.symm⟩
  · by_cases heq : q = r
    · subst heq
      rw [cell?_put_self s q c (hsize ▸ index_lt hd)] at hd
      exact Option.some.inj hd ▸ hc
    · exact h.closed q d hq ((cell?_put_of_ne s r q c heq).symm.trans hd)
  · exact cell?_put_of_ne s r q c fun heq => hq (heq ▸ hr)

theorem alloc (h : s.Confined P) (hc : ∀ w ∈ c.values, w.In P) :
    s.Inside P (s.alloc c).1 ∧ (s.alloc c).2.In P := by
  have hsize : (s.alloc c).1.cells.size = s.cells.size + 1 := by simp [Store.alloc]
  have hnew : P ⟨s.cells.size⟩ := h.new _ (Nat.le_refl _)
  refine ⟨⟨⟨fun q hq => h.new q (by omega), fun q d hq hd => ?_⟩, fun q hq => ?_, by omega⟩, Value.in_ref.mpr hnew⟩
  · rcases cell?_alloc_cases hd with hold | ⟨-, rfl⟩
    · exact h.closed q d hq hold
    · exact hc
  · exact cell?_alloc s c q (Nat.lt_of_not_le fun hle => hq (h.new q hle))

theorem mint (h : s.Confined P) : s.Inside P s.mint.1 :=
  ⟨⟨h.new, h.closed⟩, fun _ _ => rfl, Nat.le_refl _⟩

theorem twin_in (h : s.Confined P) (hw : w.In P) : (s.twinIn v w).In P := by
  intro q hq
  obtain ⟨r, rfl⟩ := exists_ref_of_twinIn hq
  by_cases hr : r ∈ s.reachable v
  · exact h.new q (size_le_of_twinIn hq hr)
  · have hidx : (s.reachable v).idxOf? r = none := List.idxOf?_eq_none_iff.mpr hr
    simp only [twinIn, twin, hidx, Value.ref.injEq] at hq
    exact hq ▸ hw r rfl

/-- A copy of a value in the set is made of new cells. -/
theorem copy (h : s.Confined P) (hv : v.In P) : s.Inside P (s.copy v).1 ∧ (s.copy v).2.In P := by
  have hsize := size_le_copy s v
  have hreach : ∀ r ∈ s.reachable v, P r :=
    reachable_subset hv fun r c hr hc q hq => h.closed r c hr hc _ (mem_refs.mp hq) q rfl
  refine ⟨⟨⟨fun q hq => h.new q (Nat.le_trans hsize hq), fun q d hq hd => ?_⟩, fun q hq => ?_, hsize⟩,
    h.twin_in hv⟩
  · rcases cell?_copy_cases hd with hold | ⟨i, r, e, -, hi, he, rfl⟩
    · exact h.closed q d hq hold
    · rw [Cell.values_mapValues]
      exact List.forall_mem_map.mpr fun w hw =>
        h.twin_in (h.closed r e (hreach r (List.mem_of_getElem? hi)) he w hw)
  · exact cell?_copy s v q (Nat.lt_of_not_le fun hle => hq (h.new q hle))

theorem setField (h : s.Confined P) (hv : v.In P) {new : Value} (hn : new.In P) :
    s.Inside P (s.setField v name new) := by
  unfold Store.setField
  split
  · rename_i r
    split
    · rename_i kind fields hc
      have hold : ∀ e ∈ fields, e.2.In P := fun e he =>
        h.closed r _ (hv r rfl) hc e.2 (List.mem_map.mpr ⟨e, he, rfl⟩)
      refine h.put (hv r rfl) fun w hw => ?_
      obtain ⟨e, he, rfl⟩ := List.mem_map.mp hw
      split_ifs at he
      · obtain ⟨x, hx, rfl⟩ := List.mem_map.mp he
        split_ifs
        · exact hn
        · exact hold x hx
      · rcases List.mem_append.mp he with he | he
        · exact hold e he
        · obtain rfl := List.mem_singleton.mp he
          exact hn
    · exact h.refl
  · exact h.refl

theorem setItems (h : s.Confined P) (hv : v.In P) {f : List Value → List Value}
    (hf : ∀ items, (∀ w ∈ items, w.In P) → ∀ w ∈ f items, w.In P) : s.Inside P (s.setItems v f) := by
  unfold Store.setItems
  split
  · rename_i r
    split
    · rename_i items hc
      exact h.put (hv r rfl) (hf items (h.closed r _ (hv r rfl) hc))
    · exact h.refl
  · exact h.refl

theorem mergedEntries {entries : List (Value × Value)} (h : ∀ e ∈ entries, e.1.In P ∧ e.2.In P) :
    ∀ e ∈ s.mergedEntries entries, e.1.In P ∧ e.2.In P := by
  induction entries with
  | nil => simp [Store.mergedEntries]
  | cons e entries ih =>
    obtain ⟨k, v⟩ := e
    obtain ⟨hfirst, hrest⟩ := List.forall_mem_cons.mp h
    have hmerged := ih hrest
    simp only [Store.mergedEntries]
    refine List.forall_mem_cons.mpr ⟨⟨hfirst.1, ?_⟩, fun e he => hmerged e (List.mem_filter.mp he).1⟩
    cases hfound : (s.mergedEntries entries).find? fun e => (s.datum e.1).sameItem (s.datum k) with
    | none => exact hfirst.2
    | some e => exact (hmerged e (List.mem_of_find?_eq_some hfound)).2

theorem setEntry (h : s.Confined P) (hv : v.In P) {key new : Value} (hk : key.In P) (hn : new.In P) :
    s.Inside P (s.setEntry v key new) := by
  unfold Store.setEntry
  split
  · rename_i r
    split
    · rename_i entries hc
      refine h.put (hv r rfl) fun w hw => ?_
      have hold : ∀ e ∈ entries ++ [(key, new)], e.1.In P ∧ e.2.In P := by
        refine List.forall_mem_append.mpr ⟨fun e he => ?_, by simpa using ⟨hk, hn⟩⟩
        have hvalues := h.closed r _ (hv r rfl) hc
        exact ⟨hvalues e.1 (List.mem_flatMap.mpr ⟨e, he, by simp⟩),
          hvalues e.2 (List.mem_flatMap.mpr ⟨e, he, by simp⟩)⟩
      obtain ⟨e, he, hw⟩ := List.mem_flatMap.mp hw
      have hin := mergedEntries hold e he
      simp only [List.mem_cons, List.not_mem_nil, or_false] at hw
      rcases hw with rfl | rfl
      · exact hin.1
      · exact hin.2
    · exact h.refl
  · exact h.refl

theorem taking (h : s.Confined P) (hr : P r) : s.Inside P (s.taking r) := by
  unfold Store.taking
  split
  · rename_i items hc
    exact h.put hr fun w hw => h.closed r _ hr hc w (List.mem_of_mem_tail hw)
  · exact h.refl

theorem takingAll (h : s.Confined P) {taken : List Ref} (ht : ∀ r ∈ taken, P r) :
    s.Inside P (s.takingAll taken) := by
  induction taken generalizing s with
  | nil => exact h.refl
  | cons r taken ih =>
    obtain ⟨hr, ht⟩ := List.forall_mem_cons.mp ht
    exact (h.taking hr).trans (ih (h.taking hr).confined ht)

end Confined

end Store

/-- The values that a call is given, besides the one that it is made on. -/
def Call.arguments : Call → List Value
  | push v | pushText v | pushAll v | pushItem v | pushRow v | setColumnSettings v | withAlignment v | setTitle v
  | setAuthor v | setLabel v | setArgument v => [v]
  | insertRow v w | replaceRow v w | replaceColumnSettings v w | usePackage v w | labelled v w => [v, w]
  | newCommand v w x => [v, w, x]
  | createUpdated changes => changes.map (·.2)
  | isEmpty | toTableRow | markNotNumbered => []

namespace Change

open Store (Confined)

variable {α β : Type} {P : Ref → Prop} {v w : Value} {kind : Kind} {name : String}

/-- A change works within a set of references, and what it gives meets a condition. -/
def Stays (P : Ref → Prop) (change : Change α) (post : α → Prop) : Prop :=
  ∀ draft, draft.store.Confined P → draft.store.Inside P (change.runOn draft).2.store ∧
    ∀ a, (change.runOn draft).1 = .ok a → post a

theorem stays_pure {post : α → Prop} {a : α} (h : post a) : Stays P (pure a) post :=
  fun _ hs => ⟨hs.refl, fun _ ha => Except.ok.inj ha ▸ h⟩

theorem stays_refuse {post : α → Prop} (f : Fault) : Stays P (refuse f) post := fun _ hs => ⟨hs.refl, nofun⟩

theorem Stays.bind {change : Change α} {next : α → Change β} {mid : α → Prop} {post : β → Prop}
    (h : Stays P change mid) (hnext : ∀ a, mid a → Stays P (next a) post) : Stays P (change >>= next) post := by
  intro draft hs
  obtain ⟨hinside, hmid⟩ := h draft hs
  rw [runOn_bind]
  rcases hrun : change.runOn draft with ⟨_ | a, after⟩ <;> rw [hrun] at hinside hmid
  · exact ⟨hinside, nofun⟩
  · obtain ⟨hmore, hpost⟩ := hnext a (hmid a rfl) after hinside.confined
    exact ⟨hinside.trans hmore, hpost⟩

theorem stays_look {f : Store → α} {post : α → Prop} (h : ∀ s, s.Confined P → post (f s)) :
    Stays P (look f) post :=
  fun draft hs => stays_pure (h draft.store hs) draft hs

theorem stays_look_bind {f : Store → α} {next : α → Change β} {post : β → Prop}
    (h : ∀ s, s.Confined P → Stays P (next (f s)) post) : Stays P (look f >>= next) post :=
  fun draft hs => h draft.store hs draft hs

theorem stays_settle {result : Except Fault α} {post : α → Prop} (h : ∀ a, result = .ok a → post a) :
    Stays P (settle result) post := by
  cases result with
  | ok a => exact stays_pure (h a rfl)
  | error f => exact stays_refuse f

theorem stays_alter {f : Store → Store} (h : ∀ s : Store, s.Confined P → s.Inside P (f s)) :
    Stays P (alter f) fun _ => True :=
  fun draft hs => ⟨h draft.store hs, fun _ _ => trivial⟩

theorem stays_altered (hv : v.In P) {f : Store → Store} (h : ∀ s : Store, s.Confined P → s.Inside P (f s)) :
    Stays P (alter f >>= fun _ => pure v) (·.In P) :=
  (stays_alter h).bind fun _ _ => stays_pure hv

theorem stays_make {f : Store → Store × Value}
    (h : ∀ s : Store, s.Confined P → s.Inside P (f s).1 ∧ (f s).2.In P) : Stays P (make f) (·.In P) :=
  fun draft hs => ⟨(h draft.store hs).1, fun _ ha => Except.ok.inj ha ▸ (h draft.store hs).2⟩

theorem stays_leave (note : Note) : Stays P (leave note) fun _ => True := fun _ hs => ⟨hs.refl, fun _ _ => trivial⟩

/-! ## Making and reading -/

theorem stays_newNan : Stays P newNan (·.In P) := stays_make fun _ hs => ⟨hs.mint, Value.in_atom _⟩

theorem stays_newList {items : List Value} (h : ∀ w ∈ items, w.In P) : Stays P (newList items) (·.In P) :=
  stays_make fun _ hs => hs.alloc h

theorem stays_newObject {fields : List (String × Value)} (h : ∀ e ∈ fields, e.2.In P) :
    Stays P (newObject kind fields) (·.In P) :=
  stays_make fun _ hs => hs.alloc (List.forall_mem_map.mpr h)

theorem stays_field (hv : v.In P) (name : String) : Stays P (field v name) (·.In P) :=
  stays_look fun _ hs => hs.field_getD hv

theorem stays_attributeOf (hv : v.In P) (name : String) : Stays P (attributeOf v name) (·.In P) := by
  refine stays_look_bind fun s hs => ?_
  split
  · rename_i w hw
    exact stays_pure (hs.attributeOf hv hw)
  · exact stays_look_bind fun _ _ => stays_refuse _

theorem stays_items (hv : v.In P) : Stays P (items v) fun found => ∀ w ∈ found, w.In P := by
  refine stays_look_bind fun s hs => ?_
  obtain ⟨hitems, hsource⟩ := hs.supply hv
  rcases hsupply : s.supply v with ⟨_ | ⟨typeName, _ | source⟩ | ⟨typeName, innermost, counts⟩, found⟩ <;>
    rw [hsupply] at hitems hsource
  · exact stays_pure hitems
  · exact stays_pure hitems
  · exact (stays_alter fun t ht => ht.put (hsource typeName source rfl) (by simp [Cell.values])).bind
      fun _ _ => stays_pure hitems
  · exact stays_refuse _

theorem stays_itemTexts (hv : v.In P) : Stays P (itemTexts v) fun _ => True :=
  (stays_items hv).bind fun _ _ => stays_look fun _ _ => trivial

theorem stays_requireList (v : Value) (name : String) : Stays P (requireList v name) fun _ => True := by
  refine stays_look_bind fun s hs => ?_
  split
  · exact stays_pure trivial
  · exact stays_look_bind fun _ _ => stays_refuse _

theorem stays_length (v : Value) : Stays P (length v) fun _ => True :=
  stays_look_bind fun _ _ => stays_settle fun _ _ => trivial

theorem stays_extend (hv : v.In P) {new : List Value} (h : ∀ w ∈ new, w.In P) :
    Stays P (extend v new) fun _ => True :=
  stays_alter fun _ hs => hs.setItems hv fun _ hold => List.forall_mem_append.mpr ⟨hold, h⟩

theorem stays_setTo (hv : v.In P) (hw : w.In P) (name : String) : Stays P (setTo v name w) (·.In P) :=
  stays_altered hv fun _ hs => hs.setField hv hw

/-! ## Conversions -/

theorem stays_newPlain (hv : v.In P) : Stays P (newPlain v) (·.In P) := stays_newObject (by simpa using hv)

theorem stays_newEquation (hv : v.In P) (hw : w.In P) : Stays P (newEquation v w) (·.In P) :=
  stays_newObject (by simpa using ⟨hv, hw⟩)

theorem stays_newHolder {items : List Value} (h : ∀ w ∈ items, w.In P) {fields : Value → List (String × Value)}
    (hfields : ∀ l, l.In P → ∀ e ∈ fields l, e.2.In P) :
    Stays P (do newObject kind (fields (← newList items))) (·.In P) :=
  (stays_newList h).bind fun l hl => stays_newObject (hfields l hl)

theorem stays_newTypedSettings {columns : List Value} (h : ∀ w ∈ columns, w.In P) :
    Stays P (newTypedSettings columns) (·.In P) :=
  stays_newHolder h fun l hl => by simpa using hl

theorem stays_newRow (row : Row) : Stays P (newRow row) (·.In P) := by
  refine stays_newHolder (by simp) fun l hl => ?_
  cases row.columns <;> simpa using hl

theorem nameAndLines_in {s : Store} (hs : s.Confined P) (hv : v.In P) {name lines : Value}
    (h : nameAndLines? s v = some (name, lines)) : name.In P ∧ lines.In P := by
  unfold nameAndLines? at h
  split at h
  · rename_i hcell
    split_ifs at h
    obtain ⟨rfl, rfl⟩ := Prod.mk.inj (Option.some.inj h)
    have hvalues := hs.of_target hv hcell
    exact ⟨hvalues _ (by simp [Cell.values]), hvalues _ (by simp [Cell.values])⟩
  · cases h

theorem stays_toElement (hv : v.In P) : Stays P (toElement v) (·.In P) := by
  refine stays_look_bind fun s hs => ?_
  dsimp only [id]
  split_ifs
  · exact stays_pure hv
  · refine (stays_newPlain hv).bind fun plain hplain => ?_
    exact stays_newHolder (by simpa using hplain) fun l hl => by simpa using hl
  · exact stays_newHolder (by simpa using hv) fun l hl => by simpa using hl
  · split
    · rename_i name lines hpair
      obtain ⟨hname, hlines⟩ := nameAndLines_in hs hv hpair
      split_ifs
      · exact stays_refuse _
      · exact (stays_items hlines).bind fun found hfound =>
          stays_newHolder hfound fun l hl => by simpa using ⟨hname, hl⟩
    · exact stays_refuse _

theorem stays_toInline (hv : v.In P) : Stays P (toInline v) (·.In P) := by
  refine stays_look_bind fun s _ => ?_
  dsimp only [id]
  split_ifs
  · exact stays_pure hv
  · exact stays_newPlain hv
  · exact stays_refuse _

theorem stays_toEquation (hv : v.In P) : Stays P (toEquation v) (·.In P) := by
  refine stays_look_bind fun s _ => ?_
  dsimp only [id]
  split_ifs
  · exact stays_newEquation hv Value.in_none
  · exact stays_pure hv
  · exact stays_refuse _

theorem stays_toItem (hv : v.In P) : Stays P (toItem v) (·.In P) := by
  refine stays_look_bind fun s _ => ?_
  split_ifs
  · exact stays_pure hv
  · exact stays_newObject (by simpa using hv)

theorem stays_toRow (hv : v.In P) : Stays P (toRow v) (·.In P) := by
  refine stays_look_bind fun s _ => ?_
  dsimp only [id]
  split_ifs
  · exact stays_pure hv
  · exact stays_newRow _
  · exact stays_refuse _
  · exact stays_refuse _
  · exact (stays_itemTexts hv).bind fun _ _ => stays_newRow _

theorem stays_toColumnSettings (hv : v.In P) : Stays P (toColumnSettings v) (·.In P) := by
  refine stays_look_bind fun s hs => ?_
  dsimp only [id]
  split
  · exact stays_pure hv
  · exact stays_pure hv
  · exact stays_newTypedSettings (by simpa using hv)
  · rename_i columns hcell _ _ _
    refine stays_look_bind fun t _ => ?_
    dsimp only [id]
    split
    · exact stays_refuse _
    · exact stays_newTypedSettings (hs.of_target hv hcell)
  · split_ifs
    · exact stays_newObject (by simpa using hv)
    · exact stays_refuse _

/-! ## Builders -/

theorem stays_pushTo (hv : v.In P) {made : Change Value} (h : Stays P made (·.In P)) :
    Stays P (pushTo v name made) (·.In P) := by
  refine (stays_field hv name).bind fun list hlist => (stays_requireList list _).bind fun _ _ => ?_
  refine h.bind fun new hnew => (stays_extend hlist (by simpa using hnew)).bind fun _ _ => stays_pure hv

theorem stays_pushMade (hv : v.In P) {made : Change Value} (h : Stays P made (·.In P)) :
    Stays P (pushMade v name made) (·.In P) :=
  h.bind fun _ hnew => stays_pushTo hv (stays_pure hnew)

theorem stays_pushAll (hv : v.In P) (hw : w.In P) : Stays P (pushAll v w) (·.In P) := by
  refine (stays_field hv _).bind fun list hlist => (stays_requireList list _).bind fun _ _ => ?_
  refine (stays_attributeOf hw _).bind fun elements helements => ?_
  refine (stays_make fun _ hs => hs.copy helements).bind fun copied hcopied => ?_
  refine (stays_items hcopied).bind fun found hfound => ?_
  exact (stays_extend hlist hfound).bind fun _ _ => stays_pure hv

theorem stays_onePlus (columns : Value) : Stays P (onePlus columns) (·.In P) := by
  unfold onePlus
  split
  · exact stays_pure (Value.in_int _)
  · exact stays_pure (Value.in_atom _)
  · exact stays_newNan
  · exact stays_look_bind fun _ _ => stays_refuse _

theorem stays_pushItem (hv : v.In P) (item : Value) : Stays P (pushItem v item) (·.In P) := by
  refine stays_look_bind fun s _ => ?_
  refine (stays_pushTo hv (stays_pure (Value.in_text _))).bind fun _ _ => ?_
  refine (stays_field hv _).bind fun columns _ => ?_
  split_ifs
  · exact stays_pure hv
  · refine (stays_onePlus columns).bind fun more hmore => ?_
    exact stays_altered hv fun _ hs => hs.setField hv hmore

theorem stays_checkOptions (kind : Kind) (field : String → Value) :
    Stays P (checkOptions kind field) fun _ => True := by
  refine stays_look_bind fun s _ => ?_
  dsimp only [id]
  split
  · exact (stays_settle fun _ _ => trivial).bind fun _ _ => stays_pure trivial
  · exact (stays_settle fun _ _ => trivial).bind fun _ _ => stays_pure trivial
  · exact stays_pure trivial

theorem stays_createUpdated (hv : v.In P) {changes : List (String × Value)} (h : ∀ e ∈ changes, e.2.In P)
    (hkind : kind = .baseOptions ∨ kind = .latexOptions) : Stays P (createUpdated v kind changes) (·.In P) := by
  have hconstruct (fields : List (String × Value)) (hfields : ∀ e ∈ fields, e.2.In P) :
      Stays P (construct kind fields) (·.In P) := by
    rcases hkind with rfl | rfl <;>
      exact (stays_checkOptions _ _).bind fun _ _ => stays_newObject hfields
  unfold createUpdated
  split
  · exact stays_refuse _
  · refine stays_look_bind fun s hs => hconstruct _ (List.forall_mem_map.mpr fun name _ => ?_)
    cases hnew : changes.lookup name with
    | none => exact hs.field_getD hv
    | some new =>
      obtain ⟨before, after, rfl, -⟩ := List.lookup_eq_some_iff.mp hnew
      exact h (name, new) (by simp)

theorem stays_isEmptyField (v : Value) (name : String) : Stays P (isEmptyField v name) (·.In P) :=
  stays_look_bind fun _ _ => stays_look_bind fun _ _ => stays_pure (Value.in_bool _)

theorem stays_checkRowPosition (table index : Value) (relation : Relation) :
    Stays P (checkRowPosition table index relation) fun _ => True := by
  refine stays_look_bind fun s _ => (stays_settle fun _ _ => trivial).bind fun notBelow _ => ?_
  refine stays_look_bind fun t _ => (stays_length _).bind fun n _ => ?_
  have hunless (inside : Bool) : Stays P (unless inside do refuse (.rowOutOfRange (s.datum index).printed n) :
      Change Unit) fun _ => True := by
    cases inside
    · exact stays_refuse _
    · exact stays_pure trivial
  split_ifs
  · exact (stays_settle fun _ _ => trivial).bind fun inside _ => hunless inside
  · exact hunless false

theorem stays_insertRow (hv : v.In P) {row : Value} (hrow : row.In P) (index : Value) :
    Stays P (insertRow v index row) (·.In P) := by
  refine (stays_checkRowPosition v index _).bind fun _ _ => (stays_field hv _).bind fun rows hrows => ?_
  refine (stays_requireList rows _).bind fun _ _ => (stays_toRow hrow).bind fun new hnew => ?_
  split
  · refine stays_altered hv fun _ hs => hs.setItems hrows fun items hitems => ?_
    refine List.forall_mem_append.mpr ⟨fun w hw => hitems w (List.mem_of_mem_take hw), ?_⟩
    exact List.forall_mem_cons.mpr ⟨hnew, fun w hw => hitems w (List.mem_of_mem_drop hw)⟩
  · exact stays_look_bind fun _ _ => stays_refuse _

theorem in_set {items : List Value} (h : ∀ w ∈ items, w.In P) (hv : v.In P) (i : Nat) :
    ∀ w ∈ items.set i v, w.In P := by
  intro w hw
  rcases List.mem_or_eq_of_mem_set hw with hw | rfl
  · exact h w hw
  · exact hv

theorem stays_replaceRow (hv : v.In P) {index row : Value} (hindex : index.In P) (hrow : row.In P) :
    Stays P (replaceRow v index row) (·.In P) := by
  refine (stays_checkRowPosition v index _).bind fun _ _ => (stays_toRow hrow).bind fun new hnew => ?_
  refine (stays_field hv _).bind fun rows hrows => stays_look_bind fun s _ => ?_
  split
  · refine stays_altered hv fun _ hs => hs.setItems hrows fun items hitems => ?_
    exact in_set hitems hnew _
  · exact stays_look_bind fun _ _ => stays_refuse _
  · exact stays_altered hv fun _ hs => hs.setEntry hrows hindex hnew
  · exact stays_look_bind fun _ _ => stays_refuse _

theorem stays_numberColumns (hv : v.In P) : Stays P (numberColumns v) fun _ => True := by
  refine (stays_field hv _).bind fun rows hrows => stays_look_bind fun s hs => stays_look_bind fun t _ => ?_
  split
  split
  · exact stays_refuse _
  · rename_i looked columns _ _ typeName source hsupply
    have hsource : P source := (hs.supply hrows).2 typeName source hsupply
    refine (stays_alter fun _ hs => hs.takingAll fun r hr => ?_).bind fun _ _ => stays_settle fun _ _ => trivial
    exact List.eq_of_mem_replicate hr ▸ hsource
  · exact stays_settle fun _ _ => trivial
  · exact stays_settle fun _ _ => trivial

theorem stays_columnSettings (hv : v.In P) : Stays P (columnSettings v) (·.All (·.In P)) :=
  (stays_field hv _).bind fun _ hsettings => stays_look fun _ hs => hs.settingsOf hsettings

theorem stays_effectiveColumns (hv : v.In P) :
    Stays P (effectiveColumns v) fun columns => ∀ w ∈ columns, w.In P := by
  refine (stays_columnSettings hv).bind fun settings hsettings => ?_
  split
  · exact stays_refuse _
  · exact stays_refuse _
  · refine (stays_numberColumns hv).bind fun n _ => (stays_settle fun _ _ => trivial).bind fun count _ => ?_
    refine (stays_field hv _).bind fun standard hstandard => ?_
    exact stays_settle fun _ hcolumns => Columns.resolved_all hsettings hstandard hcolumns

theorem stays_replaceableColumns (hv : v.In P) (n : Datum) :
    Stays P (replaceableColumns v n) fun columns => ∀ w ∈ columns, w.In P := by
  refine (stays_columnSettings hv).bind fun settings _ => ?_
  split
  · refine (stays_leave _).bind fun _ _ => (stays_field hv _).bind fun standard hstandard => ?_
    exact stays_settle fun _ hcolumns => Columns.repeated_all hstandard hcolumns
  · refine (stays_field hv _).bind fun settings hsettings => ?_
    refine (stays_attributeOf hsettings _).bind fun columns hcolumns => ?_
    refine (stays_items hcolumns).bind fun given hgiven => (stays_settle fun _ _ => trivial).bind fun less _ => ?_
    split_ifs
    · refine (stays_effectiveColumns hv).bind fun columns hall => stays_pure ?_
      exact List.forall_mem_append.mpr ⟨hgiven, fun w hw => hall w (List.mem_of_mem_drop hw)⟩
    · exact stays_pure hgiven

theorem stays_replaceColumnSettings (hv : v.In P) {settings : Value} (hs : settings.In P) (column : Value) :
    Stays P (replaceColumnSettings v column settings) (·.In P) := by
  refine (stays_numberColumns hv).bind fun n _ => stays_look_bind fun s _ => ?_
  refine (stays_settle fun _ _ => trivial).bind fun has _ => ?_
  split_ifs
  · refine (stays_replaceableColumns hv n).bind fun columns hcolumns => ?_
    split
    · exact stays_refuse _
    · dsimp only
      split_ifs
      · exact stays_refuse _
      · exact (stays_newTypedSettings (in_set hcolumns hs _)).bind fun new hnew =>
          stays_altered hv fun _ ht => ht.setField hv hnew
  · exact stays_refuse _

theorem stays_callOnOther {c : Call} (hc : ∀ x ∈ c.arguments, x.In P) : Stays P (callOnOther v c) (·.In P) := by
  unfold callOnOther
  split
  · exact stays_newEquation (hc _ (by simp [Call.arguments])) (hc _ (by simp [Call.arguments]))
  · exact stays_look_bind fun _ _ => stays_refuse _

/-- A call works on what can be reached from the value that it is made on and from its arguments, and on new
cells. -/
theorem stays_call {c : Call} (hv : v.In P) (hc : ∀ x ∈ c.arguments, x.In P) : Stays P (call v c) (·.In P) := by
  refine stays_look_bind fun s _ => ?_
  split <;> simp only [Call.arguments, List.forall_mem_cons, List.not_mem_nil, false_imp_iff, implies_true,
    and_true] at hc
  · exact stays_callOnOther hc
  · exact stays_pushTo hv (stays_toElement hc)
  · exact stays_pushTo hv (stays_toElement hc)
  · exact stays_pushAll hv hc
  · exact stays_pushTo hv (stays_toInline hc)
  · exact stays_pushTo hv (stays_newPlain hc)
  · exact stays_pushMade hv (stays_toEquation hc)
  · exact stays_pushMade hv (stays_toItem hc)
  · exact stays_setTo hv hc _
  · exact stays_pushTo hv (stays_newObject (by simpa using hc))
  · exact stays_setTo hv hc _
  · exact stays_setTo hv hc _
  · exact stays_pushTo hv (stays_newObject (by simpa using hc))
  · exact stays_pushTo hv (stays_newObject (by simpa using hc))
  · exact stays_setTo hv hc _
  · exact stays_setTo hv (Value.in_bool _) _
  · exact stays_newEquation hc.2 hc.1
  · exact stays_pushItem hv _
  · exact stays_newRow _
  · exact stays_pushTo hv (stays_toRow hc)
  · exact stays_insertRow hv hc.2 _
  · exact stays_replaceRow hv hc.1 hc.2
  · exact (stays_toColumnSettings hc).bind fun w hw => stays_setTo hv hw _
  · exact stays_replaceColumnSettings hv hc.2 _
  · exact stays_isEmptyField _ _
  · exact stays_isEmptyField _ _
  · exact stays_isEmptyField _ _
  · exact stays_newObject (by simpa using hc)
  · exact stays_createUpdated hv (List.forall_mem_map.mp hc) (.inl rfl)
  · exact stays_createUpdated hv (List.forall_mem_map.mp hc) (.inr rfl)
  · exact stays_look_bind fun _ _ => stays_refuse _

end Change

end Manuscript
