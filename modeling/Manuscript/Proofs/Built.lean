import Manuscript.Proofs.Starting
import Manuscript.Proofs.Twins
/-!
# Built stores

The stores that come from values made one after the other and from builder calls on them. Whatever the calls
and their arguments, and whether they end in a fault or not, a built store is sound.
-/
namespace Manuscript

open Cell (fieldIn)

namespace Change

variable {s : Store} {v : Value} {kind : Kind}

/-- The copies of the elements of a document may stand in a document. -/
theorem grows_copyElements (hs : s.Sound) {elements : Value} {items : List Value}
    (hlist : s.list? elements = some items) (may : ∀ v ∈ items, s.mayHold .document v = true) :
    Grows s (make (·.copy elements) >>= Change.items) fun t found =>
      ∀ v ∈ found, t.mayHold .document v = true := by
  obtain ⟨l, rfl, hcell⟩ := Store.list?_eq_some.mp hlist
  have hreach := Store.mem_reachable_self hcell
  have hself : s.Within (.ref l) (.ref l) := by
    rintro q c hq -
    obtain rfl := Value.ref.inj hq
    exact hreach
  have hcopied : (s.copy (.ref l)).1.list? (s.copy (.ref l)).2 =
      some (items.map (s.twinIn (.ref l))) := Store.list?_twinIn hself hlist
  have hmay : ∀ w ∈ items.map (s.twinIn (.ref l)), (s.copy (.ref l)).1.mayHold .document w = true := by
    intro w hw
    obtain ⟨x, hx, rfl⟩ := List.mem_map.mp hw
    refine Store.mayHold_twinIn (Store.within_of_mem_refs hreach hcell fun q hq => ?_) (may x hx)
    exact List.mem_filterMap.mpr ⟨x, hx, by simp [hq, Value.ref?]⟩
  have hmake : Grows s (make (·.copy (.ref l))) fun t w =>
      t.list? w = some (items.map (s.twinIn (.ref l))) ∧
        ∀ w ∈ items.map (s.twinIn (.ref l)), t.mayHold .document w = true :=
    grows_make hs (hs.growsTo_copy _) (·.copy _) ⟨hcopied, hmay⟩
  refine hmake.bind fun t copied _ ht hcopied => (grows_items ht copied).mono fun u found htu hfound => ?_
  rw [Store.supply_of_list hcopied.1] at hfound
  subst hfound
  exact fun w hw => Store.mayHold_mono htu.keeps.kind? (hcopied.2 w hw)

theorem builds_pushAll (hs : s.Sound) (hk : s.kind? v = some .document) {other : Value}
    (hother : s.kind? other = some .document) : Builds s (pushAll v other) := by
  obtain ⟨r, fields, rfl, hcell⟩ := Store.kind?_eq_some.mp hk
  obtain ⟨q, given, rfl, hq⟩ := Store.kind?_eq_some.mp hother
  refine builds_look_bind ?_
  rw [Store.fieldIn_of_cell hcell]
  refine (grows_requireList hs _ _).bind_builds fun t _ _ ht hts => ?_
  subst hts
  refine (grows_attributeOf ht _ _).bind_builds fun u elements _ hu ⟨hut, helements⟩ => ?_
  subst hut
  have hfield : fieldIn given "elements" = elements := by
    rw [← Store.fieldIn_of_cell hq]
    exact congrArg (Option.getD · Value.none) helements
  obtain ⟨items, hitems, hmay⟩ := (hu.fits q .document given hq).listed "elements" rfl
  rw [hfield] at hitems
  rw [← bind_assoc]
  refine (grows_copyElements hu hitems hmay).bind_builds fun t found hgrows ht hfound =>
    builds_setItems ht (hgrows.keeps r _ hcell rfl) rfl (by decide) (fun old hold x hx => ?_) _
  rcases List.mem_append.mp hx with hx | hx
  · exact hold x hx
  · exact hfound x hx

theorem grows_construct_options (hs : s.Sound) (hkind : kind = .baseOptions ∨ kind = .latexOptions)
    (fields : List (String × Value)) : Grows s (construct kind fields) fun _ _ => True := by
  have hconstruct : construct kind fields = checkOptions kind (fieldIn fields) >>= fun _ =>
      newObject kind fields := by rcases hkind with rfl | rfl <;> rfl
  have hbearing : kind.bearing = [] := by rcases hkind with rfl | rfl <;> rfl
  rw [hconstruct]
  refine (grows_checkOptions hs _ _).bind fun t _ _ ht _ => ?_
  exact (grows_newObject ht hbearing _).mono fun _ _ _ _ => trivial

theorem builds_createUpdated (hs : s.Sound) (hkind : kind = .baseOptions ∨ kind = .latexOptions) (v : Value)
    (changes : List (String × Value)) : Builds s (createUpdated v kind changes) := by
  unfold createUpdated
  split
  · exact builds_refuse hs _
  · exact builds_look_bind (grows_construct_options hs hkind _).builds

theorem grows_newEntry (hs : s.Sound) (hentry : kind.isPreambleEntry = true) (hbearing : kind.bearing = [])
    (fields : List (String × Value)) :
    Grows s (newObject kind fields) fun t w => t.mayHold .preamble w = true := by
  refine (grows_newObject hs hbearing fields).mono fun t w _ hw => ?_
  simp [Store.mayHold_eq_any, hw, Kind.mayHold, hentry]

theorem grows_isEmptyField (hs : s.Sound) (v : Value) (name : String) :
    Grows s (isEmptyField v name) fun _ _ => True :=
  grows_look_bind (grows_look_bind (grows_pure hs trivial))

theorem builds_callOnOther (hs : s.Sound) (v : Value) (c : Call) : Builds s (callOnOther v c) := by
  unfold callOnOther
  split
  · exact (grows_newObject hs rfl _).builds
  · exact builds_look_bind (builds_refuse hs _)

/-- A call leaves a sound store sound, and all old cells as they were if it ends in a fault. Only the
elements of documents are copied. -/
theorem builds_call (hs : s.Sound) (v : Value) (c : Call)
    (copied : ∀ other, c = .pushAll other → s.kind? other = some .document) : Builds s (call v c) := by
  refine builds_look_bind ?_
  split <;> rename_i hk
  · exact builds_callOnOther hs _ _
  · exact builds_pushTo hs hk rfl (by decide) (grows_toElement hs _)
  · exact builds_pushTo hs hk rfl (by decide) (grows_toElement hs _)
  · exact builds_pushAll hs hk (copied _ rfl)
  · exact builds_pushTo hs hk rfl (by decide) (grows_toInline hs _)
  · exact builds_pushTo hs hk rfl (by decide) ((grows_newPlain hs _).mono fun t w _ hw => by
      simp [Store.mayHold_eq_any, hw, Kind.mayHold, Kind.isInline])
  · exact builds_pushMade hk rfl (by decide) (grows_toEquation hs _)
  · exact builds_pushMade hk rfl (by decide) (grows_toItem hs _)
  · exact builds_setTo hs hk (by decide) _
  · exact builds_pushTo hs hk rfl (by decide) (grows_newEntry hs rfl rfl _)
  · exact builds_setTo hs hk (by decide) _
  · exact builds_setTo hs hk (by decide) _
  · exact builds_pushTo hs hk rfl (by decide) (grows_newEntry hs rfl rfl _)
  · exact builds_pushTo hs hk rfl (by decide) (grows_newEntry hs rfl rfl _)
  · exact builds_setTo hs hk (by decide) _
  · exact builds_setTo hs hk (by decide) _
  · exact (grows_newObject hs rfl _).builds
  · exact builds_pushItem hs hk _
  · exact (grows_newRow hs fun n hn => by cases hn).builds
  · exact builds_pushTo hs hk rfl (by decide) (grows_toRow hs _)
  · exact builds_insertRow hs hk _ _
  · exact builds_replaceRow hs hk _ _
  · exact (grows_toColumnSettings hs _).bind_builds fun t w hgrows ht _ =>
      builds_setTo ht (hgrows.keeps.kind? v _ hk) (by decide) w
  · exact builds_replaceColumnSettings hs hk _ _
  · exact (grows_isEmptyField hs _ _).builds
  · exact (grows_isEmptyField hs _ _).builds
  · exact (grows_isEmptyField hs _ _).builds
  · exact (grows_newObject hs rfl _).builds
  · exact builds_createUpdated hs (.inl rfl) _ _
  · exact builds_createUpdated hs (.inr rfl) _ _
  · exact builds_look_bind (builds_refuse hs _)

end Change

namespace Store

/-- The stores that are built from nothing by new values, by objects made from what their kinds may start
from, and by calls on any value with any arguments. Only the elements of documents are copied. A list that is given to
a new object is held by no object that may hold other things. -/
inductive Built : Store → Prop
  | empty : Built .empty
  | identity {s : Store} (built : Built s) : Built s.mint.1
  | value {s : Store} (built : Built s) (c : Cell)
      (plain : ∀ kind fields, c = .object kind fields → kind.isNode = false) : Built (s.alloc c).1
  | object {s : Store} (built : Built s) (kind : Kind) (given : List (String × Value)) (notes : List Note)
      (starts : s.Starts kind given) : Built ((Change.instantiate kind given).runOn ⟨s, notes⟩).2.store
  | call {s : Store} (built : Built s) (v : Value) (c : Call) (notes : List Note)
      (copied : ∀ other, c = .pushAll other → s.kind? other = some .document) :
      Built ((Change.call v c).runOn ⟨s, notes⟩).2.store

variable {s : Store} {c : Cell}

theorem sound_empty : Store.empty.Sound where
  fits r kind fields h := by simp [empty, cell?] at h
  shared p q v := by
    rintro ⟨c, h, _⟩
    simp [empty, cell?] at h

theorem bearing_of_not_isNode {kind : Kind} (h : kind.isNode = false) : kind.bearing = [] := by
  cases kind <;> first | rfl | cases h

theorem Sound.mint (hs : s.Sound) : s.mint.1.Sound := by
  have hkeeps : s.Keeps s.mint.1 := fun _ _ h _ => h
  exact hkeeps.sound hs (fun _ _ _ h => .inl h) hs.shared

theorem Sound.alloc_of_not_node (hs : s.Sound)
    (plain : ∀ kind fields, c = .object kind fields → kind.isNode = false) : (s.alloc c).1.Sound := by
  refine hs.alloc (fun kind fields h => fits_of_bearing (bearing_of_not_isNode (plain kind fields h))) ?_
  rintro p v ⟨kind, fields, name, h, hname, _⟩
  have hmem := Kind.mem_bearing hname
  rw [bearing_of_not_isNode (plain kind fields h)] at hmem
  cases hmem

/-- What is made and called keeps a store sound, so every built store is. -/
theorem Built.sound (h : s.Built) : s.Sound := by
  induction h with
  | empty => exact sound_empty
  | identity _ ih => exact ih.mint
  | value _ c plain ih => exact ih.alloc_of_not_node plain
  | object _ kind given notes starts ih => exact (Change.builds_instantiate ih starts notes).1
  | call _ v c notes copied ih => exact (Change.builds_call ih v c copied notes).1

/-- A call that ends in a fault leaves all cells of a built store as they were. -/
theorem Built.keeps (h : s.Built) (v : Value) (c : Call) (notes : List Note)
    (copied : ∀ other, c = .pushAll other → s.kind? other = some .document) {f : Fault}
    (refused : ((Change.call v c).runOn ⟨s, notes⟩).1 = .error f) :
    s.Keeps ((Change.call v c).runOn ⟨s, notes⟩).2.store :=
  (Change.builds_call h.sound v c copied notes).2 f refused

end Store

end Manuscript
