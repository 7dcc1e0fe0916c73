import Manuscript.Proofs.Twins
import Manuscript.Store.Reading
/-!
# Values that are read alike

A value is carried over to another store if all that can be reached from it stands there too, with the same
data and under other references. Whatever is read of a value, down to its tree, is then the same in both stores.
-/
namespace Manuscript.Store

/-- Every chain of references from a value ends within a number of steps, and none leads out of the store. -/
inductive EndsWithin (s : Store) : Nat → Value → Prop
  | atom (d : Nat) (a : Atom) : EndsWithin s d (.atom a)
  | ref {d : Nat} {r : Ref} {c : Cell} (cell : s.cell? r = some c) (inner : ∀ w ∈ c.values, EndsWithin s d w) :
      EndsWithin s (d + 1) (.ref r)

/-- A value carried over to another store, where `f` gives what stands for a value. An iterator is nothing but
its own place, so it is carried over only to itself. -/
inductive Carried (s t : Store) (f : Value → Value) : Nat → Value → Prop
  | atom (d : Nat) {a : Atom} (same : f (.atom a) = .atom a) : Carried s t f d (.atom a)
  | ref {d : Nat} {r q : Ref} {c : Cell} (cell : s.cell? r = some c) (image : f (.ref r) = .ref q)
      (there : t.cell? q = some (c.mapValues f)) (place : c.isIterator = true → q = r)
      (inner : ∀ w ∈ c.values, Carried s t f d w) : Carried s t f (d + 1) (.ref r)

/-- A failure is known by its identity, and may be carried over to another one. All other atoms stay. -/
def KeepsAtoms (f : Value → Value) : Prop :=
  ∀ a : Atom, (∀ identity className message, a ≠ .failure identity className message) → f (.atom a) = .atom a

variable {s t : Store} {f : Value → Value} {d e k l : Nat} {v w : Value} {r q : Ref} {c : Cell}

theorem EndsWithin.mono (h : s.EndsWithin d v) (le : d ≤ e) : s.EndsWithin e v := by
  induction h generalizing e with
  | atom d a => exact .atom e a
  | ref cell inner ih =>
    obtain ⟨e, rfl⟩ := Nat.exists_eq_add_one_of_ne_zero (Nat.ne_zero_of_lt le)
    exact .ref cell fun w hw => ih w hw (Nat.le_of_succ_le_succ le)

theorem Carried.mono (h : s.Carried t f d v) (le : d ≤ e) : s.Carried t f e v := by
  induction h generalizing e with
  | atom d same => exact .atom e same
  | ref cell image there place inner ih =>
    obtain ⟨e, rfl⟩ := Nat.exists_eq_add_one_of_ne_zero (Nat.ne_zero_of_lt le)
    exact .ref cell image there place fun w hw => ih w hw (Nat.le_of_succ_le_succ le)

theorem lookup_map_snd (f : Value → Value) (fields : List (String × Value)) (name : String) :
    (fields.map fun e => (e.1, f e.2)).lookup name = (fields.lookup name).map f := by
  induction fields with
  | nil => rfl
  | cons e fields ih =>
    obtain ⟨key, w⟩ := e
    rw [List.map_cons, List.lookup_cons, List.lookup_cons, ih]
    cases name == key <;> rfl

theorem mem_values_of_lookup {kind : Kind} {fields : List (String × Value)} {name : String}
    (h : fields.lookup name = some w) : w ∈ (Cell.object kind fields).values := by
  obtain ⟨before, after, rfl, -⟩ := List.lookup_eq_some_iff.mp h
  simp [Cell.values]

/-- The items of an atom are atoms, and none of them is a failure. -/
theorem exists_atom_of_mem_atomItems {a : Atom} {items : List Value} (h : atomItems? a = some items)
    (hw : w ∈ items) :
    ∃ b, w = .atom b ∧ ∀ identity className message, b ≠ .failure identity className message := by
  unfold atomItems? at h
  split at h
  · obtain rfl := Option.some.inj h
    obtain ⟨b, -, rfl⟩ := List.mem_map.mp hw
    exact ⟨_, rfl, by simp⟩
  · obtain ⟨e, -, rfl⟩ := Option.map_eq_some_iff.mp h
    obtain ⟨m, -, rfl⟩ := List.mem_map.mp hw
    exact ⟨_, rfl, by simp⟩
  · obtain ⟨text, -, rfl⟩ := Option.map_eq_some_iff.mp h
    obtain ⟨c, -, rfl⟩ := List.mem_map.mp hw
    exact ⟨_, rfl, by simp⟩

theorem standard?_ne_failure {kind : Kind} {name : String} {a : Atom} (h : kind.standard? name = some a)
    (identity : Nat) (className message : String) : a ≠ .failure identity className message := by
  unfold Kind.standard? at h
  split at h <;> first | (obtain rfl := Option.some.inj h; simp) | cases h

theorem attribute?_ne_failure {className name : String} {a : Atom} (h : Class.attribute? className name = some a)
    (identity : Nat) (other message : String) : a ≠ .failure identity other message := by
  rcases Option.or_eq_some_iff.mp h with hstandard | ⟨-, hderived⟩
  · obtain ⟨kind, -, hkind⟩ := Option.bind_eq_some_iff.mp hstandard
    exact standard?_ne_failure hkind identity other message
  · split at hderived
    · obtain rfl := Option.some.inj hderived
      simp
    · cases hderived

namespace Carried

theorem target? (h : s.Carried t f d v) : t.target? (f v) = (s.target? v).map (Cell.mapValues f) := by
  cases h with
  | atom d same => rw [same]; rfl
  | ref cell image there => simp [image, Store.target?, Value.ref?, cell, there]

theorem kind? (h : s.Carried t f d v) : t.kind? (f v) = s.kind? v := by
  unfold Store.kind?
  rw [h.target?]
  rcases s.target? v with _ | (_ | _ | _ | _) <;> rfl

theorem typeName (h : s.Carried t f d v) : t.typeName (f v) = s.typeName v := by
  cases h with
  | atom d same => rw [same]; rfl
  | @ref d r q c cell image there =>
    simp only [image, Store.typeName, cell, there]
    cases c <;> rfl

theorem lacking (h : s.Carried t f d v) (name : String) : t.lacking (f v) name = s.lacking v name := by
  have htype := h.typeName
  cases h with
  | atom d same => rw [same]; rfl
  | ref cell image =>
    rw [image] at htype ⊢
    simp only [Store.lacking, htype]

theorem asText? (h : s.Carried t f d v) : Store.asText? (f v) = Store.asText? v := by
  cases h with
  | atom d same => rw [same]
  | ref cell image => rw [image]; rfl

theorem pieceOf (h : s.Carried t f d v) : t.pieceOf (f v) = s.pieceOf v := by
  rw [Store.pieceOf, Store.pieceOf, h.asText?, h.typeName]

theorem eq_none_iff (h : s.Carried t f d v) : f v = .none ↔ v = .none := by
  cases h with
  | atom d same => rw [same]
  | ref cell image => simp [image, Value.none]

theorem field? (h : s.Carried t f d v) (name : String) : t.field? (f v) name = (s.field? v name).map f := by
  unfold Store.field?
  rw [h.target?]
  rcases s.target? v with _ | (_ | _ | _ | ⟨kind, fields⟩) <;>
    first | rfl | exact lookup_map_snd f fields name

theorem of_field? (h : s.Carried t f d v) {name : String} (hw : s.field? v name = some w) :
    s.Carried t f d w := by
  cases h with
  | atom d same => cases hw
  | @ref d r q c cell image there place inner =>
    simp only [Store.field?, Store.target?, Value.ref?, Option.bind_some, cell] at hw
    cases c with
    | object kind fields => exact (inner w (mem_values_of_lookup hw)).mono (Nat.le_succ d)
    | _ => cases hw

theorem attribute? (hf : KeepsAtoms f) (h : s.Carried t f d v) (name : String) :
    t.attribute? (f v) name = (s.attribute? v name).map f ∧
      ∀ w, s.attribute? v name = some w → s.Carried t f d w := by
  cases h with
  | @atom d a same =>
    rw [same]
    cases a with
    | classRef className =>
      have hkept : ∀ a, Class.attribute? className name = some a → f (.atom a) = .atom a :=
        fun a ha => hf a (attribute?_ne_failure ha)
      simp only [Store.attribute?]
      cases hattribute : Class.attribute? className name with
      | none => exact ⟨rfl, nofun⟩
      | some a =>
        refine ⟨congrArg some (hkept a hattribute).symm, fun w hw => ?_⟩
        obtain rfl := Option.some.inj hw
        exact .atom d (hkept a hattribute)
    | _ => exact ⟨rfl, nofun⟩
  | ref cell image there place inner =>
    have hthis := Carried.ref cell image there place inner
    have hfield := hthis.field? name
    rw [image] at hfield ⊢
    exact ⟨hfield, fun w hw => hthis.of_field? hw⟩

theorem datumTo_atom (s : Store) (k : Nat) (a : Atom) : s.datumTo k (.atom a) = .atom a := by
  cases k <;> rfl

theorem datumTo (h : s.Carried t f d v) (hk : d ≤ k) (hl : d ≤ l) : t.datumTo l (f v) = s.datumTo k v := by
  induction h generalizing k l with
  | atom d same => rw [same, datumTo_atom, datumTo_atom]
  | @ref d r q c cell image there place inner ih =>
    obtain ⟨k, rfl⟩ := Nat.exists_eq_add_one_of_ne_zero (Nat.ne_zero_of_lt hk)
    obtain ⟨l, rfl⟩ := Nat.exists_eq_add_one_of_ne_zero (Nat.ne_zero_of_lt hl)
    have hsame (w : Value) (hw : w ∈ c.values) : t.datumTo l (f w) = s.datumTo k w :=
      ih w hw (Nat.le_of_succ_le_succ hk) (Nat.le_of_succ_le_succ hl)
    rw [image]
    simp only [Store.datumTo, cell, there]
    cases c with
    | sequence shape items =>
      simp only [Cell.mapValues, List.map_map, Datum.sequence.injEq, true_and]
      exact List.map_congr_left hsame
    | iterator items =>
      obtain rfl := place rfl
      rfl
    | dict entries =>
      simp only [Cell.mapValues, List.map_map, Datum.dict.injEq]
      refine List.map_congr_left fun e he => ?_
      have hkey := hsame e.1 (List.mem_flatMap.mpr ⟨e, he, by simp⟩)
      have hvalue := hsame e.2 (List.mem_flatMap.mpr ⟨e, he, by simp⟩)
      simp [hkey, hvalue]
    | object kind fields =>
      simp only [Cell.mapValues, List.filter_map, List.map_map, Datum.object.injEq, true_and]
      refine List.map_congr_left fun e he => ?_
      have hvalue := hsame e.2 (List.mem_map_of_mem (List.mem_of_mem_filter he))
      simp [hvalue]

/-- What a value gives, one by one, is carried over with it. -/
theorem supplyTo (hf : KeepsAtoms f) (h : s.Carried t f d v) (hk : d ≤ k) (hl : d ≤ l) :
    t.supplyTo l (f v) = ((s.supplyTo k v).1, (s.supplyTo k v).2.map f) ∧
      ∀ w ∈ (s.supplyTo k v).2, s.Carried t f d w := by
  induction h generalizing k l with
  | @atom d a same =>
    have hatom (u : Store) (j : Nat) : u.supplyTo j (.atom a) = u.supplyTo 0 (.atom a) := by
      cases j <;> rfl
    rw [same, hatom s, hatom t]
    simp only [Store.supplyTo]
    cases hitems : atomItems? a with
    | none => exact ⟨rfl, by simp⟩
    | some items =>
      have hkept : ∀ w ∈ items, f w = w ∧ s.Carried t f d w := by
        intro w hw
        obtain ⟨b, rfl, hb⟩ := exists_atom_of_mem_atomItems hitems hw
        exact ⟨hf b hb, .atom d (hf b hb)⟩
      have hsame : items.map f = items :=
        (List.map_congr_left fun w hw => (hkept w hw).1).trans (List.map_id items)
      exact ⟨by rw [hsame], fun w hw => (hkept w hw).2⟩
  | @ref d r q c cell image there place inner ih =>
    obtain ⟨k, rfl⟩ := Nat.exists_eq_add_one_of_ne_zero (Nat.ne_zero_of_lt hk)
    obtain ⟨l, rfl⟩ := Nat.exists_eq_add_one_of_ne_zero (Nat.ne_zero_of_lt hl)
    have hinner (w : Value) (hw : w ∈ c.values) : s.Carried t f (d + 1) w := (inner w hw).mono (Nat.le_succ d)
    rw [image]
    simp only [Store.supplyTo, cell, there]
    cases c with
    | sequence shape items => exact ⟨rfl, hinner⟩
    | iterator items =>
      obtain rfl := place rfl
      exact ⟨rfl, hinner⟩
    | dict entries =>
      refine ⟨by simp [Cell.mapValues], fun w hw => ?_⟩
      obtain ⟨e, he, rfl⟩ := List.mem_map.mp hw
      exact hinner e.1 (List.mem_flatMap.mpr ⟨e, he, by simp⟩)
    | object kind fields =>
      simp only [Cell.mapValues]
      cases kind.itemField? with
      | none => exact ⟨rfl, by simp⟩
      | some name =>
        simp only [Option.bind_some, lookup_map_snd]
        cases hfield : fields.lookup name with
        | none => exact ⟨rfl, by simp⟩
        | some w =>
          obtain ⟨hsupply, hitems⟩ := ih w (mem_values_of_lookup hfield) (Nat.le_of_succ_le_succ hk)
            (Nat.le_of_succ_le_succ hl)
          simp only [Option.map_some, hsupply]
          rcases hout : s.supplyTo k w with ⟨_ | _ | _, items⟩ <;> rw [hout] at hitems <;>
            exact ⟨rfl, fun w hw => (hitems w hw).mono (Nat.le_succ d)⟩

section

variable (hf : KeepsAtoms f) (hs : d ≤ s.depth) (ht : d ≤ t.depth)

include hs ht in
theorem datum (h : s.Carried t f d v) : t.datum (f v) = s.datum v := h.datumTo hs ht

include hs ht in
theorem printed (h : s.Carried t f d v) : t.printed (f v) = s.printed v :=
  congrArg Datum.printed (h.datum hs ht)

include hs ht in
theorem isTrue (h : s.Carried t f d v) : t.isTrue (f v) = s.isTrue v := congrArg Datum.isTrue (h.datum hs ht)

include hs ht in
theorem optionalText (h : s.Carried t f d v) : t.optionalText (f v) = s.optionalText v := by
  simp only [Store.optionalText, h.eq_none_iff, h.printed hs ht]

include hs ht in
theorem documentClassOf (h : s.Carried t f d v) : t.documentClassOf (f v) = s.documentClassOf v := by
  have hprinted := h.printed hs ht
  cases h with
  | @atom d a same =>
    rw [same] at hprinted ⊢
    unfold Store.documentClassOf
    split <;> simp_all
  | ref cell image =>
    rw [image] at hprinted ⊢
    exact congrArg DocumentClass.unnamed hprinted

include hf hs ht in
theorem supply (h : s.Carried t f d v) :
    t.supply (f v) = ((s.supply v).1, (s.supply v).2.map f) ∧ ∀ w ∈ (s.supply v).2, s.Carried t f d w :=
  h.supplyTo hf hs ht

/-- An alignment that is no member of the enumeration of alignments is read through its code. -/
theorem column_of_other (hw : s.attribute? v "alignment" = some w)
    (h : ∀ a, w ≠ .atom (.member (.alignment a))) :
    s.column v = ((s.attribute? w "code").map fun code => Column.coded (s.pieceOf code)).getD
      (.unusable (s.lacking w "code")) := by
  unfold Store.column
  rw [hw]
  split
  · rename_i a heq
    exact absurd (Option.some.inj heq) (h a)
  · rename_i other _ heq
    obtain rfl := Option.some.inj heq
    cases s.attribute? w "code" <;> rfl
  · contradiction

include hf in
theorem column (h : s.Carried t f d v) : t.column (f v) = s.column v := by
  obtain ⟨halignment, hcarried⟩ := h.attribute? hf "alignment"
  cases hw : s.attribute? v "alignment" with
  | none =>
    rw [hw] at halignment
    unfold Store.column
    simp only [halignment, hw, Option.map_none, h.lacking]
  | some w =>
    rw [hw] at halignment
    have hinner := hcarried w hw
    by_cases hmember : ∃ a, w = .atom (.member (.alignment a))
    · obtain ⟨a, rfl⟩ := hmember
      have hsame : f (.atom (.member (.alignment a))) = .atom (.member (.alignment a)) := hf _ (by simp)
      unfold Store.column
      simp only [halignment, hw, Option.map_some, hsame]
    · have hother (a : Alignment) : w ≠ .atom (.member (.alignment a)) := fun h => hmember ⟨a, h⟩
      have himage (a : Alignment) : f w ≠ .atom (.member (.alignment a)) := by
        cases hinner with
        | atom d same =>
          rw [same]
          exact hother a
        | ref cell image => simp [image]
      obtain ⟨hcode, hpieces⟩ := hinner.attribute? hf "code"
      rw [column_of_other halignment himage, column_of_other hw hother, hcode, hinner.lacking]
      cases hc : s.attribute? w "code" with
      | none => rfl
      | some code => simp [(hpieces code hc).pieceOf]

include hf hs ht in
/-- The items of a value, each read as the settings of a column. -/
theorem typed_supply (h : s.Carried t f d v) :
    (match t.supply (f v) with
      | (.listed, items) => ColumnSettings.typed items
      | _ => .unsized (t.typeName (f v))).map t.column =
    (match s.supply v with
      | (.listed, items) => ColumnSettings.typed items
      | _ => .unsized (s.typeName v)).map s.column := by
  obtain ⟨hsupply, hitems⟩ := h.supply hf hs ht
  rw [hsupply, h.typeName]
  rcases hout : s.supply v with ⟨_ | _ | _, items⟩ <;> rw [hout] at hitems
  · have hcolumns : items.map (fun w => t.column (f w)) = items.map s.column :=
      List.map_congr_left fun w hw => (hitems w hw).column hf
    simpa [ColumnSettings.map] using hcolumns
  · rfl
  · rfl

include hf hs ht in
theorem columnsOf (h : s.Carried t f d v) :
    (t.columnsOf (f v)).map t.column = (s.columnsOf v).map s.column := by
  have htyped := h.typed_supply hf hs ht
  cases h with
  | @atom d a same =>
    rw [same] at htyped ⊢
    cases a with
    | classRef name =>
      simp only [Store.columnsOf, Store.target?, Value.ref?, Option.bind_none]
      cases Class.enumeration? name with
      | none => rfl
      | some e =>
        have hmembers (m : Member) : t.column (.atom (.member m)) = s.column (.atom (.member m)) := rfl
        simp [ColumnSettings.map, hmembers]
    | _ => exact htyped
  | @ref d r q c cell image there place inner =>
    rw [image] at htyped ⊢
    cases c with
    | dict entries =>
      have hentries : ∀ e ∈ entries, t.datum (f e.1) = s.datum e.1 ∧ t.column (f e.2) = s.column e.2 := by
        intro e he
        have hkey := (inner e.1 (List.mem_flatMap.mpr ⟨e, he, by simp⟩)).mono (Nat.le_succ d)
        have hvalue := inner e.2 (List.mem_flatMap.mpr ⟨e, he, by simp⟩)
        exact ⟨hkey.datum hs ht, hvalue.column hf⟩
      simp only [Store.columnsOf, Store.target?, Value.ref?, Option.bind_some, cell, there, Cell.mapValues,
        ColumnSettings.map, List.map_map, ColumnSettings.keyed.injEq]
      exact List.map_congr_left fun e he => by simp [hentries e he]
    | _ =>
      simp only [Store.columnsOf, Store.target?, Value.ref?, Option.bind_some, cell, there, Cell.mapValues]
      exact htyped

theorem getD_none (hf : KeepsAtoms f) (found : Option Value) :
    (found.map f).getD .none = f (found.getD .none) := by
  cases found with
  | none => exact (hf .none (by simp)).symm
  | some w => rfl

include hf in
/-- The value of a field, or nothing where there is none. -/
theorem getD_field? (h : s.Carried t f d v) (name : String) : s.Carried t f d ((s.field? v name).getD .none) := by
  cases hw : s.field? v name with
  | none => exact .atom d (hf .none (by simp))
  | some w => exact h.of_field? hw

include hf hs ht in
theorem settingsOf (h : s.Carried t f d v) :
    (t.settingsOf (f v)).map t.column = (s.settingsOf v).map s.column := by
  obtain ⟨hcolumns, hcarried⟩ := h.attribute? hf "columns"
  have hspec : t.datum ((t.field? (f v) "spec").getD .none) = s.datum ((s.field? v "spec").getD .none) := by
    rw [h.field?, getD_none hf]
    exact (h.getD_field? hf "spec").datum hs ht
  unfold Store.settingsOf
  rw [h.kind?, hcolumns, hspec, h.lacking]
  cases hw : s.attribute? v "columns" with
  | none => split <;> simp_all [ColumnSettings.map]
  | some w =>
    have hinner := (hcarried w hw).columnsOf hf hs ht
    rcases s.kind? v with _ | kind
    · exact hinner
    · cases kind <;> first | exact hinner | rfl

include hf hs ht in
theorem rowOf {cells columns skip : Value} (hcells : s.Carried t f d cells) (hcolumns : s.Carried t f d columns)
    (hskip : s.Carried t f d skip) : t.rowOf (f cells) (f columns) (f skip) = s.rowOf cells columns skip := by
  obtain ⟨hsupply, hitems⟩ := hcells.supply hf hs ht
  have hpieces : (s.supply cells).2.map (fun w => t.pieceOf (f w)) = (s.supply cells).2.map s.pieceOf :=
    List.map_congr_left fun w hw => (hitems w hw).pieceOf
  have hdatum := hcolumns.datum hs ht
  simp only [Store.rowOf, hsupply, List.map_map, Function.comp_def, hpieces, hskip.isTrue hs ht, hdatum]
  cases hcolumns with
  | atom d same => rw [same]
  | ref cell image =>
    rw [image]
    cases (s.supply cells).1 <;> cases allTexts? ((s.supply cells).2.map s.pieceOf) <;> rfl

include hf hs ht in
theorem environmentOf {name lines : Value} (hname : s.Carried t f d name) (hlines : s.Carried t f d lines) :
    t.environmentOf (f name) (f lines) = s.environmentOf name lines := by
  obtain ⟨hsupply, hitems⟩ := hlines.supply hf hs ht
  have hpieces : (s.supply lines).2.map (fun w => t.pieceOf (f w)) = (s.supply lines).2.map s.pieceOf :=
    List.map_congr_left fun w hw => (hitems w hw).pieceOf
  simp only [Store.environmentOf, hsupply, List.map_map, Function.comp_def, hpieces, hname.printed hs ht]

theorem withText (h : s.Carried t f d v) (use : TextUse) (node : String → Tree) :
    t.withText (f v) use node = s.withText v use node := by
  rw [Store.withText, Store.withText, h.asText?, h.typeName]

theorem commandFault (h : s.Carried t f d v) : t.commandFault (f v) = s.commandFault v := by
  have hlacking := h.lacking "lstrip"
  cases h with
  | @atom d a same =>
    rw [same]
    cases a <;> rfl
  | ref cell image =>
    rw [image] at hlacking ⊢
    exact hlacking

end

theorem plain (hs : d ≤ s.depth) (ht : d ≤ t.depth) : s.Carried t f d v →
    (match f v with
      | .atom (.text text) => Tree.plain text
      | w => .misfit (.plain (t.datum w))) =
    match v with
      | .atom (.text text) => Tree.plain text
      | w => .misfit (.plain (s.datum w)) := by
  intro h
  have hdatum := h.datum hs ht
  cases h with
  | @atom d a same =>
    rw [same] at hdatum ⊢
    split
    · rfl
    · rw [hdatum]
  | ref cell image =>
    rw [image] at hdatum ⊢
    exact congrArg (fun value => Tree.misfit (.plain value)) hdatum

/-- The node of a list, if it is of one of the two kinds of lists. -/
theorem listNode (list : ListKind → Tree) : s.Carried t f d v →
    (match f v with
      | .atom (.member (.listKind k)) => list k
      | other => .blocked (t.lacking other "environment_name") (list .itemize)) =
    match v with
      | .atom (.member (.listKind k)) => list k
      | other => .blocked (s.lacking other "environment_name") (list .itemize) := by
  intro h
  have hlacking := h.lacking "environment_name"
  cases h with
  | @atom d a same =>
    rw [same] at hlacking ⊢
    split
    · rfl
    · rw [hlacking]
  | ref cell image =>
    rw [image] at hlacking ⊢
    exact congrArg (Tree.blocked · (list .itemize)) hlacking

/-- What the fields of an object hold, and the trees of what it contains, make the same node in both stores. -/
theorem node (hf : KeepsAtoms f) (hs : d ≤ s.depth) (ht : d ≤ t.depth) (kind : Kind) {field : String → Value}
    (h : ∀ name, s.Carried t f d (field name)) {child child' : Value → Tree}
    (hchild : ∀ w, s.Carried t f d w → child' (f w) = child w) :
    t.node kind (fun name => f (field name)) child' = s.node kind field child := by
  have hprinted (name : String) := (h name).printed hs ht
  have hoptional (name : String) := (h name).optionalText hs ht
  have hsupply (name : String) := ((h name).supply hf hs ht).1
  have hmap (name : String) :
      (s.supply (field name)).2.map (fun w => child' (f w)) = (s.supply (field name)).2.map child :=
    List.map_congr_left fun w hw => hchild w (((h name).supply hf hs ht).2 w hw)
  cases kind with
  | plain => exact plain hs ht (h "text")
  | bold | italic => simp only [Store.node, hchild _ (h _)]
  | document =>
    simp only [Store.node, hsupply, List.map_map, Function.comp_def, hmap, (h _).documentClassOf hs ht,
      hchild _ (h _)]
  | environment => simp only [Store.node, (h _).environmentOf hf hs ht (h _)]
  | userDefined | preambleLine => simp only [Store.node, (h _).withText]
  | newCommand =>
    simp only [Store.node, (h _).asText?, (h _).commandFault, hprinted, hoptional]
  | equation =>
    simp only [Store.node, (h _).withText, hoptional, (h _).isTrue hs ht]
  | list =>
    simp only [Store.node, hsupply, List.map_map, Function.comp_def, hmap, hoptional]
    exact listNode _ (h "kind")
  | tableRow => simp only [Store.node, (h _).rowOf hf hs ht (h _) (h _)]
  | table =>
    simp only [Store.node, hsupply, List.map_map, Function.comp_def, hmap, (h _).settingsOf hf hs ht,
      (h _).column hf]
  | sectioning =>
    simp only [Store.node, hsupply, List.map_map, Function.comp_def, hmap, (h _).datum hs ht]
  | _ => simp only [Store.node, hprinted, hoptional, hsupply, List.map_map, Function.comp_def, hmap]

theorem treeTo_atom (s : Store) (k : Nat) (a : Atom) : s.treeTo k (.atom a) = .foreign (.atom a) := by
  have hdatum : s.datum (.atom a) = .atom a := datumTo_atom s s.depth a
  cases k <;> simp [Store.treeTo, Store.target?, Value.ref?, hdatum]

/-- The tree of a value that is carried over is the same in both stores. -/
theorem treeTo (hf : KeepsAtoms f) (h : s.Carried t f d v) (hs : d ≤ s.depth) (ht : d ≤ t.depth) (hk : d ≤ k)
    (hl : d ≤ l) : t.treeTo l (f v) = s.treeTo k v := by
  -- the children of an object may stand in a list of its own, so the induction is on the number of steps
  induction d generalizing v k l with
  | zero =>
    cases h with
    | atom d same => rw [same, treeTo_atom, treeTo_atom]
  | succ d ih =>
    obtain ⟨k, rfl⟩ := Nat.exists_eq_add_one_of_ne_zero (Nat.ne_zero_of_lt hk)
    obtain ⟨l, rfl⟩ := Nat.exists_eq_add_one_of_ne_zero (Nat.ne_zero_of_lt hl)
    have hdatum := h.datum hs ht
    cases h with
    | atom d same => rw [same, treeTo_atom, treeTo_atom]
    | @ref _ r q c cell image there place inner =>
      rw [image] at hdatum ⊢
      simp only [Store.treeTo, Store.target?, Value.ref?, Option.bind_some, cell, there]
      cases c with
      | object kind fields =>
        have hfield (name : String) : s.Carried t f d ((fields.lookup name).getD .none) := by
          cases hw : fields.lookup name with
          | none => exact .atom d (hf .none (by simp))
          | some w => exact inner w (mem_values_of_lookup hw)
        have hs' := Nat.le_of_succ_le hs
        have ht' := Nat.le_of_succ_le ht
        simp only [Cell.mapValues, hdatum, lookup_map_snd, getD_none hf]
        split
        · exact node hf hs' ht' kind hfield fun w hw =>
            ih hw hs' ht' (Nat.le_of_succ_le_succ hk) (Nat.le_of_succ_le_succ hl)
        · rfl
      | _ => exact congrArg Tree.foreign hdatum

theorem tree (hf : KeepsAtoms f) (h : s.Carried t f d v) (hs : d ≤ s.depth) (ht : d ≤ t.depth) :
    t.tree (f v) = s.tree v := h.treeTo hf hs ht (Nat.le_succ_of_le hs) (Nat.le_succ_of_le ht)

end Carried

end Manuscript.Store
