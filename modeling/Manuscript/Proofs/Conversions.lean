import Manuscript.Proofs.Growing
/-!
# Conversions only add

Every conversion grows a sound store, and what it gives is of the kind that the conversion is for.
-/
namespace Manuscript.Change

open Cell (fieldIn)

variable {s : Store} {v : Value} {kind : Kind}

theorem kind?_newObject (s : Store) (kind : Kind) (fields : List (String × Value)) :
    (s.newObject kind fields).1.kind? (s.newObject kind fields).2 = some kind :=
  Store.kind?_eq_some.mpr ⟨_, fields, rfl, Store.cell?_alloc_new s _⟩

theorem grows_newObject (hs : s.Sound) (h : kind.bearing = []) (fields : List (String × Value)) :
    Grows s (newObject kind fields) fun t v => t.kind? v = some kind := by
  have hlist : ∀ name, kind.listField? ≠ some name := by
    intro name hname
    have hmem := Kind.mem_bearing hname
    rw [h] at hmem
    cases hmem
  refine grows_make hs ((Store.GrowsTo.refl s).alloc fun r hr => ?_)
    (·.newObject (Store.fits_of_bearing h) fun name hname => absurd hname (hlist name))
    (kind?_newObject s kind fields)
  obtain ⟨k, given, name, hc, hname, _⟩ := hr
  obtain ⟨rfl, _⟩ : kind = k ∧ fields = given := by simpa using hc
  exact absurd hname (hlist name)

/-- An object around a new list of what it may hold. -/
theorem grows_newHolder (hs : s.Sound) {items : List Value} {fields : Value → List (String × Value)}
    {name : String} (hname : kind.listField? = some name) (hlist : ∀ l, fieldIn (fields l) name = l)
    (may : ∀ v ∈ items, s.mayHold kind v = true) (front : kind ≠ .document)
    (counted : kind = .tableRow → ∀ l, fieldIn (fields l) "columns" = .none ∨
      ∃ n : Int, (fieldIn (fields l) "columns").asInt? = some n ∧ items.length ≤ n) :
    Grows s (newList items >>= fun l => newObject kind (fields l)) fun t v => t.kind? v = some kind := by
  intro notes
  let t := (s.newList items).1
  let l := (s.newList items).2
  have hrun : (newList items >>= fun l => newObject kind (fields l)).runOn ⟨s, notes⟩ =
      (.ok (t.newObject kind (fields l)).2, ⟨(t.newObject kind (fields l)).1, notes⟩) := rfl
  obtain ⟨(hgrows : s.GrowsTo t), (hsound : t.Sound), hpost⟩ := grows_newList hs items notes
  obtain ⟨hitems, hfree⟩ : t.list? l = some items ∧ ∀ p, ¬ t.Holds p l := hpost l rfl
  have hfield (given : String) (h : kind.listField? = some given) : fieldIn (fields l) given = l := by
    obtain rfl := Option.some.inj (hname.symm.trans h)
    exact hlist l
  have hfits : t.Fits kind (fieldIn (fields l)) := by
    refine ⟨fun given h => ⟨items, ?_, fun v hv => ?_⟩, fun hkind => ?_, fun hkind => absurd hkind front, ?_⟩
    · rw [hfield given h]
      exact hitems
    · exact Store.mayHold_mono hgrows.keeps.kind? (may v hv)
    · rcases hkind with rfl | rfl <;> cases hname
    · rintro hkind found hfound
      have hcells : fieldIn (fields l) "cells" = l := hfield "cells" (by subst hkind; rfl)
      rw [hcells, hitems] at hfound
      obtain rfl := Option.some.inj hfound
      exact counted hkind l
  rw [hrun]
  refine ⟨hgrows.alloc fun r hr => ?_, hsound.newObject hfits ?_, fun a ha => ?_⟩
  · obtain ⟨k, given, field, hc, hk, hr⟩ := hr
    obtain ⟨rfl, rfl⟩ : kind = k ∧ fields l = given := by simpa using hc
    rw [hfield field hk] at hr
    exact Nat.le_of_eq (congrArg Ref.index (Value.ref.inj hr))
  · intro given h p hp
    rw [hfield given h] at hp
    exact absurd hp (hfree p)
  · obtain rfl := Except.ok.inj ha
    exact kind?_newObject t kind (fields l)

theorem grows_items (hs : s.Sound) (v : Value) :
    Grows s (items v) fun _ found => found = (s.supply v).2 := by
  refine grows_look_bind ?_
  rcases hsupply : s.supply v with ⟨_ | ⟨name, _ | source⟩ | ⟨name, innermost, counts⟩, found⟩
  · exact grows_pure hs rfl
  · exact grows_pure hs rfl
  · obtain ⟨rest, hcell⟩ := Store.source_of_supplyTo s.depth (congrArg Prod.fst hsupply)
    refine (grows_alter hs fun _ => ⟨Store.growsTo_put_iterator hcell, hs.put_iterator hcell⟩).bind ?_
    exact fun t _ _ ht _ => grows_pure ht rfl
  · exact grows_refuse hs _

theorem grows_itemTexts (hs : s.Sound) (v : Value) :
    Grows s (itemTexts v) fun _ texts => texts.length = (s.supply v).2.length := by
  refine (grows_items hs v).bind fun t found _ ht hfound => ?_
  exact grows_look ht (by rw [← hfound, List.length_map])

theorem grows_newPlain (hs : s.Sound) (text : Value) :
    Grows s (newPlain text) fun t v => t.kind? v = some .plain := grows_newObject hs rfl _

theorem grows_newEnvironment (hs : s.Sound) (name : Value) (lines : List Value) :
    Grows s (newEnvironment name lines) fun t v => t.kind? v = some .environment :=
  (grows_newList hs lines).bind fun _ _ _ ht _ => grows_newObject ht rfl _

theorem grows_newTypedSettings (hs : s.Sound) (columns : List Value) :
    Grows s (newTypedSettings columns) fun t v => t.kind? v = some .typedSettings :=
  (grows_newList hs columns).bind fun _ _ _ ht _ => grows_newObject ht rfl _

theorem grows_newRow (hs : s.Sound) {row : Row} (h : ∀ n, row.columns = some n → row.cells.length ≤ n) :
    Grows s (newRow row) fun t v => t.kind? v = some .tableRow := by
  have hcells : ∀ v ∈ row.cells.map Value.text, s.mayHold .tableRow v = true := by
    simp [Store.mayHold_tableRow]
  refine grows_newHolder hs rfl (fun _ => rfl) hcells (by decide) fun _ l => ?_
  cases hcolumns : row.columns with
  | none => exact .inl rfl
  | some n => exact .inr ⟨n, rfl, by simpa using h n hcolumns⟩

theorem grows_toElement (hs : s.Sound) (v : Value) :
    Grows s (toElement v) fun t w => t.mayHold .document w = true := by
  have hmay {t : Store} {w : Value} {k : Kind} (hk : t.kind? w = some k) (h : k.isBlock = true) :
      t.mayHold .document w = true := (Option.any_eq_true _ _).mpr ⟨k, hk, h⟩
  refine grows_look_bind ?_
  dsimp only [id]
  split_ifs with hblock htext hequation
  · exact grows_pure hs hblock
  · refine (grows_newPlain hs v).bind fun t plain _ ht hplain => ?_
    have hcontent : ∀ w ∈ [plain], t.mayHold .paragraph w = true := by
      simp [Store.mayHold_eq_any, hplain, Kind.mayHold, Kind.isInline]
    refine (grows_newHolder ht rfl (fun _ => rfl) hcontent (by decide) nofun).mono ?_
    exact fun u w _ hw => hmay hw rfl
  · have hequations : ∀ w ∈ [v], s.mayHold .align w = true := by
      simp [Store.mayHold_eq_any, hequation, Kind.mayHold]
    refine (grows_newHolder hs rfl (fun _ => rfl) hequations (by decide) nofun).mono ?_
    exact fun u w _ hw => hmay hw rfl
  · split
    · split_ifs with hlines
      · exact grows_refuse hs _
      · refine (grows_items hs _).bind fun t lines _ ht _ => ?_
        exact (grows_newEnvironment ht _ lines).mono fun u w _ hw => hmay hw rfl
    · exact grows_refuse hs _

theorem grows_toInline (hs : s.Sound) (v : Value) :
    Grows s (toInline v) fun t w => t.mayHold .paragraph w = true := by
  refine grows_look_bind ?_
  dsimp only [id]
  split_ifs with hinline htext
  · exact grows_pure hs hinline
  · refine (grows_newPlain hs v).mono fun t w _ hw => ?_
    simp [Store.mayHold_eq_any, hw, Kind.mayHold, Kind.isInline]
  · exact grows_refuse hs _

theorem grows_toEquation (hs : s.Sound) (v : Value) :
    Grows s (toEquation v) fun t w => t.mayHold .align w = true := by
  have hmay {t : Store} {w : Value} (hk : t.kind? w = some .equation) : t.mayHold .align w = true := by
    simp [Store.mayHold_eq_any, hk, Kind.mayHold]
  refine grows_look_bind ?_
  dsimp only [id]
  split_ifs with htext hequation
  · exact (grows_newObject hs rfl _).mono fun t w _ => hmay
  · exact grows_pure hs (hmay hequation)
  · exact grows_refuse hs _

theorem grows_toItem (hs : s.Sound) (v : Value) :
    Grows s (toItem v) fun t w => t.mayHold .list w = true := by
  have hmay {t : Store} {w : Value} (hk : t.kind? w = some .item) : t.mayHold .list w = true := by
    simp [Store.mayHold_eq_any, hk, Kind.mayHold]
  refine grows_look_bind ?_
  split_ifs with hitem
  · exact grows_pure hs (hmay hitem)
  · exact (grows_newObject hs rfl _).mono fun t w _ => hmay

theorem grows_toRow (hs : s.Sound) (v : Value) :
    Grows s (toRow v) fun t w => t.mayHold .table w = true := by
  have hmay {t : Store} {w : Value} (hk : t.kind? w = some .tableRow) : t.mayHold .table w = true := by
    simp [Store.mayHold_eq_any, hk, Kind.mayHold]
  refine grows_look_bind ?_
  dsimp only [id]
  split_ifs with hrow hrule htext hiterable
  · exact grows_pure hs (hmay hrow)
  · refine (grows_newRow hs fun n hn => ?_).mono fun t w _ => hmay
    cases hn
  · exact grows_refuse hs _
  · exact grows_refuse hs _
  · refine (grows_itemTexts hs v).bind fun t texts _ ht _ => ?_
    refine (grows_newRow ht fun n hn => ?_).mono fun u w _ => hmay
    rw [Row.columns_make_terminated] at hn
    obtain rfl := Option.some.inj hn
    exact Int.le_refl _

theorem grows_toTypedSettings (hs : s.Sound) (columns : List Value) :
    Grows s (toTypedSettings columns) fun _ _ => True := by
  refine grows_look_bind ?_
  dsimp only [id]
  split
  · exact grows_refuse hs _
  · exact (grows_newTypedSettings hs columns).mono fun _ _ _ _ => trivial

theorem grows_toColumnSettings (hs : s.Sound) (v : Value) :
    Grows s (toColumnSettings v) fun _ _ => True := by
  refine grows_look_bind ?_
  dsimp only [id]
  split
  · exact grows_pure hs trivial
  · exact grows_pure hs trivial
  · exact (grows_newTypedSettings hs [v]).mono fun _ _ _ _ => trivial
  · exact grows_toTypedSettings hs _
  · split_ifs
    · exact (grows_newObject hs rfl _).mono fun _ _ _ _ => trivial
    · exact grows_refuse hs _

end Manuscript.Change
