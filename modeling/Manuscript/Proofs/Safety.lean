import Manuscript.Proofs.WrittenText
import Manuscript.Statistics
import Manuscript.Validation
/-!
# Trees that pass validation

A validation without reports has found every child in its place. It leaves no value behind that a rendering
or a count would stumble over.
-/
namespace Manuscript

namespace Script

variable {α σ : Type}

def OfActs (script : Script α) : Prop := ∀ step ∈ script, ∃ a, step = .act a

theorem ofActs_nil : OfActs ([] : Script α) := by
  intro step h
  cases h

theorem ofActs_act (a : α) : OfActs [.act a] := by
  intro step h
  exact ⟨a, List.mem_singleton.mp h⟩

theorem OfActs.append {s t : Script α} (hs : s.OfActs) (ht : t.OfActs) : OfActs (s ++ t) := by
  intro step h
  rcases List.mem_append.mp h with h | h
  · exact hs step h
  · exact ht step h

theorem acts_append (as bs : List α) : acts (as ++ bs) = acts as ++ acts bs := List.map_append

theorem ofActs_flatten {scripts : List (Script α)} (h : ∀ s ∈ scripts, s.OfActs) :
    OfActs scripts.flatten := by
  intro step hstep
  obtain ⟨s, hs, hin⟩ := List.mem_flatten.mp hstep
  exact h s hs step hin

theorem OfActs.exists_acts {script : Script α} (h : script.OfActs) : ∃ as, script = acts as := by
  induction script with
  | nil => exact ⟨[], rfl⟩
  | cons step script ih =>
    obtain ⟨a, rfl⟩ := h step List.mem_cons_self
    obtain ⟨as, rfl⟩ := ih fun s hs => h s (List.mem_cons_of_mem _ hs)
    exact ⟨a :: as, rfl⟩

end Script

namespace Tree

variable {t : Tree} {ts : List Tree}

theorem checkBlocks_eq_flatten (ts : List Tree) :
    checkBlocks ts = (ts.map fun t => if t.isBlock then check t else []).flatten := by
  induction ts with
  | nil => rfl
  | cons t ts ih => rw [checkBlocks, ih, List.map_cons, List.flatten_cons]

theorem checkInlines_eq_mapIdx (i : Nat) (ts : List Tree) :
    checkInlines i ts = ts.mapIdx fun j t =>
      if t.isInline then check t else [.act (.notInline (i + j) t.typeName)] := by
  induction ts generalizing i with
  | nil => rfl
  | cons t ts ih =>
    rw [checkInlines, ih, List.mapIdx_cons]
    simp only [Nat.add_zero, Nat.add_assoc, Nat.add_comm 1]

theorem reports_nil {violation? : Nat → Tree → Option Violation}
    (h : (reports violation? ts).flatten = []) (ht : t ∈ ts) : ∃ i, violation? i t = none := by
  obtain ⟨i, hi, rfl⟩ := List.mem_iff_getElem.mp ht
  have hnil := List.flatten_eq_nil_iff.mp h ((violation? i ts[i]).map Step.act).toList
    (List.mem_mapIdx.mpr ⟨i, hi, rfl⟩)
  exact ⟨i, by simpa using hnil⟩

theorem reports_ofActs (violation? : Nat → Tree → Option Violation) (ts : List Tree) :
    Script.OfActs (reports violation? ts).flatten := by
  apply Script.ofActs_flatten
  intro s hs
  obtain ⟨i, hi, rfl⟩ := List.mem_mapIdx.mp hs
  cases violation? i ts[i] with
  | none => exact Script.ofActs_nil
  | some v => exact Script.ofActs_act v

theorem kind?_of_isInline (h : t.isInline = true) : t.kind? ≠ none := by
  intro hk
  simp [isInline, hk] at h

theorem kind?_of_isBlock (h : t.isBlock = true) : t.kind? ≠ none := by
  intro hk
  simp [isBlock, hk] at h

theorem checkBlocks_ofActs (h : ∀ t ∈ ts, t.kind? ≠ none → t.check.OfActs) :
    (checkBlocks ts).OfActs := by
  rw [checkBlocks_eq_flatten]
  apply Script.ofActs_flatten
  intro s hs
  obtain ⟨t, ht, rfl⟩ := List.mem_map.mp hs
  by_cases hblock : t.isBlock = true
  · rw [if_pos hblock]
    exact h t ht (kind?_of_isBlock hblock)
  · rw [if_neg hblock]
    exact Script.ofActs_nil

/-- The walk goes down into inline content, and reports any other. -/
theorem inline_ofActs (h : t.kind? ≠ none → t.check.OfActs) (v : Violation) :
    Script.OfActs (if t.isInline then check t else [.act v]) := by
  split
  · rename_i hinline
    exact h (kind?_of_isInline hinline)
  · exact Script.ofActs_act v

theorem inline_nil {v : Violation} (h : (if t.isInline then check t else [.act v]) = []) :
    t.isInline = true ∧ t.check = [] := by
  split at h
  · rename_i hinline
    exact ⟨hinline, h⟩
  · cases h

theorem checkInlines_ofActs (h : ∀ t ∈ ts, t.kind? ≠ none → t.check.OfActs) (i : Nat) :
    Script.OfActs (checkInlines i ts).flatten := by
  rw [checkInlines_eq_mapIdx]
  apply Script.ofActs_flatten
  intro s hs
  obtain ⟨j, hj, rfl⟩ := List.mem_mapIdx.mp hs
  exact inline_ofActs (h ts[j] (List.getElem_mem hj)) _

theorem reportRow_ofActs {strays : Prop} (h : t.Regular strays) (i : Nat) : (reportRow i t).OfActs := by
  cases h with
  | tableRow row =>
    rw [reportRow]
    cases rowViolation? i row with
    | none => exact Script.ofActs_nil
    | some v => exact Script.ofActs_act v
  | _ => exact Script.ofActs_act _

/-- The walk over a regular tree is stopped by nothing. -/
theorem check_ofActs {strays : Prop} (h : t.Regular strays) (root : t.kind? ≠ none) :
    t.check.OfActs := by
  induction h with
  | bold inner ih =>
    rw [check]
    exact inline_ofActs ih _
  | italic inner ih =>
    rw [check]
    exact inline_ofActs ih _
  | paragraph inner ih =>
    rw [check, Supply.each_listed, List.append_nil]
    exact checkInlines_ofActs ih 0
  | sectioning name inner ih =>
    rw [check, Supply.each_listed]
    exact (reports_ofActs _ _).append (checkBlocks_ofActs ih)
  | preamble title author inner ih =>
    rw [check, Supply.each_listed, List.append_nil]
    exact reports_ofActs _ _
  | document declared first inner ihFront ih =>
    rw [check, Supply.each_listed]
    refine Script.OfActs.append ?_ ((reports_ofActs _ _).append (checkBlocks_ofActs ih))
    split
    · rename_i hfront
      exact ihFront (by simp [hfront])
    · exact Script.ofActs_act _
  | align inner ih =>
    rw [check, Supply.each_listed, List.append_nil]
    exact reports_ofActs _ _
  | list kind argument inner ih =>
    rw [check, Supply.each_listed, List.append_nil]
    exact reports_ofActs _ _
  | table standard declared inner ih =>
    rw [check, Supply.each_listed, List.append_nil]
    apply Script.ofActs_flatten
    intro s hs
    obtain ⟨i, hi, rfl⟩ := List.mem_mapIdx.mp hs
    exact reportRow_ofActs (inner _ (List.getElem_mem hi)) i
  | foreign allowed value => exact absurd rfl root
  | _ => exact Script.ofActs_nil

/-- A walk of reports alone collects them in order. -/
theorem validate_of_acts {found : List Violation} (h : t.check = Script.acts found) :
    t.validate false = .start found := by
  have hrun : t.validate false = .start (found.foldl (fun seen v => seen ++ [v]) []) := by
    rw [validate, h]
    exact Script.fold_acts (fun seen v => seen ++ [v]) found []
  simp [hrun, ← List.flatMap_def]

theorem check_nil_of_validate {strays : Prop} (h : t.Regular strays) (root : t.kind? ≠ none)
    (clean : (t.validate false).state = []) : t.check = [] := by
  obtain ⟨found, hfound⟩ := (check_ofActs h root).exists_acts
  rw [validate_of_acts hfound] at clean
  obtain rfl : found = [] := clean
  exact hfound

/-- The nodes that have no place for children. -/
def Childless : Tree → Prop
  | plain _ | inlineMath _ | tableOfContents | titlePage | clearPage | environment _ _ | userDefined _
  | input _ | usePackage _ _ | newCommand _ _ _ | preambleLine _ | equation _ _ _ | item _
  | tableRow _ => True
  | _ => False

theorem Regular.sound_of_childless {strays : Prop} (h : t.Regular strays) (leaf : t.Childless) :
    t.OfNodes ∧ t.RowsCounted := by
  have hcounted {u : Tree} (own : u.OwnRows) (hu : u.parts = []) : u.RowsCounted :=
    rowsCounted_of_parts own (by simp [hu])
  cases h with
  | plain text => exact ⟨.plain text, hcounted trivial rfl⟩
  | inlineMath text => exact ⟨.inlineMath text, hcounted trivial rfl⟩
  | tableOfContents => exact ⟨.tableOfContents, hcounted trivial rfl⟩
  | titlePage => exact ⟨.titlePage, hcounted trivial rfl⟩
  | clearPage => exact ⟨.clearPage, hcounted trivial rfl⟩
  | environment name lines => exact ⟨.environment name lines, hcounted trivial rfl⟩
  | userDefined text => exact ⟨.userDefined text, hcounted trivial rfl⟩
  | input path => exact ⟨.input path, hcounted trivial rfl⟩
  | usePackage package argument => exact ⟨.usePackage package argument, hcounted trivial rfl⟩
  | newCommand name definition arguments =>
    exact ⟨.newCommand name definition arguments, hcounted trivial rfl⟩
  | preambleLine line => exact ⟨.preambleLine line, hcounted trivial rfl⟩
  | equation text label notNumbered => exact ⟨.equation text label notNumbered, hcounted trivial rfl⟩
  | item text => exact ⟨.item text, hcounted trivial rfl⟩
  | tableRow row => exact ⟨.tableRow row, hcounted trivial rfl⟩
  | _ => exact leaf.elim

theorem Regular.childless {strays : Prop} (h : t.Regular strays)
    (hk : t.isPreambleEntry = true ∨ t.kind? = some .equation ∨ t.kind? = some .item ∨
      t.kind? = some .tableRow) : t.Childless := by
  cases h with
  | usePackage | newCommand | preambleLine | equation | item | tableRow => trivial
  | _ => simp [isPreambleEntry, kind?, Kind.isPreambleEntry] at hk

theorem checkBlocks_nil (h : checkBlocks ts = []) (ht : t ∈ ts) (hblock : t.isBlock = true) :
    t.check = [] := by
  rw [checkBlocks_eq_flatten] at h
  have hnil := List.flatten_eq_nil_iff.mp h _ (List.mem_map.mpr ⟨t, ht, rfl⟩)
  rwa [if_pos hblock] at hnil

theorem checkInlines_nil {i : Nat} (h : (checkInlines i ts).flatten = []) (ht : t ∈ ts) :
    t.isInline = true ∧ t.check = [] := by
  rw [checkInlines_eq_mapIdx] at h
  obtain ⟨j, hj, rfl⟩ := List.mem_iff_getElem.mp ht
  exact inline_nil (List.flatten_eq_nil_iff.mp h _ (List.mem_mapIdx.mpr ⟨j, hj, rfl⟩))

theorem reportRow_nil {strays : Prop} (h : t.Regular strays) {i : Nat} (hnil : reportRow i t = []) :
    t.kind? = some .tableRow := by
  cases h with
  | tableRow row => rfl
  | _ => simp [reportRow, kind?] at hnil

theorem reports_sound {strays : Prop} {violation? : Nat → Tree → Option Violation}
    (h : ∀ t ∈ ts, t.Regular strays)
    (hv : ∀ i t, violation? i t = none → t.isPreambleEntry = true ∨ t.kind? = some .equation ∨
      t.kind? = some .item ∨ t.kind? = some .tableRow)
    (clean : (reports violation? ts).flatten = []) : ∀ t ∈ ts, t.OfNodes ∧ t.RowsCounted := by
  intro t ht
  obtain ⟨i, hi⟩ := reports_nil clean ht
  exact (h t ht).sound_of_childless ((h t ht).childless (hv i t hi))

/-- Blocks are all in their place, and in them all is. -/
theorem blocks_nil {holder : Holder} (h : (reports (blockViolation? holder) ts).flatten ++ checkBlocks ts = [])
    (ht : t ∈ ts) : t.isBlock = true ∧ t.check = [] := by
  obtain ⟨hreports, hblocks⟩ := List.append_eq_nil_iff.mp h
  obtain ⟨i, hi⟩ := reports_nil hreports ht
  have hblock : t.isBlock = true := by simpa [blockViolation?] using hi
  exact ⟨hblock, checkBlocks_nil hblocks ht hblock⟩

theorem blocks_sound {holder : Holder}
    (ih : ∀ t ∈ ts, t.kind? ≠ none → t.check = [] → t.OfNodes ∧ t.RowsCounted)
    (h : (reports (blockViolation? holder) ts).flatten ++ checkBlocks ts = []) :
    ∀ t ∈ ts, t.OfNodes ∧ t.RowsCounted := by
  intro t ht
  obtain ⟨hblock, hnil⟩ := blocks_nil h ht
  exact ih t ht (kind?_of_isBlock hblock) hnil

/-- Without reports on a regular tree every child is a node, and in its place. -/
theorem check_sound {strays : Prop} (h : t.Regular strays) (root : t.kind? ≠ none)
    (clean : t.check = []) : t.OfNodes ∧ t.RowsCounted := by
  -- a node that no report was made for is either gone down into or has no children
  induction h with
  | bold inner ih =>
    rw [check] at clean
    obtain ⟨hinline, hnil⟩ := inline_nil clean
    obtain ⟨hnodes, hcounted⟩ := ih (kind?_of_isInline hinline) hnil
    exact ⟨.bold hnodes, rowsCounted_of_parts trivial (by simpa [parts] using hcounted)⟩
  | italic inner ih =>
    rw [check] at clean
    obtain ⟨hinline, hnil⟩ := inline_nil clean
    obtain ⟨hnodes, hcounted⟩ := ih (kind?_of_isInline hinline) hnil
    exact ⟨.italic hnodes, rowsCounted_of_parts trivial (by simpa [parts] using hcounted)⟩
  | @paragraph content inner ih =>
    rw [check, Supply.each_listed, List.append_nil] at clean
    have hall : ∀ u ∈ content, u.OfNodes ∧ u.RowsCounted := by
      intro u hu
      obtain ⟨hinline, hnil⟩ := checkInlines_nil clean hu
      exact ih u hu (kind?_of_isInline hinline) hnil
    exact ⟨.paragraph fun u hu => (hall u hu).1,
      rowsCounted_of_parts trivial fun u hu => (hall u hu).2⟩
  | sectioning name inner ih =>
    rw [check, Supply.each_listed] at clean
    have hall := blocks_sound ih clean
    exact ⟨.sectioning name fun u hu => (hall u hu).1,
      rowsCounted_of_parts trivial fun u hu => (hall u hu).2⟩
  | preamble title author inner ih =>
    rw [check, Supply.each_listed, List.append_nil] at clean
    have hall := reports_sound inner (fun i u hi => .inl (by simpa [entryViolation?] using hi)) clean
    exact ⟨.preamble title author fun u hu => (hall u hu).1,
      rowsCounted_of_parts trivial fun u hu => (hall u hu).2⟩
  | @document documentClass front elements declared first inner ihFront ih =>
    rw [check, Supply.each_listed] at clean
    obtain ⟨hfirst, hblocks⟩ := List.append_eq_nil_iff.mp clean
    have hall := blocks_sound ih hblocks
    obtain ⟨hnodes, hcounted⟩ : front.OfNodes ∧ front.RowsCounted := by
      split at hfirst
      · rename_i hfront
        exact ihFront (by simp [hfront]) hfirst
      · cases hfirst
    refine ⟨.document declared hnodes fun u hu => (hall u hu).1, rowsCounted_of_parts trivial ?_⟩
    intro u hu
    rw [parts] at hu
    split at hu
    · exact (hall u hu).2
    · rcases List.mem_cons.mp hu with rfl | hu
      · exact hcounted
      · exact (hall u hu).2
  | align inner ih =>
    rw [check, Supply.each_listed, List.append_nil] at clean
    have hall := reports_sound inner
      (fun i u hi => .inr (.inl (by simpa [equationViolation?] using hi))) clean
    exact ⟨.align fun u hu => (hall u hu).1, rowsCounted_of_parts trivial fun u hu => (hall u hu).2⟩
  | list kind argument inner ih =>
    rw [check, Supply.each_listed, List.append_nil] at clean
    have hall := reports_sound inner
      (fun i u hi => .inr (.inr (.inl (by simpa [itemViolation?] using hi)))) clean
    exact ⟨.list kind argument fun u hu => (hall u hu).1,
      rowsCounted_of_parts trivial fun u hu => (hall u hu).2⟩
  | @table rows settings standard declared inner ih =>
    rw [check, Supply.each_listed, List.append_nil] at clean
    have hrows : ∀ u ∈ rows, u.kind? = some .tableRow := by
      intro u hu
      obtain ⟨i, hi, rfl⟩ := List.mem_iff_getElem.mp hu
      exact reportRow_nil (inner _ hu)
        (List.flatten_eq_nil_iff.mp clean _ (List.mem_mapIdx.mpr ⟨i, hi, rfl⟩))
    have hall : ∀ u ∈ rows, u.OfNodes ∧ u.RowsCounted := by
      intro u hu
      exact (inner u hu).sound_of_childless ((inner u hu).childless (.inr (.inr (.inr (hrows u hu)))))
    have hown : (table .listed rows settings (.aligned standard)).OwnRows := by
      cases declared with
      | raw spec => trivial
      | typed alignments => exact hrows
    exact ⟨.table standard declared fun u hu => (hall u hu).1,
      rowsCounted_of_parts hown fun u hu => (hall u hu).2⟩
  | foreign allowed value => exact absurd rfl root
  | _ => exact (show Regular strays _ by constructor).sound_of_childless trivial

theorem countedAll_ofActs (ts : List Tree) : (countedAll .listed ts).OfActs := by
  rw [countedAll, Supply.each_listed, List.append_nil]
  apply Script.ofActs_flatten
  intro s hs
  obtain ⟨t, ht, rfl⟩ := List.mem_map.mp hs
  exact Script.ofActs_act _

theorem tallyAll_ofActs (h : ∀ t ∈ ts, t.tally.OfActs) :
    Script.OfActs (Supply.listed.each (tallyAll ts) []) := by
  rw [Supply.each_listed, List.append_nil]
  induction ts with
  | nil => exact Script.ofActs_nil
  | cons t ts ih =>
    rw [tallyAll, List.flatten_cons]
    exact (h t List.mem_cons_self).append (ih fun u hu => h u (List.mem_cons_of_mem _ hu))

theorem tally_ofActs (h : t.OfNodes) : t.tally.OfActs := by
  induction h with
  | plain text => exact Script.ofActs_act _
  | bold inner ih => exact (Script.ofActs_act _).append ih
  | italic inner ih => exact (Script.ofActs_act _).append ih
  | paragraph inner ih => exact (countedAll_ofActs _).append (tallyAll_ofActs ih)
  | @sectioning name elements inner ih =>
    have hnamed := (Script.ofActs_act (.named (.text name))).append (countedAll_ofActs elements)
    have hentered := (Script.ofActs_act .entered).append (tallyAll_ofActs ih)
    exact (hnamed.append hentered).append (Script.ofActs_act _)
  | preamble title author inner ih => exact (countedAll_ofActs _).append (tallyAll_ofActs ih)
  | @document _ front elements declared first inner ihFront ih =>
    have hcounted := (Script.ofActs_act (.counted front.typeName)).append (countedAll_ofActs elements)
    exact (hcounted.append ihFront).append (tallyAll_ofActs ih)
  | align inner ih => exact (countedAll_ofActs _).append (tallyAll_ofActs ih)
  | list kind argument inner ih => exact (countedAll_ofActs _).append (tallyAll_ofActs ih)
  | table standard declared inner ih => exact (countedAll_ofActs _).append (tallyAll_ofActs ih)
  | foreign allowed => exact allowed.elim
  | _ => exact Script.ofActs_nil

theorem ofTree_fault (h : t.OfNodes) : (Statistics.ofTree t).fault = none := by
  have hacts : Script.OfActs (t.counted :: t.tally) := (Script.ofActs_act _).append (tally_ofActs h)
  obtain ⟨marks, hmarks⟩ := hacts.exists_acts
  rw [Statistics.ofTree, Statistics.recordAll, hmarks, Script.fold_acts]
  rfl

/-- A tree that a validation has no reports on is rendered and counted without a fault, whatever stands in
the places of children. -/
theorem safe_of_validate (h : t.Regular True) (root : t.kind? ≠ none)
    (clean : (t.validate false).state = []) :
    (∀ o : Options, ∃ text, t.render o = .ok text) ∧ (Statistics.ofTree t).fault = none := by
  obtain ⟨hnodes, hcounted⟩ := check_sound h root (check_nil_of_validate h root clean)
  exact ⟨fun o => ⟨t.text o, render_counted hnodes hcounted o⟩, ofTree_fault hnodes⟩

theorem safe_of_validate_itemize :
    let t := document (.standard .article) (preamble none none .listed [usePackage "amsmath" none]) .listed
      [list .itemize .listed [item "one"] none, paragraph .listed [bold (plain "two")]]
    t.Regular True ∧ t.kind? ≠ none ∧ (t.validate false).state = [] ∧
      (∃ text, t.render .standard = .ok text) ∧ (Statistics.ofTree t).fault = none := by
  intro t
  have hregular : t.Regular True := by
    have hfront : Regular True (preamble none none .listed [usePackage "amsmath" none]) :=
      .preamble none none (List.forall_mem_singleton.mpr (.usePackage "amsmath" none))
    have hlist : Regular True (list .itemize .listed [item "one"] none) :=
      .list .itemize none (List.forall_mem_singleton.mpr (.item "one"))
    have hparagraph : Regular True (paragraph .listed [bold (plain "two")]) :=
      .paragraph (List.forall_mem_singleton.mpr (.bold (.plain "two")))
    exact .document (.inl ⟨.article, rfl⟩) hfront (by simp [hlist, hparagraph])
  have hroot : t.kind? ≠ none := by decide
  have hclean : (t.validate false).state = [] := by decide
  obtain ⟨hrender, hcount⟩ := safe_of_validate hregular hroot hclean
  exact ⟨hregular, hroot, hclean, hrender .standard, hcount⟩

end Tree

end Manuscript
