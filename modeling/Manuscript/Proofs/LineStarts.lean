import Manuscript.Proofs.Safety
/-!
# Lines

In a tree without reports only paragraphs write less than whole lines, and they end the line that they have begun.
So everything else is written where a line starts, and ends its line: headings, the markers of environments, items,
equations, rows and raw lines.
-/
namespace Manuscript

/-- A text that ends with the end of a line. -/
def EndsLine (text : String) : Prop := text.toList.getLast? = some '\n'

instance (text : String) : Decidable (EndsLine text) := inferInstanceAs (Decidable (_ = _))

/-- A text behind which a line starts. -/
def AtLineStart (text : String) : Prop := text = "" ∨ EndsLine text

theorem endsLine_line (text : String) : EndsLine (text ++ "\n") := by simp [EndsLine]

namespace EndsLine

variable {text : String}

theorem ne_empty (h : EndsLine text) : text ≠ "" := by
  rintro rfl
  simp [EndsLine] at h

theorem append (s : String) (h : EndsLine text) : EndsLine (s ++ text) := by
  simp only [EndsLine, String.toList_append] at h ⊢
  rw [List.getLast?_append, h, Option.some_or]

end EndsLine

namespace AtLineStart

variable {s t : String}

theorem append (hs : AtLineStart s) (ht : AtLineStart t) : AtLineStart (s ++ t) := by
  rcases ht with rfl | ht
  · rwa [String.append_empty]
  · exact .inr (ht.append s)

theorem endsLine (h : AtLineStart s) (hne : s ≠ "") : EndsLine s := h.resolve_left hne

end AtLineStart

/-- One write of a rendering, and whether it is made inside of a paragraph. -/
structure Write where
  piece : String
  inParagraph : Bool
  deriving DecidableEq, Repr

namespace Write

def text (ws : List Write) : String := String.join (ws.map piece)

@[simp] theorem text_nil : text [] = "" := rfl

@[simp] theorem text_cons (w : Write) (ws : List Write) : text (w :: ws) = w.piece ++ text ws := by simp [text]

@[simp] theorem text_append (ws vs : List Write) : text (ws ++ vs) = text ws ++ text vs := by simp [text]

/-- The writes of an emission, none of them in a paragraph. -/
def outside (e : Emission) : List Write := e.pieces.map (⟨·, false⟩)

/-- The writes of an emission, all of them in a paragraph. -/
def inside (e : Emission) : List Write := e.pieces.map (⟨·, true⟩)

theorem map_piece_outside (e : Emission) : (outside e).map piece = e.pieces := by simp [outside, Function.comp_def]

theorem map_piece_inside (e : Emission) : (inside e).map piece = e.pieces := by simp [inside, Function.comp_def]

/-- Writes between the markers of an environment. -/
def enclosed (name argument : String) (ws : List Write) : List Write :=
  outside [Emission.line (command "begin" name ++ argument)] ++ ws ++ outside [Emission.line (command "end" name)]

end Write

namespace Tree

open Emission Write

mutual
/-- The writes of a rendering. -/
def writes (o : Options) : Tree → List Write
  | bold content => outside [write "\\textbf\x7b"] ++ writes o content ++ outside [write "\x7d"]
  | italic content => outside [write "\\textit\x7b"] ++ writes o content ++ outside [write "\x7d"]
  | paragraph supply content => inside (emit o (paragraph supply content))
  | sectioning name supply elements =>
    outside (line (command o.sectionCommand.printed name.printed) :: blankIf (supply.counts elements.length)) ++
      ((writesAll o elements).map (· ++ outside [line ""])).flatten
  | preamble title author supply elements =>
    (writesAll o elements).flatten ++
      outside (blankIf (supply.counts elements.length && (title.isSome || author.isSome)) ++ titleLines title author)
  | document documentClass front _ elements =>
    if documentClass.isPart then (writesAll o elements).flatten
    else
      outside [line (command "documentclass" documentClass.name)] ++ writes o front ++
        Write.enclosed Marker.documentEnvironment "" (writesAll o elements).flatten
  | align _ equations => Write.enclosed Marker.alignEnvironment "" (writesAll o equations).flatten
  | list kind _ items argument =>
    Write.enclosed kind.environmentName (optional argument) (writesAll o items).flatten
  | table _ rows settings standard =>
    Write.enclosed Marker.tabularEnvironment (braced (columnText rows settings standard)) (writesAll o rows).flatten
  | t => outside (emit o t)

/-- The writes of a rendering of each tree of a list. -/
def writesAll (o : Options) : List Tree → List (List Write)
  | [] => []
  | t :: ts => writes o t :: writesAll o ts
end

theorem writesAll_eq_map (o : Options) (ts : List Tree) : writesAll o ts = ts.map (writes o) := by
  induction ts with
  | nil => rfl
  | cons t ts ih => simp [writesAll, ih]

end Tree

/-! ## What is written -/

namespace Emission

open Write

/-- An emission that halts nowhere, with its writes. -/
structure Traced (e : Emission) (ws : List Write) : Prop where
  direct : e.Direct
  whole : e.ending = none
  pieces : ws.map Write.piece = e.pieces

namespace Traced

variable {d e : Emission} {vs ws : List Write}

theorem nil : Traced [] [] := ⟨by simp [Direct], rfl, rfl⟩

variable {o : Options} {text : String} {p : Tree → Prop}

theorem outside (h : e.Follows o text p) (hp : ∀ t, ¬p t) : Traced e (outside e) :=
  ⟨h.direct, (h.whole hp).1, Write.map_piece_outside e⟩

theorem inside (h : e.Follows o text p) (hp : ∀ t, ¬p t) : Traced e (inside e) :=
  ⟨h.direct, (h.whole hp).1, Write.map_piece_inside e⟩

theorem write (piece : String) : Traced [write piece] (Write.outside [write piece]) :=
  outside (.write (o := .standard) piece) (fun _ => id)

theorem append (hd : d.Traced vs) (he : e.Traced ws) : (d ++ e).Traced (vs ++ ws) where
  direct := hd.direct.append he.direct
  whole := by rw [ending_append hd.direct, hd.whole, he.whole]; rfl
  pieces := by
    rw [pieces_append hd.direct, hd.whole, List.map_append, hd.pieces, he.pieces]
    rfl

theorem note (n : Note) (h : e.Traced ws) : Traced (.act (.note n) :: e) ws := by
  have hnote : Traced [.act (.note n)] [] := ⟨by simp [Direct], rfl, rfl⟩
  exact hnote.append h

theorem flatten {α : Type} {e : α → Emission} {ws : α → List Write} {as : List α}
    (h : ∀ a ∈ as, (e a).Traced (ws a)) : Traced (as.map e).flatten (as.map ws).flatten := by
  induction as with
  | nil => exact nil
  | cons a as ih => exact (h a List.mem_cons_self).append (ih fun b hb => h b (List.mem_cons_of_mem _ hb))

theorem trees {o : Options} {ts : List Tree} (h : ∀ t ∈ ts, (t.emit o).Traced (t.writes o)) :
    Traced (Tree.emitAll o ts).flatten (Tree.writesAll o ts).flatten := by
  rw [Tree.emitAll_eq_map, Tree.writesAll_eq_map]
  exact flatten h

theorem enclosed (name argument : String) (h : e.Traced ws) :
    Traced (line (command "begin" name ++ argument) :: e ++ [line (command "end" name)])
      (Write.enclosed name argument ws) :=
  ((write _).append h).append (write _)

theorem environment (name : String) (h : e.Traced ws) :
    Traced (line (command "begin" name) :: e ++ [line (command "end" name)]) (Write.enclosed name "" ws) := by
  have hall := enclosed name "" h
  rwa [String.append_empty] at hall

end Traced

end Emission

namespace Tree

open Emission

variable {o : Options}

theorem traced_table {rows : List Tree} {settings : ColumnSettings Column} (standard : Alignment)
    (declared : settings.Declared) (own : (table .listed rows settings (.aligned standard)).OwnRows)
    (hrows : ∀ t ∈ rows, t.OfNodes) (h : ∀ t ∈ rows, (t.emit o).Traced (t.writes o)) :
    (emit o (table .listed rows settings (.aligned standard))).Traced
      (writes o (table .listed rows settings (.aligned standard))) := by
  have hbody := Traced.trees h
  cases declared with
  | raw spec =>
    simp only [emit, writes, emitTable, Supply.each_listed, Supply.length_listed, List.append_nil]
    exact (hbody.enclosed Marker.tabularEnvironment (braced spec)).note _
  | typed given =>
    obtain ⟨rs, rfl⟩ := exists_rows hrows own
    have hspec := columnSpec_rows rs given standard
    simp only [emit, writes, emitTable, emitCounted, hspec, Supply.length_listed, Supply.each_listed, List.append_nil]
    exact (hbody.enclosed Marker.tabularEnvironment _).note _

/-- The writes of a tree are the pieces that its rendering writes. -/
theorem traced_emit (o : Options) {t : Tree} (h : t.OfNodes) (counted : t.RowsCounted) :
    (t.emit o).Traced (t.writes o) := by
  have hfollows {t : Tree} (h : t.OfNodes) := emit_follows o h
  have huncounted {t : Tree} (counted : t.RowsCounted) := (rowsCounted_iff_not t).mp counted
  have hparts {t : Tree} (counted : t.RowsCounted) := ((rowsCounted_iff t).mp counted).2
  induction h with
  | bold inner ih =>
    exact ((Traced.write _).append (ih (hparts counted _ List.mem_cons_self))).append (.write _)
  | italic inner ih =>
    exact ((Traced.write _).append (ih (hparts counted _ List.mem_cons_self))).append (.write _)
  | paragraph inner ih => exact .inside (hfollows (.paragraph inner)) (huncounted counted)
  | @sectioning name elements inner ih =>
    have hbody := Traced.flatten fun t (ht : t ∈ elements) =>
      (ih t ht (hparts counted t ht)).append (.write ("" ++ "\n"))
    simp only [emit, writes, Supply.each_listed, List.append_nil, emitAll_eq_map, writesAll_eq_map, List.map_map]
    exact (Traced.outside ((Follows.line (o := o) _).append (.blankIf _)) (by simp)).append hbody
  | @preamble title author elements inner ih =>
    have hbody := Traced.trees fun t ht => ih t ht (hparts counted t ht)
    have htitle := Traced.outside ((Follows.blankIf (o := o) (Supply.listed.counts elements.length &&
      (title.isSome || author.isSome))).append (.titleLines title author)) (by simp)
    simp only [emit, writes, Supply.each_listed, List.append_nil, List.append_assoc]
    exact hbody.append htitle
  | @document documentClass front elements declared first inner ihFront ih =>
    simp only [emit, writes, Supply.each_listed, List.append_nil, Supply.length_listed]
    refine Traced.note _ ?_
    have hall := hparts counted
    rw [parts] at hall
    split
    · rename_i hpart
      rw [if_pos hpart] at hall
      exact .trees fun t ht => ih t ht (hall t ht)
    · rename_i hpart
      rw [if_neg hpart] at hall
      have hfront := ihFront (hall front List.mem_cons_self)
      have hbody := Traced.trees fun t ht => ih t ht (hall t (List.mem_cons_of_mem _ ht))
      have hopening := Traced.write (command "documentclass" documentClass.name ++ "\n")
      have hdocument := (hopening.append hfront).append (hbody.environment Marker.documentEnvironment)
      simpa [line] using hdocument
  | align inner ih =>
    simp only [emit, writes, Supply.each_listed, List.append_nil]
    exact .environment _ (.trees fun t ht => ih t ht (hparts counted t ht))
  | list kind argument inner ih =>
    simp only [emit, writes, Supply.each_listed, List.append_nil]
    exact .enclosed _ _ (.trees fun t ht => ih t ht (hparts counted t ht))
  | table standard declared inner ih =>
    obtain ⟨own, hall⟩ := (rowsCounted_iff _).mp counted
    exact traced_table standard declared own inner fun t ht => ih t ht (hall t ht)
  | foreign allowed => exact allowed.elim
  | _ => exact .outside (hfollows (by constructor)) (huncounted counted)

end Tree

/-! ## Whole lines -/

/-- Writes that start and end lines wherever they are made outside of paragraphs, and leave none begun. -/
structure Lined (ws : List Write) : Prop where
  starts : ∀ before w after, ws = before ++ w :: after → w.inParagraph = false →
    AtLineStart (Write.text before) ∧ EndsLine (Write.text (before ++ [w]))
  ends : AtLineStart (Write.text ws)

namespace Lined

open Write

variable {vs ws : List Write}

theorem nil : Lined [] := ⟨fun before w after h => by simp at h, .inl rfl⟩

theorem append (hv : Lined vs) (hw : Lined ws) : Lined (vs ++ ws) where
  starts before w after h hout := by
    rcases List.append_eq_append_iff.mp h with ⟨later, rfl, hlater⟩ | ⟨rest, hvs, hrest⟩
    · obtain ⟨hstart, hend⟩ := hw.starts later w after hlater hout
      refine ⟨?_, ?_⟩
      · rw [text_append]
        exact hv.ends.append hstart
      · rw [List.append_assoc, text_append]
        exact hend.append _
    · cases rest with
      | nil =>
        -- the write is the first one behind `vs`
        obtain rfl : vs = before := by simpa using hvs
        obtain ⟨-, hend⟩ := hw.starts [] w after hrest.symm hout
        refine ⟨hv.ends, ?_⟩
        rw [text_append]
        exact hend.append _
      | cons first rest =>
        obtain ⟨rfl, -⟩ := List.cons.inj hrest
        exact hv.starts before w rest hvs hout
  ends := by
    rw [text_append]
    exact hv.ends.append hw.ends

theorem flatten {wss : List (List Write)} (h : ∀ ws ∈ wss, Lined ws) : Lined wss.flatten := by
  induction wss with
  | nil => exact nil
  | cons ws wss ih => exact (h ws List.mem_cons_self).append (ih fun vs hvs => h vs (List.mem_cons_of_mem _ hvs))

theorem line (text : String) : Lined (outside [Emission.line text]) where
  starts before w after h hout := by
    have hone : before ++ w :: after = [] ++ [⟨text ++ "\n", false⟩] := h.symm
    obtain ⟨rfl, rfl, rfl⟩ : before = [] ∧ w = ⟨text ++ "\n", false⟩ ∧ after = [] := by
      cases before with
      | nil => simpa using hone
      | cons first before => simp at hone
    exact ⟨.inl rfl, by simpa using endsLine_line text⟩
  ends := by
    rw [Write.text, map_piece_outside]
    exact .inr (by simpa [Emission.line, Emission.write, Emission.pieces, Event.pieces] using endsLine_line text)

theorem lines {e : Emission} (h : ∀ step ∈ e, ∃ text, step = Emission.line text) : Lined (outside e) := by
  induction e with
  | nil => exact nil
  | cons step e ih =>
    obtain ⟨text, rfl⟩ := h step List.mem_cons_self
    exact (line text).append (ih fun later hlater => h later (List.mem_cons_of_mem _ hlater))

theorem enclosed (name argument : String) (h : Lined ws) : Lined (Write.enclosed name argument ws) :=
  ((line _).append h).append (line _)

/-- In a paragraph anything may be written, if its line is ended. -/
theorem inside {e : Emission} (h : EndsLine (text (inside e))) : Lined (inside e) where
  starts before w after hsplit hout := by
    have hw : w ∈ Write.inside e := by simp [hsplit]
    obtain ⟨piece, -, rfl⟩ := List.mem_map.mp hw
    cases hout
  ends := .inr h

theorem endsLine_of_cons {w : Write} (h : Lined (w :: ws)) (hout : w.inParagraph = false) :
    EndsLine (text (w :: ws)) := by
  obtain ⟨-, hend⟩ := h.starts [] w ws rfl hout
  refine h.ends.endsLine fun hempty => ?_
  have hw : w.piece = "" := by
    rw [text_cons] at hempty
    exact (String.append_eq_empty_iff.mp hempty).1
  exact hend.ne_empty (by simpa using hw)

end Lined

/-! ## Trees without reports -/

namespace Tree

open Emission

variable {o : Options} {c s t : Tree}

theorem check_of_childless (h : t.Childless) : t.check = [] := by
  cases t <;> first | rfl | exact h.elim

theorem isInline_of_isBlock (h : t.isBlock = true) : t.isInline = false := by
  rw [isBlock] at h
  rw [isInline]
  cases hk : t.kind? with
  | none => rfl
  | some k =>
    rw [hk] at h
    cases k <;> first | rfl | cases h

theorem Regular.entry_clean (h : t.OfNodes) (hk : t.isPreambleEntry = true ∨ t.kind? = some .equation ∨
    t.kind? = some .item ∨ t.kind? = some .tableRow) : t.check = [] ∧ t.isInline = false := by
  refine ⟨check_of_childless (h.childless hk), ?_⟩
  cases h with
  | usePackage | newCommand | preambleLine | equation | item | tableRow => rfl
  | _ => simp [isPreambleEntry, kind?, Kind.isPreambleEntry] at hk

/-- Nothing is reported of the parts of a tree of which nothing is reported, and only paragraphs and inline content
have parts that are inline content. -/
theorem Regular.part_clean (h : t.OfNodes) (clean : t.check = []) (hc : c ∈ t.parts) :
    c.OfNodes ∧ c.check = [] ∧ (t.isInline = false → t.kind? ≠ some .paragraph → c.isInline = false) := by
  cases h with
  | bold inner =>
    rw [check] at clean
    obtain rfl := List.mem_singleton.mp hc
    exact ⟨inner, (inline_nil clean).2, fun hnot => by cases hnot⟩
  | italic inner =>
    rw [check] at clean
    obtain rfl := List.mem_singleton.mp hc
    exact ⟨inner, (inline_nil clean).2, fun hnot => by cases hnot⟩
  | paragraph inner =>
    rw [check, Supply.each_listed, List.append_nil] at clean
    exact ⟨inner c hc, (checkInlines_nil clean hc).2, fun _ hnot => absurd rfl hnot⟩
  | sectioning name inner =>
    rw [check, Supply.each_listed] at clean
    obtain ⟨hblock, hnil⟩ := blocks_nil clean hc
    exact ⟨inner c hc, hnil, fun _ _ => isInline_of_isBlock hblock⟩
  | preamble title author inner =>
    rw [check, Supply.each_listed, List.append_nil] at clean
    obtain ⟨i, hi⟩ := reports_nil clean hc
    obtain ⟨hnil, hnot⟩ := (inner c hc).entry_clean (.inl (by simpa [entryViolation?] using hi))
    exact ⟨inner c hc, hnil, fun _ _ => hnot⟩
  | @document documentClass front elements declared first inner =>
    rw [check, Supply.each_listed] at clean
    obtain ⟨hfirst, hblocks⟩ := List.append_eq_nil_iff.mp clean
    have helements (hc : c ∈ elements) : c.OfNodes ∧ c.check = [] ∧ c.isInline = false := by
      obtain ⟨hblock, hnil⟩ := blocks_nil hblocks hc
      exact ⟨inner c hc, hnil, isInline_of_isBlock hblock⟩
    have hfront : front.OfNodes ∧ front.check = [] ∧ front.isInline = false := by
      split at hfirst
      · rename_i hpreamble
        exact ⟨first, hfirst, by simp [isInline, hpreamble, Kind.isInline]⟩
      · cases hfirst
    have hall : c.OfNodes ∧ c.check = [] ∧ c.isInline = false := by
      rw [parts] at hc
      split at hc
      · exact helements hc
      · rcases List.mem_cons.mp hc with rfl | hc
        · exact hfront
        · exact helements hc
    exact ⟨hall.1, hall.2.1, fun _ _ => hall.2.2⟩
  | align inner =>
    rw [check, Supply.each_listed, List.append_nil] at clean
    obtain ⟨i, hi⟩ := reports_nil clean hc
    obtain ⟨hnil, hnot⟩ := (inner c hc).entry_clean (.inr (.inl (by simpa [equationViolation?] using hi)))
    exact ⟨inner c hc, hnil, fun _ _ => hnot⟩
  | list kind argument inner =>
    rw [check, Supply.each_listed, List.append_nil] at clean
    obtain ⟨i, hi⟩ := reports_nil clean hc
    obtain ⟨hnil, hnot⟩ := (inner c hc).entry_clean (.inr (.inr (.inl (by simpa [itemViolation?] using hi))))
    exact ⟨inner c hc, hnil, fun _ _ => hnot⟩
  | table standard declared inner =>
    rw [check, Supply.each_listed, List.append_nil] at clean
    obtain ⟨i, hi, rfl⟩ := List.mem_iff_getElem.mp hc
    have hrow := reportRow_nil (inner _ hc) (List.flatten_eq_nil_iff.mp clean _ (List.mem_mapIdx.mpr ⟨i, hi, rfl⟩))
    obtain ⟨hnil, hnot⟩ := (inner _ hc).entry_clean (.inr (.inr (.inr hrow)))
    exact ⟨inner _ hc, hnil, fun _ _ => hnot⟩
  | _ => cases hc

theorem Regular.within_clean (h : t.OfNodes) (clean : t.check = []) (hs : Within s t) : s.OfNodes ∧ s.check = [] := by
  induction hs with
  | here => exact ⟨h, clean⟩
  | inPart part deeper ih =>
    obtain ⟨hc, hnil, -⟩ := h.part_clean clean part
    exact ih hc hnil

theorem line_of_mem_blankIf {wanted : Bool} {step : Step Event} (h : step ∈ blankIf wanted) :
    ∃ text, step = line text := by
  cases wanted with
  | false => cases h
  | true => exact ⟨"", List.mem_singleton.mp h⟩

theorem line_of_mem_titleLines {title author : Option String} {step : Step Event}
    (h : step ∈ titleLines title author) : ∃ text, step = line text := by
  rcases List.mem_append.mp h with h | h
  all_goals
    obtain ⟨text, -, rfl⟩ := Option.map_eq_some_iff.mp (Option.mem_toList.mp h)
    exact ⟨_, rfl⟩

theorem lined_all {ts : List Tree} (h : ∀ t ∈ ts, Lined (t.writes o)) : Lined (writesAll o ts).flatten := by
  rw [writesAll_eq_map]
  exact .flatten (by simpa using h)

/-- Paragraphs end their last line, whatever their runs are. -/
theorem endsLine_paragraph {content : List Tree} (h : ∀ t ∈ content, t.OfNodes)
    (counted : (paragraph .listed content).RowsCounted) :
    EndsLine (Write.text (writes o (paragraph .listed content))) := by
  obtain ⟨-, hjoin⟩ := (emit_follows o (.paragraph h)).whole ((rowsCounted_iff_not _).mp counted)
  rw [writes, Write.text, Write.map_piece_inside, hjoin]
  exact endsLine_line _

/-- Parts of anything but paragraphs and inline content are themselves no inline content. -/
theorem Regular.lined_parts (h : t.OfNodes) (clean : t.check = []) (hnot : t.isInline = false)
    (hk : t.kind? ≠ some .paragraph)
    (ih : ∀ c ∈ t.parts, c.check = [] → c.isInline = false → Lined (c.writes o)) :
    ∀ c ∈ t.parts, Lined (c.writes o) := by
  intro c hc
  obtain ⟨-, hnil, hinline⟩ := h.part_clean clean hc
  exact ih c hc hnil (hinline hnot hk)

/-- Without reports, what is not inline content is written in whole lines. -/
theorem Regular.lined_writes (h : t.OfNodes) (clean : t.check = []) (hnot : t.isInline = false) :
    Lined (t.writes o) := by
  -- inline content stands in paragraphs only, and these need nothing of it but that they end their last line
  induction h with
  | plain | inlineMath | bold | italic => cases hnot
  | paragraph inner ih =>
    exact .inside (endsLine_paragraph inner (check_sound (.paragraph inner) (by simp [kind?]) clean).2)
  | @sectioning name elements inner ih =>
    have hall := (Regular.sectioning name inner).lined_parts clean hnot (by simp [kind?]) ih
    have helements (c : Tree) (hc : c ∈ elements) := (hall c hc).append (.line "")
    rw [writes, writesAll_eq_map, List.map_map]
    exact ((Lined.line _).append (.lines fun step => line_of_mem_blankIf)).append
      (.flatten (by simpa using helements))
  | environment name lines =>
    refine .lines fun step hstep => ?_
    rcases List.mem_append.mp hstep with hstep | hstep
    · rcases List.mem_cons.mp hstep with rfl | hstep
      · exact ⟨_, rfl⟩
      · obtain ⟨text, -, rfl⟩ := List.mem_map.mp hstep
        exact ⟨text, rfl⟩
    · exact ⟨_, List.mem_singleton.mp hstep⟩
  | preamble title author inner ih =>
    have hall := (Regular.preamble title author inner).lined_parts clean hnot (by simp [kind?]) ih
    exact (lined_all hall).append
      (.lines fun step hstep => (List.mem_append.mp hstep).elim line_of_mem_blankIf line_of_mem_titleLines)
  | @document documentClass front elements declared first inner ihFront ih =>
    have hall := (Regular.document declared first inner).lined_parts (o := o) clean hnot (by simp [kind?])
    rw [parts] at hall
    rw [writes]
    split
    · rename_i hpart
      rw [if_pos hpart] at hall
      exact lined_all (hall ih)
    · rename_i hpart
      rw [if_neg hpart] at hall
      obtain ⟨hfront, helements⟩ := List.forall_mem_cons.mp (hall (List.forall_mem_cons.mpr ⟨ihFront, ih⟩))
      exact ((Lined.line _).append hfront).append ((lined_all helements).enclosed _ _)
  | align inner ih =>
    exact .enclosed _ _ (lined_all ((Regular.align inner).lined_parts clean hnot (by simp [kind?]) ih))
  | list kind argument inner ih =>
    exact .enclosed _ _ (lined_all ((Regular.list kind argument inner).lined_parts clean hnot (by simp [kind?]) ih))
  | table standard declared inner ih =>
    have hall := (Regular.table standard declared inner).lined_parts clean hnot (by simp [kind?]) ih
    exact .enclosed _ _ (lined_all hall)
  | foreign allowed => exact allowed.elim
  | _ => exact .lines (List.forall_mem_singleton.mpr ⟨_, rfl⟩)

/-- Without reports, the text of a block is whole lines, and at least one. -/
theorem Regular.endsLine_writes (h : t.OfNodes) (clean : t.check = []) (hblock : t.isBlock = true) :
    EndsLine (Write.text (t.writes o)) := by
  have hlined := h.lined_writes (o := o) clean (isInline_of_isBlock hblock)
  cases h with
  | paragraph inner => exact endsLine_paragraph inner (check_sound (.paragraph inner) (by simp [kind?]) clean).2
  | sectioning | tableOfContents | titlePage | clearPage | environment | userDefined | input | align | list | table =>
    exact hlined.endsLine_of_cons rfl
  | foreign allowed => exact allowed.elim
  | _ => cases hblock

/-- What a tree without reports is rendered to is what it writes. -/
theorem render_eq_writes (h : t.OfNodes) (counted : t.RowsCounted) (o : Options) :
    t.render o = .ok (Write.text (t.writes o)) := by
  have htraced := traced_emit o h counted
  rw [render_direct htraced.direct, htraced.whole, Write.text, htraced.pieces]
  rfl

/-- A tree without reports is written in whole lines, except for what paragraphs write: any other write is made where
a line starts, and ends a line. The text of each block ends its last line, and so there is one. -/
theorem writes_start_lines (h : t.Regular True)
    (root : t.kind? = some .document ∨ t.kind? = some .preamble ∨ t.isBlock = true)
    (clean : (t.validate false).state = []) (o : Options) :
    t.render o = .ok (Write.text (t.writes o)) ∧
    (∀ (r : Renderer) (g : Target) (notes : List Note), r.options = o →
      r.attempted t g notes <+: (t.writes o).map Write.piece ∧
      (g.sink.Accepting → r.attempted t g notes = (t.writes o).map Write.piece)) ∧
    (∀ before w after, t.writes o = before ++ w :: after → w.inParagraph = false →
      AtLineStart (Write.text before) ∧ EndsLine (Write.text (before ++ [w]))) ∧
    ∀ s, Within s t → s.isBlock = true → ∃ text, s.render o = .ok text ∧ text ≠ "" ∧ EndsLine text := by
  have hkind : t.kind? ≠ none := by
    rcases root with hk | hk | hblock
    · simp [hk]
    · simp [hk]
    · exact kind?_of_isBlock hblock
  have hnot : t.isInline = false := by
    rcases root with hk | hk | hblock
    · simp [isInline, hk, Kind.isInline]
    · simp [isInline, hk, Kind.isInline]
    · exact isInline_of_isBlock hblock
  have hnil := check_nil_of_validate h hkind clean
  obtain ⟨hnodes, hcounted⟩ := check_sound h hkind hnil
  refine ⟨render_eq_writes hnodes hcounted o, ?_, (hnodes.lined_writes hnil hnot).starts, ?_⟩
  · rintro r g notes rfl
    have htraced := traced_emit r.options hnodes hcounted
    rw [htraced.pieces]
    refine ⟨?_, fun hg => (Renderer.attempted_of_accepting htraced.direct hg notes).2⟩
    rw [(Renderer.walk_direct htraced.direct g notes).2]
    exact List.take_prefix _ _
  · intro s hs hblock
    obtain ⟨hsnodes, hsnil⟩ := hnodes.within_clean hnil hs
    have hends := hsnodes.endsLine_writes (o := o) hsnil hblock
    obtain ⟨-, hscounted⟩ := check_sound hsnodes (kind?_of_isBlock hblock) hsnil
    exact ⟨_, render_eq_writes hsnodes hscounted o, hends.ne_empty, hends⟩

/-- The list starts a line of its own behind a paragraph whose last run does not end its line. -/
theorem writes_start_lines_itemize :
    let t := document (.standard .article) (preamble (some "T") none .listed [usePackage "amsmath" none]) .listed
      [sectioning (.text "A") .listed
        [paragraph .listed [plain "x\n", bold (plain "y")], list .itemize .listed [item "z"] none]]
    t.Regular True ∧ t.kind? = some .document ∧ (t.validate false).state = [] ∧
      ⟨"\\begin\x7bitemize\x7d\n", false⟩ ∈ t.writes .standard ∧
      (∀ before after, t.writes .standard = before ++ ⟨"\\begin\x7bitemize\x7d\n", false⟩ :: after →
        AtLineStart (Write.text before)) ∧
      ∃ text, (paragraph .listed [plain "x\n", bold (plain "y")]).render .standard = .ok text ∧ text ≠ "" ∧
        EndsLine text := by
  intro t
  have hregular : t.Regular True := by
    have hfront : Regular True (preamble (some "T") none .listed [usePackage "amsmath" none]) :=
      .preamble (some "T") none (List.forall_mem_singleton.mpr (.usePackage "amsmath" none))
    have hparagraph : Regular True (paragraph .listed [plain "x\n", bold (plain "y")]) :=
      .paragraph (by simpa using ⟨.plain "x\n", .bold (.plain "y")⟩)
    have hlist : Regular True (list .itemize .listed [item "z"] none) :=
      .list .itemize none (List.forall_mem_singleton.mpr (.item "z"))
    exact .document (.inl ⟨.article, rfl⟩) hfront
      (List.forall_mem_singleton.mpr (.sectioning "A" (by simpa using ⟨hparagraph, hlist⟩)))
  have hclean : (t.validate false).state = [] := by decide
  obtain ⟨-, -, hstarts, hblocks⟩ := writes_start_lines hregular (.inl rfl) hclean .standard
  have hlist : ⟨"\\begin\x7bitemize\x7d\n", false⟩ ∈ t.writes .standard := by decide
  refine ⟨hregular, rfl, hclean, hlist, fun before after h => (hstarts before _ after h rfl).1, hblocks _ ?_ rfl⟩
  exact .inPart (.tail _ (.head _)) (.inPart (.head _) (.here _))

end Tree

end Manuscript
