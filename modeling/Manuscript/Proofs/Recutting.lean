import Mathlib.Logic.Relation
import Manuscript.Proofs.Cuts
/-!
# Rendering cut runs

How plain text is cut into runs makes no difference to what is rendered. The supported encodings go character by
character, as escaping does; only the mark of an encoding may come earlier with a first run that is empty, but a
paragraph ends with a piece that brings it in any case. Other codecs may encode two pieces to other bytes than the two
put together.
-/
namespace Manuscript

/-! ## Bytes -/

/-- Two values are the same one, or failures both. -/
def SameOr {α : Type} (failed : α → Prop) (x y : α) : Prop := x = y ∨ failed x ∧ failed y

namespace SameOr

variable {α : Type} {failed : α → Prop} {x y z : α}

theorem refl (x : α) : SameOr failed x x := .inl rfl

theorem symm (h : SameOr failed x y) : SameOr failed y x := h.imp Eq.symm And.symm

theorem trans (h : SameOr failed x y) (h' : SameOr failed y z) : SameOr failed x z := by
  rcases h with rfl | ⟨hx, hy⟩
  · exact h'
  · rcases h' with rfl | ⟨-, hz⟩
    · exact .inr ⟨hx, hy⟩
    · exact .inr ⟨hx, hz⟩

theorem eq_of_not (h : SameOr failed x y) (hx : ¬failed x) : x = y := h.resolve_right fun hboth => hx hboth.1

/-- What a relation keeps but for failures, its closure keeps. -/
theorem of_eqvGen {β : Type} {R : β → β → Prop} (f : β → α) (h : ∀ a b, R a b → SameOr failed (f a) (f b)) {a b : β}
    (hab : Relation.EqvGen R a b) : SameOr failed (f a) (f b) := by
  induction hab with
  | rel a b hab => exact h a b hab
  | refl a => exact .refl _
  | symm a b _ ih => exact ih.symm
  | trans a b c _ _ ih ih' => exact ih.trans ih'

end SameOr

/-- A result that is a fault. -/
def Faulted {α : Type} (x : Except Fault α) : Prop := ∃ f, x = .error f

/-- Two results are the same one, or faults both. -/
abbrev Agrees {α : Type} : Except Fault α → Except Fault α → Prop := SameOr Faulted

theorem Agrees.eq_of_ok {α : Type} {x y : Except Fault α} (h : Agrees x y) {a : α} (hx : x = .ok a) : y = .ok a := by
  rw [← hx, h.eq_of_not fun ⟨f, hf⟩ => by simp [hx] at hf]

theorem Agrees.faulted {α : Type} {x y : Except Fault α} (h : Agrees x y) {f : Fault} (hx : x = .error f) :
    Faulted y := by
  rcases h with rfl | ⟨-, hy⟩
  · exact ⟨f, hx⟩
  · exact hy

theorem exists_of_map {α β : Type} {x : Except Fault α} {f : α → β} {b : β} (h : x.map f = .ok b) :
    ∃ a, x = .ok a ∧ f a = b := by
  cases x with
  | error f => cases h
  | ok a => exact ⟨a, rfl, Except.ok.inj h⟩

theorem Handling.prepared_append (h : Handling) (e : Encoding) (s t : String) :
    h.prepared e (s ++ t) = h.prepared e s ++ h.prepared e t := by
  cases h <;> simp [prepared]

/-- A text is encoded as its parts one after the other, the mark with the first of them. -/
theorem Encoder.bytes_append (e : Encoder) (p q : String) :
    Agrees (e.bytes (p ++ q)) (do return (← e.bytes p) ++ (← { e with started := true }.bytes q)) := by
  simp only [bytes, Handling.prepared_append]
  cases hboth : e.encoding.body (e.handling.prepared e.encoding p ++ e.handling.prepared e.encoding q) with
  | ok bytes =>
    obtain ⟨xs, ys, hxs, hys, rfl⟩ := Encoding.body_split hboth
    rw [hxs, hys]
    exact .inl (by simp [bind, Except.bind, pure, Except.pure])
  | error r =>
    refine .inr ⟨⟨_, rfl⟩, ?_⟩
    cases hp : e.encoding.body (e.handling.prepared e.encoding p) with
    | error r' => exact ⟨_, rfl⟩
    | ok xs =>
      cases hq : e.encoding.body (e.handling.prepared e.encoding q) with
      | error r' => exact ⟨_, rfl⟩
      | ok ys =>
        rw [Encoding.body_append hp hq] at hboth
        cases hboth

theorem Encoder.bytes_empty (e : Encoder) : ∃ bytes, e.bytes "" = .ok bytes := by
  cases h : e.handling <;> exact ⟨_, by simp [bytes, h, Handling.prepared]; rfl⟩

namespace Sink

/-- Sinks that refuse nothing but what a supported encoding does not represent, and that do not keep writes apart: a
text in memory, or open bytes behind an encoder. -/
inductive Flowing : Sink → Prop
  | text (content : String) : Flowing (buffer content false)
  | stream (e : Encoder) {s : ByteStream} (opened : s.refusal? = none) : Flowing (stream ⟨s, .encoder e⟩)
  | encoded (e : Encoder) {s : ByteStream} (opened : s.refusal? = none) : Flowing (encodedStream (.encoder e) s)

variable {sink next : Sink}

theorem write_stream {s : ByteStream} (h : s.refusal? = none) (e : Encoder) (p : String) :
    (stream ⟨s, .encoder e⟩).write p = (e.bytes p).map fun bytes =>
      stream ⟨{ s with content := s.content ++ bytes }, .encoder { e with started := true }⟩ := by
  simp only [write, h, Writer.bytes_encoder]
  cases e.bytes p <;> rfl

theorem write_encodedStream {s : ByteStream} (h : s.refusal? = none) (e : Encoder) (p : String) :
    (encodedStream (.encoder e) s).write p = (e.bytes p).map fun bytes =>
      encodedStream (.encoder { e with started := true }) { s with content := s.content ++ bytes } := by
  simp only [write, ByteStream.append, h, Writer.bytes_encoder]
  cases e.bytes p <;> rfl

theorem Flowing.write (h : sink.Flowing) {p : String} (hw : sink.write p = .ok next) : next.Flowing := by
  cases h with
  | text content =>
    obtain rfl := Except.ok.inj hw
    exact .text _
  | stream e opened =>
    rw [write_stream opened] at hw
    obtain ⟨bytes, -, rfl⟩ := exists_of_map hw
    exact .stream _ opened
  | encoded e opened =>
    rw [write_encodedStream opened] at hw
    obtain ⟨bytes, -, rfl⟩ := exists_of_map hw
    exact .encoded _ opened

theorem agrees_of_bytes (make : Encoder → ByteStream → Sink)
    (hmake : ∀ (e : Encoder) (s : ByteStream) (piece : String), s.refusal? = none →
      (make e s).write piece = (e.bytes piece).map fun bytes =>
        make { e with started := true } { s with content := s.content ++ bytes })
    (e : Encoder) {s : ByteStream} (h : s.refusal? = none) (p q : String) :
    Agrees ((make e s).write (p ++ q)) ((make e s).write p >>= (·.write q)) := by
  have hagrees := e.bytes_append p q
  rw [hmake e s _ h, hmake e s p h]
  cases hp : e.bytes p with
  | error f =>
    rw [hp] at hagrees
    obtain ⟨f', hboth⟩ := Agrees.faulted hagrees.symm rfl
    rw [hboth]
    exact .inr ⟨⟨_, rfl⟩, _, rfl⟩
  | ok xs =>
    have hnext : (make { e with started := true } { s with content := s.content ++ xs }).write q = _ := hmake _ _ q h
    simp only [Except.map, bind, Except.bind, hnext]
    simp only [hp, bind, Except.bind] at hagrees
    cases hq : { e with started := true }.bytes q with
    | error f =>
      rw [hq] at hagrees
      obtain ⟨f', hboth⟩ := Agrees.faulted hagrees.symm rfl
      rw [hboth]
      exact .inr ⟨⟨_, rfl⟩, _, rfl⟩
    | ok ys =>
      rw [hq] at hagrees
      rw [Agrees.eq_of_ok hagrees.symm rfl]
      exact .inl (by simp)

/-- A piece is taken as its parts are, one after the other. -/
theorem Flowing.write_append (h : sink.Flowing) (p q : String) :
    Agrees (sink.write (p ++ q)) (sink.write p >>= (·.write q)) := by
  cases h with
  | text content =>
    refine .inl ?_
    simp [Sink.write, bind, Except.bind, String.append_assoc]
  | stream e opened =>
    exact agrees_of_bytes (fun e s => Sink.stream ⟨s, .encoder e⟩) (fun e _ p hs => write_stream hs e p) e opened p q
  | encoded e opened =>
    exact agrees_of_bytes (fun e => encodedStream (.encoder e)) (fun e _ p hs => write_encodedStream hs e p) e opened
      p q

theorem Flowing.write_empty (h : sink.Flowing) : ∃ next, sink.write "" = .ok next := by
  cases h with
  | text content => exact ⟨_, rfl⟩
  | stream e opened =>
    obtain ⟨bytes, hbytes⟩ := e.bytes_empty
    exact ⟨_, by rw [write_stream opened, hbytes]; rfl⟩
  | encoded e opened =>
    obtain ⟨bytes, hbytes⟩ := e.bytes_empty
    exact ⟨_, by rw [write_encodedStream opened, hbytes]; rfl⟩

/-- Sinks that take the same pieces, and come to the same by any of them. -/
structure Alike (s t : Sink) : Prop where
  left : s.Flowing
  right : t.Flowing
  write : ∀ piece, Agrees (s.write piece) (t.write piece)

theorem alike_refl (h : sink.Flowing) : sink.Alike sink := ⟨h, h, fun _ => .refl _⟩

theorem Alike.symm {s t : Sink} (h : s.Alike t) : t.Alike s := ⟨h.right, h.left, fun piece => (h.write piece).symm⟩

/-- A sink stays alike if an empty piece is written to it. -/
theorem Alike.write_empty {s t : Sink} (h : s.Alike t) (hnext : t.write "" = .ok next) : s.Alike next := by
  refine ⟨h.left, h.right.write hnext, fun piece => (h.write piece).trans ?_⟩
  have happend := h.right.write_append "" piece
  rwa [String.empty_append, hnext] at happend

theorem Flowing.writeValue (h : sink.Flowing) (value : Datum) : sink.writeValue value =
    match value.asText? with
    | some piece => sink.write piece
    | none => .error (sink.refusal value) := by
  cases h <;> rfl

end Sink

namespace Emission

variable {o : Options} {g : Target} {notes : List Note} {taken : List Ref} {A : Sink → Sink → Prop}

/-- Renderings at the same place but for their sinks, which are related, or such that have both ended in faults. -/
inductive Placed (A : Sink → Sink → Prop) : Progress Rendering → Progress Rendering → Prop
  | failed (p q : Progress Rendering) (hp : p.fault.isSome) (hq : q.fault.isSome) : Placed A p q
  | standing (o : Options) (g : Target) (notes : List Note) (taken : List Ref) {s t : Sink} (h : A s t) :
      Placed A (standing o g notes taken s) (standing o g notes taken t)

theorem placed_write (hA : ∀ s : Sink, s.Flowing → A s s) {s t : Sink} (h : s.Alike t) {piece other : String}
    (hw : Agrees (s.write piece) (t.write other)) :
    Placed A ((write piece).run Rendering.perform (standing o g notes taken s))
      ((write other).run Rendering.perform (standing o g notes taken t)) := by
  cases hs : s.write piece with
  | error f =>
    obtain ⟨f', ht⟩ := Agrees.faulted hw hs
    exact .failed _ _ (fault_run_write hs) (fault_run_write ht)
  | ok next =>
    rw [run_write_ok hs, run_write_ok (Agrees.eq_of_ok hw hs)]
    exact .standing o g notes taken (hA next (h.left.write hs))

theorem placed_writeValue (hA : ∀ s : Sink, s.Flowing → A s s) {s t : Sink} (h : s.Alike t) (value : Datum) :
    Placed A ((Step.act (.writeValue value)).run Rendering.perform (standing o g notes taken s))
      ((Step.act (.writeValue value)).run Rendering.perform (standing o g notes taken t)) := by
  cases hvalue : value.asText? with
  | some text =>
    have hrun {s : Sink} (hs : s.Flowing) :
        (Step.act (.writeValue value)).run Rendering.perform (standing o g notes taken s) =
          (write text).run Rendering.perform (standing o g notes taken s) := by
      simp only [Step.run, write, standing, Rendering.perform, Renderer.put, hs.writeValue, hvalue]
    rw [hrun h.left, hrun h.right]
    exact placed_write hA h (h.write text)
  | none =>
    have hfault {s : Sink} (hs : s.Flowing) :
        ((Step.act (.writeValue value)).run Rendering.perform (standing o g notes taken s)).fault.isSome := by
      simp [Step.run, standing, Rendering.perform, Renderer.put, hs.writeValue, hvalue]
    exact .failed _ _ (hfault h.left) (hfault h.right)

theorem steady_placed (hA : ∀ s : Sink, s.Flowing → A s s) (halike : ∀ s t, A s t → s.Alike t) :
    Steady (Placed A) where
  fault p q h := by
    cases h with
    | failed _ _ hp hq => rw [hp, hq]
    | standing => rfl
  taken p q h hnone := by
    cases h with
    | failed _ _ hp hq => simp [hnone] at hp
    | standing => rfl
  act p q h hnone event := by
    cases h with
    | failed _ _ hp hq => simp [hnone] at hp
    | standing o g notes taken h =>
      cases event with
      | note n => exact .standing o g (notes ++ [n]) taken h
      | write piece => exact placed_write hA (halike _ _ h) ((halike _ _ h).write piece)
      | writeValue value => exact placed_writeValue hA (halike _ _ h) value
  halt p q h _ f := .failed _ _ rfl rfl
  take p q h hnone source := by
    cases h with
    | failed _ _ hp hq => simp [hnone] at hp
    | standing o g notes taken h => exact .standing o g notes (taken ++ [source]) h

/-- The same sink, which flows. -/
def Same (s t : Sink) : Prop := s = t ∧ s.Flowing

theorem steady_same : Steady (Placed Same) :=
  steady_placed (fun _ h => ⟨rfl, h⟩) fun _ _ ⟨heq, h⟩ => heq ▸ Sink.alike_refl h

theorem steady_alike : Steady (Placed Sink.Alike) := steady_placed (fun _ h => Sink.alike_refl h) fun _ _ h => h

theorem fault_runFrom {p : Progress Rendering} (h : p.fault.isSome) (e : Emission) : (runFrom e p).fault.isSome := by
  rw [runFrom, Step.runAll_of_fault _ _ h]
  exact h

/-- Pieces bring a sink to where they do together, but for what the next piece adds in any case. -/
theorem placed_pieces (pieces : List String) {s t : Sink} (h : s.Alike t) :
    Placed Sink.Alike (runFrom (pieces.map write) (standing o g notes taken s))
      (runFrom [write (String.join pieces)] (standing o g notes taken t)) := by
  induction pieces generalizing s t with
  | nil =>
    obtain ⟨next, hnext⟩ := h.right.write_empty
    rw [runFrom_cons rfl, String.join_nil, run_write_ok hnext]
    exact .standing o g notes taken (h.write_empty hnext)
  | cons piece pieces ih =>
    rw [List.map_cons, runFrom_cons rfl, runFrom_cons rfl, String.join_cons]
    -- the first piece and the rest, one after the other, do to `s` what all of them together do to `t`
    have hboth := (h.symm.write (piece ++ String.join pieces)).trans (h.left.write_append piece (String.join pieces))
    cases hs : s.write piece with
    | error f =>
      rw [hs] at hboth
      obtain ⟨f', ht⟩ := Agrees.faulted hboth.symm rfl
      exact .failed _ _ (fault_runFrom (fault_run_write hs) _) (fault_runFrom (fault_run_write ht) _)
    | ok next =>
      rw [hs] at hboth
      have hnext : Agrees (next.write (String.join pieces)) (t.write (piece ++ String.join pieces)) := hboth.symm
      have hrest := ih (Sink.alike_refl (h.left.write hs))
      rw [run_write_ok hs]
      cases hlast : next.write (String.join pieces) with
      | error f =>
        obtain ⟨f', ht⟩ := hnext.faulted hlast
        have hfault : (runFrom [write (String.join pieces)] (standing o g notes taken next)).fault.isSome := by
          rw [runFrom_cons rfl]
          exact fault_runFrom (fault_run_write hlast) _
        rw [← steady_alike.fault _ _ hrest] at hfault
        exact .failed _ _ hfault (fault_runFrom (fault_run_write ht) _)
      | ok last =>
        rw [runFrom_cons rfl, run_write_ok hlast] at hrest
        rw [run_write_ok (hnext.eq_of_ok hlast)]
        exact hrest

theorem Placed.symm {p q : Progress Rendering} (h : Placed Sink.Alike p q) : Placed Sink.Alike q p := by
  cases h with
  | failed _ _ hp hq => exact .failed q p hq hp
  | standing o g notes taken h => exact .standing o g notes taken h.symm

/-- With the end of a paragraph, sinks that are alike come to the same. -/
theorem placed_line {p q : Progress Rendering} (h : Placed Sink.Alike p q) (text : String) :
    Placed Same (runFrom [line text] p) (runFrom [line text] q) := by
  cases h with
  | failed _ _ hp hq => exact .failed _ _ (fault_runFrom hp _) (fault_runFrom hq _)
  | standing o g notes taken h =>
    rw [runFrom_cons rfl, runFrom_cons rfl]
    exact placed_write (fun _ hs => ⟨rfl, hs⟩) h (h.write _)

theorem matches_run_same (before after : List Tree) (texts : List String) :
    Matches (Placed Same) (Tree.emit o (.paragraph .listed (before ++ .plain (String.join texts) :: after)))
      (Tree.emit o (.paragraph .listed (before ++ texts.map .plain ++ after))) := by
  intro p q h
  rw [runFrom_paragraph, runFrom_paragraph_joined]
  refine placed_line (matches_self steady_alike _ _ _ ?_) ""
  have hbefore := matches_self steady_same (before.map (Tree.emit o)).flatten p q h
  generalize runFrom (before.map (Tree.emit o)).flatten p = p at hbefore ⊢
  generalize runFrom (before.map (Tree.emit o)).flatten q = q at hbefore ⊢
  cases hbefore with
  | failed _ _ hp hq => exact .failed _ _ (fault_runFrom hp _) (fault_runFrom hq _)
  | standing o g notes taken h =>
    obtain ⟨rfl, hflows⟩ := h
    exact (placed_pieces _ (Sink.alike_refl hflows)).symm

end Emission

/-! ## Renderings -/

/-- Destinations that refuse nothing but what the encoding of some options, a supported one, or their own one does not
represent, and that do not keep writes apart. -/
def Destination.Flowing (o : Options) : Destination → Prop
  | text sink _ _ => sink.Flowing
  | bytes s _ => s.refusal? = none ∧ ∃ e, Codec.ofName? o.encodingName = some (.supported e)
  | path _ _ => ∃ e, Codec.ofName? o.encodingName = some (.supported e)
  | byteRecorder _ _ _ => False
  | unsupported _ _ => True

theorem Destination.Flowing.opened [Codecs] {o : Options} {d : Destination} (h : d.Flowing o) {fs left : Files}
    {sink : Sink} (hopen : d.opened o.encodingName fs = (left, .ok sink)) : sink.Flowing := by
  cases d with
  | text s name declared =>
    obtain ⟨-, rfl⟩ : fs = left ∧ s = sink := by simpa [Destination.opened] using hopen
    exact h
  | unsupported typeLiteral name => simp [Destination.opened] at hopen
  | byteRecorder r name declared => exact h.elim
  | bytes s name =>
    obtain ⟨hs, e, he⟩ := h
    rw [opened_bytes he] at hopen
    obtain ⟨-, hsink⟩ := Prod.mk.inj hopen
    obtain rfl := Except.ok.inj hsink
    exact .encoded _ hs
  | path p name =>
    obtain ⟨e, he⟩ := h
    cases hplace : fs.locate p with
    | error f => simp [Destination.opened, hplace] at hopen
    | ok place =>
      rw [opened_path he hplace] at hopen
      obtain ⟨-, hsink⟩ := Prod.mk.inj hopen
      obtain rfl := Except.ok.inj hsink
      exact .stream _ rfl

theorem TextStream.Holds.flowing {s : TextStream} {e : Encoder} {held : String} (h : s.Holds e held) :
    (Sink.stream s).Flowing := by
  obtain ⟨bytes, writer⟩ := s
  obtain rfl : writer = .encoder e := h.encoded
  exact .stream e h.opened

section

open Emission

variable {o : Options} {t u : Tree}

theorem Tree.Cut.renderString_eq (cut : Tree.Cut t u) (o : Options) : renderString o t = renderString o u := by
  have hheld := cut.matches (o := o) steady_held matches_run_held _ _
    (.standing o ⟨.buffer "" false, none, .text "<string>"⟩ [] [] "")
  have hsame : (t.emit o).runFrom (standing o ⟨.buffer "" false, none, .text "<string>"⟩ [] [] (.buffer "" false)) =
      (u.emit o).runFrom (standing o ⟨.buffer "" false, none, .text "<string>"⟩ [] [] (.buffer "" false)) := by
    generalize (t.emit o).runFrom _ = p at hheld ⊢
    generalize (u.emit o).runFrom _ = q at hheld ⊢
    cases hheld <;> rfl
  have hwalk : (Renderer.idle o).walk t ⟨.buffer "" false, none, .text "<string>"⟩ [] =
      (Renderer.idle o).walk u ⟨.buffer "" false, none, .text "<string>"⟩ [] := hsame
  simp only [renderString, Renderer.renderString, hwalk]

theorem Outcome.of_fault {α : Type} {p : Progress Rendering} (h : p.fault.isSome) (answer : α) :
    Faulted (Outcome.of p answer).result := by
  obtain ⟨f, hf⟩ := Option.isSome_iff_exists.mp h
  exact ⟨f, by simp [Outcome.of, hf]⟩

theorem Tree.Cut.deliver_same [Codecs] (cut : Tree.Cut t u) {d : Destination} (h : d.Flowing o) (fs : Files) :
    SameOr (fun done => Faulted done.outcome.result) (deliver o t d fs) (deliver o u d fs) := by
  simp only [deliver, Renderer.deliver]
  cases hopen : d.opened (Renderer.idle o).options.encodingName fs with
  | mk left opened =>
    cases opened with
    | error f => exact .inl rfl
    | ok sink =>
      have hplaced := cut.matches (o := o) steady_same matches_run_same _ _
        (.standing o ⟨sink, d.declared, d.name⟩ [.writingTo d.name.printed] [] ⟨rfl, h.opened hopen⟩)
      have hwalk (t : Tree) : (Renderer.idle o).walk t ⟨sink, d.declared, d.name⟩ [.writingTo d.name.printed] =
          (t.emit o).runFrom (standing o ⟨sink, d.declared, d.name⟩ [.writingTo d.name.printed] [] sink) := rfl
      simp only [hwalk]
      generalize (t.emit o).runFrom _ = p at hplaced ⊢
      generalize (u.emit o).runFrom _ = q at hplaced ⊢
      cases hplaced with
      | failed _ _ hp hq => exact .inr ⟨Outcome.of_fault hp (), Outcome.of_fault hq ()⟩
      | standing o g notes taken h =>
        obtain ⟨rfl, -⟩ := h
        exact .inl rfl

theorem Tree.Cut.renderBytes_same [Codecs] (cut : Tree.Cut t u) {e : Encoding}
    (he : Codec.ofName? o.encodingName = some (.supported e)) :
    SameOr (fun done => Faulted done.result) (renderBytes o t) (renderBytes o u) := by
  rcases cut.deliver_same (d := .bytes ⟨.byteBuffer, [], false, true⟩ (.text "<BytesIO>")) ⟨rfl, e, he⟩ .empty with
    hsame | ⟨⟨f, hf⟩, f', hf'⟩
  · refine .inl ?_
    simp only [deliver] at hsame
    simp only [renderBytes, Renderer.renderBytes, hsame]
  · exact .inr ⟨⟨f, by rw [renderBytes_eq, hf]; rfl⟩, f', by rw [renderBytes_eq, hf']; rfl⟩

/-- Trees that differ in how plain text in their paragraphs is cut into runs are rendered to the same text, or end
in the same fault, with any options. The bytes that they are rendered to in one of the supported encodings are the
same, too, unless both of them end in faults, as they do not if the encoding represents the text. Supported are UTF-8
with and without a mark, ASCII, Latin-1, code page 1252, and UTF-16 and UTF-32 with a mark or in either byte order. -/
theorem Tree.recut_unchanged [Codecs] (h : Relation.EqvGen Tree.Cut t u) (o : Options) :
    renderString o t = renderString o u ∧
    (∀ d fs, d.Flowing o → SameOr (fun done => Faulted done.outcome.result) (deliver o t d fs) (deliver o u d fs)) ∧
    ∀ e, Codec.ofName? o.encodingName = some (.supported e) →
      SameOr (fun done => Faulted done.result) (renderBytes o t) (renderBytes o u) ∧
      (t.OfNodes → ∀ text bytes, t.render o = .ok text → e.encode text = .ok bytes →
        let added := if (t.written o).isEmpty then [] else bytes
        (renderBytes o t).result = .ok added ∧ renderBytes o u = renderBytes o t ∧
        (∀ s name fs, s.refusal? = none → (deliver o t (.bytes s name) fs).outcome.result = .ok () ∧
          deliver o u (.bytes s name) fs = deliver o t (.bytes s name) fs) ∧
        (∀ path name place fs, fs.locate path = .ok place →
          (deliver o t (.path path name) fs).outcome.result = .ok () ∧
          deliver o u (.path path name) fs = deliver o t (.path path name) fs) ∧
        ∀ (s : TextStream) (own : Encoder) held name declared fs ownBytes, s.Holds own held →
          own.encoding.encode text = .ok ownBytes →
          (deliver o t (.text (.stream s) name declared) fs).outcome.result = .ok () ∧
          deliver o u (.text (.stream s) name declared) fs = deliver o t (.text (.stream s) name declared) fs) := by
  have hstring : renderString o t = renderString o u := by
    have hsame : SameOr (fun _ => False) (renderString o t) (renderString o u) :=
      SameOr.of_eqvGen (renderString o) (fun a b cut => .inl (cut.renderString_eq o)) h
    exact hsame.eq_of_not id
  have hdeliver (d : Destination) (fs : Files) (hd : d.Flowing o) :
      SameOr (fun done => Faulted done.outcome.result) (deliver o t d fs) (deliver o u d fs) :=
    SameOr.of_eqvGen (deliver o · d fs) (fun a b cut => cut.deliver_same hd fs) h
  refine ⟨hstring, hdeliver, fun e he => ?_⟩
  have hbytes : SameOr (fun done => Faulted done.result) (renderBytes o t) (renderBytes o u) :=
    SameOr.of_eqvGen (renderBytes o) (fun a b cut => cut.renderBytes_same he) h
  refine ⟨hbytes, fun hnodes text bytes htext hencoded => ?_⟩
  obtain ⟨-, -, hstream, hall, hbinary, hpath, -⟩ := destinations_agree hnodes he htext hencoded
  have hsame {d : Destination} {fs : Files} (hd : d.Flowing o) (hok : (deliver o t d fs).outcome.result = .ok ()) :
      (deliver o t d fs).outcome.result = .ok () ∧ deliver o u d fs = deliver o t d fs :=
    ⟨hok, ((hdeliver d fs hd).eq_of_not fun ⟨f, hf⟩ => by simp [hok] at hf).symm⟩
  refine ⟨hall, (hbytes.eq_of_not fun ⟨f, hf⟩ => by simp [hall] at hf).symm, ?_, ?_, ?_⟩
  · exact fun s name fs hs => hsame ⟨hs, e, he⟩ (hbinary s name fs hs).1
  · exact fun path name place fs hplace => hsame ⟨e, he⟩ (hpath path name place fs hplace).1
  · exact fun s own held name declared fs ownBytes hs hown =>
      hsame hs.flowing (hstream s own held name declared fs ownBytes hs hown).1

/-- A run is cut in front of a special character, with an empty run in front that brings the mark. In the other
paragraph two runs are put together. -/
theorem Tree.recut_unchanged_marked :
    let o : Options := ⟨"utf-16", true, .text "section"⟩
    let t := Tree.sectioning (.text "A") .listed
      [.paragraph .listed [.plain "é&b"], .paragraph .listed [.plain "x", .plain "_"]]
    let u := Tree.sectioning (.text "A") .listed
      [.paragraph .listed [.plain "", .plain "é", .plain "&b"], .paragraph .listed [.plain "x_"]]
    let bytes : List UInt8 := [255, 254, 92, 0, 115, 0, 101, 0, 99, 0, 116, 0, 105, 0, 111, 0, 110, 0, 123, 0, 65, 0,
      125, 0, 10, 0, 10, 0, 233, 0, 92, 0, 38, 0, 98, 0, 10, 0, 10, 0, 120, 0, 92, 0, 95, 0, 10, 0, 10, 0]
    Relation.EqvGen Tree.Cut t u ∧ renderString o t = renderString o u ∧ (renderBytes o u).result = .ok bytes := by
  intro o t u bytes
  have hcut : Relation.EqvGen Tree.Cut t u := by
    refine .trans _ (Tree.sectioning (.text "A") .listed [.paragraph .listed [.plain "", .plain "é", .plain "&b"],
      .paragraph .listed [.plain "x", .plain "_"]]) _ (.rel _ _ ?_) (.symm _ _ (.rel _ _ ?_))
    · exact .inside (.sectioning (.text "A") .listed [] [_]) (.run [] [] ["", "é", "&b"])
    · exact .inside (.sectioning (.text "A") .listed [_] []) (.run [] [] ["x", "_"])
  have hnodes : t.OfNodes := by
    refine .sectioning "A" ?_
    simpa using ⟨.paragraph (by simpa using .plain _), .paragraph (by simpa using ⟨.plain _, .plain _⟩)⟩
  have he : Codec.ofName? "utf-16" = some (.supported .utf16Marked) := by decide +kernel
  have hrender : t.render o = .ok "\\section\x7bA\x7d\n\né\\&b\n\nx\\_\n\n" := by rfl
  have hencoded : Encoding.utf16Marked.encode "\\section\x7bA\x7d\n\né\\&b\n\nx\\_\n\n" = .ok bytes := by rfl
  obtain ⟨hstring, -, hsupported⟩ := Tree.recut_unchanged hcut o
  obtain ⟨hall, hsame, -⟩ := (hsupported .utf16Marked he).2 hnodes _ _ hrender hencoded
  have hwritten : (t.written o).isEmpty = false := by rfl
  rw [hwritten, if_neg Bool.false_ne_true, ← hsame] at hall
  exact ⟨hcut, hstring, hall⟩

end

end Manuscript
