import Manuscript.Proofs.WrittenText
/-!
# Interrupted renderings

A sink that fails stops a rendering at the piece it refuses: it has all pieces before that one and is offered
none after it. The renderer is as good as new afterwards.
-/
namespace Manuscript

namespace Sink

variable {f : Fault} {k : Nat} {sink : Sink}

/-- A sink takes the next `k` pieces, whatever they are, and refuses all others. -/
def FailsAfter (f : Fault) : Nat → Sink → Prop
  | 0, sink => ∀ piece, sink.write piece = .error f
  | k + 1, sink => ∀ piece, ∃ next, sink.write piece = .ok next ∧ FailsAfter f k next

theorem writeAll_of_failsAfter (h : sink.FailsAfter f k) (ps : List String) :
    sink.writeAll ps =
      (min k ps.length, (sink.writeAll (ps.take k)).2.1, if k < ps.length then some f else none) := by
  -- every piece that is taken spends one of the `k`
  induction ps generalizing sink k with
  | nil => simp [writeAll]
  | cons p ps ih =>
    cases k with
    | zero =>
      rw [writeAll_cons_error (h p)]
      simp [writeAll]
    | succ k =>
      obtain ⟨next, hw, hnext⟩ := h p
      rw [List.take_succ_cons, writeAll_cons_ok hw, writeAll_cons_ok hw, ih hnext]
      simp [Nat.succ_min_succ]

theorem write_recorder {es : List Entry} {limit : Nat} (room : es.length < limit) (f : Fault)
    (piece : String) : (recorder ⟨es, some limit, f⟩).write piece =
      .ok (recorder ⟨es ++ [.text piece], some limit, f⟩) := by
  have hlimit : ¬limit ≤ es.length := by omega
  simp [write, Recorder.record, Except.map, hlimit]

theorem failsAfter_recorder (es : List Entry) (f : Fault) (k : Nat) :
    (recorder ⟨es, some (es.length + k), f⟩).FailsAfter f k := by
  induction k generalizing es with
  | zero =>
    intro piece
    simp [write, Recorder.record, Except.map]
  | succ k ih =>
    intro piece
    refine ⟨_, write_recorder (by omega) f piece, ?_⟩
    have hnext := ih (es ++ [.text piece])
    rwa [List.length_append, List.length_singleton, Nat.add_assoc, Nat.add_comm 1] at hnext

theorem writeAll_recorder (es : List Entry) (f : Fault) {limit : Nat} (ps : List String)
    (room : es.length + ps.length ≤ limit) :
    ((recorder ⟨es, some limit, f⟩).writeAll ps).2.1 =
      recorder ⟨es ++ ps.map .text, some limit, f⟩ := by
  induction ps generalizing es with
  | nil => simp [writeAll]
  | cons p ps ih =>
    rw [List.length_cons] at room
    have hrest : (es ++ [Entry.text p]).length + ps.length ≤ limit := by
      rw [List.length_append, List.length_singleton]
      omega
    rw [writeAll_cons_ok (write_recorder (by omega) f p), ih _ hrest]
    simp

end Sink

/-- One use of a renderer: to a text, to bytes, or to a destination. -/
inductive Use
  | toText (t : Tree)
  | toBytes (t : Tree)
  | toDestination (t : Tree) (d : Destination) (fs : Files)

namespace Renderer

variable {o : Options} {t : Tree}

theorem reported_of_isOutputFault {f : Fault} (hf : f.isOutputFault = true) (r : Renderer) (g : Target) :
    r.reported g f = .writeFailed g.name f := by
  cases f with
  | raised family className text => cases family <;> simp_all [reported, reportedFault, Fault.isOutputFault]
  | _ => simp_all [reported, reportedFault, Fault.isOutputFault]

theorem put_options {r next : Renderer} {into : Sink → Except Fault Sink} (h : r.put into = .ok next) :
    next.options = r.options := by
  rw [put] at h
  split at h
  · cases h
  · split at h
    · cases h
      rfl
    · cases h

theorem perform_renderer (s : Rendering) (e : Event) :
    (s.perform e).1.renderer = s.renderer ∨
      ∃ into, s.renderer.put into = .ok (s.perform e).1.renderer := by
  cases e with
  | write piece =>
    cases h : s.renderer.put (·.write piece) with
    | error f => exact .inl (by simp [Rendering.perform, h])
    | ok next => exact .inr ⟨(·.write piece), by simp [Rendering.perform, h]⟩
  | writeValue value =>
    cases h : s.renderer.put (·.writeValue value) with
    | error f => exact .inl (by simp [Rendering.perform, h])
    | ok next => exact .inr ⟨(·.writeValue value), by simp [Rendering.perform, h]⟩
  | note n => exact .inl rfl

theorem perform_options (s : Rendering) (e : Event) (h : s.renderer.options = o) :
    (s.perform e).1.renderer.options = o := by
  rcases perform_renderer s e with hsame | ⟨into, hput⟩
  · rw [hsame, h]
  · rw [put_options hput, h]

/-- After a walk a renderer is as it was before it had a target. -/
theorem released_walk (o : Options) (t : Tree) (g : Target) (notes : List Note) :
    released ((idle o).walk t g notes) = idle o := by
  have hoptions := Script.run_preserves (P := fun s : Rendering => s.renderer.options = o)
    perform_options (t.emit o) (s := ⟨⟨o, some g⟩, notes⟩) rfl
  exact congrArg (Renderer.mk · none) hoptions

def used [Codecs] (r : Renderer) : Use → Renderer
  | .toText t => (r.renderString t).1
  | .toBytes t => (r.renderBytes t).1
  | .toDestination t d fs => (r.deliver t d fs).1

theorem deliver_idle [Codecs] (o : Options) (t : Tree) (d : Destination) (fs : Files) :
    ((idle o).deliver t d fs).1 = idle o := by
  rw [deliver]
  split
  · rfl
  · exact released_walk o t _ _

/-- A use leaves a renderer that is not rendering as it was, however it ends. -/
theorem used_idle [Codecs] (o : Options) (u : Use) : (idle o).used u = idle o := by
  cases u with
  | toText t => exact released_walk o t _ _
  | toBytes t => exact deliver_idle o t _ _
  | toDestination t d fs => exact deliver_idle o t d fs

theorem foldl_used [Codecs] (o : Options) (us : List Use) : us.foldl used (idle o) = idle o := by
  induction us with
  | nil => rfl
  | cons u us ih => rw [List.foldl_cons, used_idle, ih]

theorem deliver_text [Codecs] (o : Options) (t : Tree) (sink : Sink) (name : Atom) (declared : Option Datum)
    (fs : Files) :
    ((idle o).deliver t (.text sink name declared) fs).2 =
      let p := (idle o).walk t ⟨sink, declared, name⟩ [.writingTo name.printed]
      match p.state.sink? with
      | some last => ⟨.text last name declared, fs, .of p ()⟩
      | none => ⟨.text sink name declared, fs, .of p ()⟩ := by
  cases h : ((idle o).walk t ⟨sink, declared, name⟩ [.writingTo name.printed]).state.sink? <;>
    simp [deliver, Destination.opened, Destination.name, Destination.declared, Destination.released, h]

/-- A walk to a sink that fails writes the pieces before the failure, and tries one more. -/
theorem walk_failing (h : (t.emit o).Direct) {g : Target} {k : Nat} {f : Fault}
    (hs : g.sink.FailsAfter f k) (hf : f.isOutputFault = true) (notes : List Note) :
    let ps := (t.emit o).pieces
    (∃ left, (idle o).walk t g notes =
      ⟨⟨⟨o, some { g with sink := (g.sink.writeAll (ps.take k)).2.1 }⟩, left⟩, [],
        if k < ps.length then some (.writeFailed g.name f) else (t.emit o).ending⟩) ∧
      (idle o).attempted t g notes = ps.take (k + 1) := by
  intro ps
  obtain ⟨⟨left, hwalk⟩, htried⟩ := walk_direct (r := idle o) h g notes
  have hall := Sink.writeAll_of_failsAfter hs ps
  constructor
  · have hfault : ((g.sink.writeAll ps).2.2.map ((idle o).reported g)).or (t.emit o).ending =
        if k < ps.length then some (.writeFailed g.name f) else (t.emit o).ending := by
      rw [hall]
      split
      · simp [reported_of_isOutputFault hf]
      · rfl
    have hsink : (g.sink.writeAll ps).2.1 = (g.sink.writeAll (ps.take k)).2.1 := by rw [hall]
    refine ⟨left, ?_⟩
    rw [← hfault, ← hsink]
    exact hwalk
  · rw [htried]
    change ps.take ((g.sink.writeAll ps).1 + 1) = ps.take (k + 1)
    rw [hall]
    rcases Nat.lt_or_ge k ps.length with hk | hk
    · rw [Nat.min_eq_left (Nat.le_of_lt hk)]
    · rw [Nat.min_eq_right hk, List.take_of_length_le (by omega), List.take_of_length_le (by omega)]

/-- A sink that fails has been given the pieces before its failure when a rendering to it ends, whatever the
renderer was used for before. -/
theorem deliver_failing [Codecs] (h : t.OfNodes) (o : Options) {sink : Sink} {k : Nat} {f : Fault}
    (hs : sink.FailsAfter f k) (hf : f.isOutputFault = true) {a : Target} (ha : a.sink.Accepting)
    (us : List Use) (name : Atom) (declared : Option Datum) (fs : Files) :
    let r := us.foldl used (idle o)
    let ps := r.attempted t a []
    let done := (r.deliver t (.text sink name declared) fs).2
    done.destination = .text (sink.writeAll (ps.take k)).2.1 name declared ∧ done.files = fs ∧
    (∀ es, sink = .recorder ⟨es, some (es.length + k), f⟩ → done.destination =
      .text (.recorder ⟨es ++ (ps.take k).map .text, some (es.length + k), f⟩) name declared) ∧
    r.attempted t ⟨sink, declared, name⟩ [.writingTo name.printed] = ps.take (k + 1) ∧
    (k < ps.length → done.outcome.result = .error (.writeFailed name f) ∧
      ∀ text, t.render o = .ok text → ∃ rest, text = String.join (ps.take k) ++ rest) ∧
    (ps.length ≤ k → t.RowsCounted → done.outcome.result = .ok ()) ∧
    (ps.length ≤ k → ¬t.RowsCounted →
      ∃ s e, t.Uncounted s ∧ s.CountFault e ∧ done.outcome.result = .error e) ∧
    ∀ t' d' fs', r.deliver t' d' fs' = (idle o).deliver t' d' fs' ∧
      r.renderString t' = (idle o).renderString t' ∧ r.renderBytes t' = (idle o).renderBytes t' := by
  intro r ps done
  have hr : r = idle o := foldl_used o us
  have hfollows := t.emit_follows o h
  have hps : ps = (t.emit o).pieces := by
    change r.attempted t a [] = _
    rw [hr]
    exact (attempted_of_accepting hfollows.direct ha []).2
  obtain ⟨⟨left, hwalk⟩, htried⟩ := walk_failing hfollows.direct (g := ⟨sink, declared, name⟩) hs hf
    [.writingTo name.printed]
  have hdone : done = ⟨.text (sink.writeAll (ps.take k)).2.1 name declared, fs,
      .of ((idle o).walk t ⟨sink, declared, name⟩ [.writingTo name.printed]) ()⟩ := by
    change (r.deliver t (.text sink name declared) fs).2 = _
    rw [hr, deliver_text, hps]
    simp only [hwalk, Rendering.sink?, Option.map_some]
  have hresult : done.outcome.result =
      (if k < ps.length then some (.writeFailed name f) else (t.emit o).ending).elim (.ok ()) .error := by
    rw [hdone, hwalk, hps]
    simp only [Outcome.of]
    cases (if k < (t.emit o).pieces.length then some (.writeFailed name f) else (t.emit o).ending) <;> rfl
  refine ⟨by rw [hdone], by rw [hdone], ?_, by rw [hr, hps]; exact htried, ?_, ?_, ?_, ?_⟩
  · rintro es rfl
    have hroom : es.length + (ps.take k).length ≤ es.length + k := by
      rw [List.length_take]
      omega
    rw [hdone, Sink.writeAll_recorder es f (ps.take k) hroom]
  · intro hk
    rw [hresult, if_pos hk]
    refine ⟨rfl, fun text htext => ⟨String.join (ps.drop k), ?_⟩⟩
    rw [← String.join_append, List.take_append_drop, hps]
    exact (Tree.eq_join_of_render hfollows.direct htext).2
  · intro hk hcounted
    rw [hresult, if_neg (Nat.not_lt.mpr hk), (hfollows.whole ((Tree.rowsCounted_iff_not t).mp hcounted)).1]
    rfl
  · intro hk huncounted
    rw [Tree.rowsCounted_iff_not] at huncounted
    obtain ⟨s, e, hs, he, hend, -⟩ := hfollows.begun (by simpa using huncounted)
    refine ⟨s, e, hs, he, ?_⟩
    rw [hresult, if_neg (Nat.not_lt.mpr hk), hend]
    rfl
  · intro t' d' fs'
    rw [hr]
    exact ⟨rfl, rfl, rfl⟩

theorem deliver_failing_after_two :
    let t := Tree.paragraph .listed [.plain "a", .bold (.plain "b")]
    let f := Fault.raised .output "OSError" "disk full"
    let sink := Sink.recorder ⟨[], some 2, f⟩
    let name := Atom.text "<RecordingSink>"
    let done := (([.toText t].foldl used (idle .standard)).deliver t (.text sink name none) .empty).2
    t.OfNodes ∧ sink.FailsAfter f 2 ∧ f.isOutputFault = true ∧ (Sink.buffer "" false).Accepting ∧
      done.outcome.result = .error (.writeFailed name f) ∧ done.destination =
        .text (.recorder ⟨[.text "a", .text "\\textbf\x7b"], some 2, f⟩) name none := by
  intro t f sink name done
  have hnodes : t.OfNodes := .paragraph (by simpa using ⟨.plain "a", .bold (.plain "b")⟩)
  have hs : sink.FailsAfter f 2 := Sink.failsAfter_recorder [] f 2
  have ha : (Sink.buffer "" false).Accepting := Sink.accepting_buffer ""
  obtain ⟨-, -, hsink, -, hfailed, -⟩ := deliver_failing hnodes .standard hs rfl
    (a := ⟨.buffer "" false, none, .text "<string>"⟩) ha [.toText t] name none .empty
  exact ⟨hnodes, hs, rfl, ha, (hfailed (by decide)).1, (hsink [] rfl).trans rfl⟩

/-- No write fails here, and yet the rendering does: columns cannot be counted. -/
theorem deliver_unfailing_stray :
    let t := Tree.table .listed [.paragraph .listed []] (.typed []) (.aligned .left)
    let f := Fault.raised .output "OSError" "disk full"
    let sink := Sink.recorder ⟨[], some 0, f⟩
    let a : Target := ⟨.buffer "" false, none, .text "<string>"⟩
    t.OfNodes ∧ sink.FailsAfter f 0 ∧ a.sink.Accepting ∧
      ((idle .standard).attempted t a []).length ≤ 0 ∧
      ((idle .standard).deliver t (.text sink (.text "<RecordingSink>") none) .empty).2.outcome.result =
        .error (.noAttribute (.value "Paragraph") "columns") := by
  intro t f sink a
  refine ⟨?_, Sink.failsAfter_recorder [] f 0, Sink.accepting_buffer "", by decide, rfl⟩
  exact .table .left (.typed []) (by simpa using Tree.Regular.paragraph (by simp))

end Renderer

end Manuscript
