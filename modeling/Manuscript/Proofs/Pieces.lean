import Manuscript.Delivery
import Manuscript.Proofs.Run
/-!
# The pieces of a rendering

An emission that takes nothing from iterators and writes texts only is a list of pieces, with an ending. To
carry it out is to write the pieces one after the other until one is refused: this says all that a walk does
to its target.
-/
namespace Manuscript

namespace Sink

theorem writeAll_cons_ok {sink next : Sink} {p : String} (h : sink.write p = .ok next)
    (ps : List String) :
    sink.writeAll (p :: ps) = ((next.writeAll ps).1 + 1, (next.writeAll ps).2) := by
  simp [writeAll, h]

theorem writeAll_cons_error {sink : Sink} {p : String} {f : Fault} (h : sink.write p = .error f)
    (ps : List String) : sink.writeAll (p :: ps) = (0, sink, some f) := by
  simp [writeAll, h]

theorem writeAll_count {sink : Sink} {ps : List String} (h : (sink.writeAll ps).2.2 = none) :
    (sink.writeAll ps).1 = ps.length := by
  induction ps generalizing sink with
  | nil => rfl
  | cons p ps ih =>
    cases hw : sink.write p with
    | error f => simp [writeAll_cons_error hw] at h
    | ok next =>
      rw [writeAll_cons_ok hw] at h ⊢
      simp [ih h]

/-- A sink that never refuses a piece. -/
def Accepting (sink : Sink) : Prop := ∀ ps, (sink.writeAll ps).2.2 = none

end Sink

def Event.pieces : Event → List String
  | .write p => [p]
  | _ => []

namespace Emission

/-- The pieces that are written before an emission halts. -/
def pieces : Emission → List String
  | .act a :: e => a.pieces ++ pieces e
  | _ => []

/-- The fault that an emission halts with, even if all its pieces are taken. -/
def ending : Emission → Option Fault
  | .act _ :: e => ending e
  | .halt f :: _ => some f
  | _ => none

/-- Emissions of texts, notes and halts. -/
def Direct (e : Emission) : Prop :=
  ∀ step ∈ e, (∃ p, step = .act (.write p)) ∨ (∃ n, step = .act (.note n)) ∨ ∃ f, step = .halt f

theorem Direct.append {d e : Emission} (hd : d.Direct) (he : e.Direct) : Direct (d ++ e) := by
  intro step h
  rcases List.mem_append.mp h with h | h
  · exact hd step h
  · exact he step h

theorem pieces_append {d : Emission} (hd : d.Direct) (e : Emission) :
    pieces (d ++ e) = pieces d ++ if (ending d).isNone then pieces e else [] := by
  induction d with
  | nil => simp [pieces, ending]
  | cons step d ih =>
    have ih := ih fun s hs => hd s (List.mem_cons_of_mem _ hs)
    rcases hd step List.mem_cons_self with ⟨p, rfl⟩ | ⟨n, rfl⟩ | ⟨f, rfl⟩
    · simp [pieces, ending, ih]
    · simp [pieces, ending, ih]
    · simp [pieces, ending]

theorem ending_append {d : Emission} (hd : d.Direct) (e : Emission) :
    ending (d ++ e) = (ending d).or (ending e) := by
  induction d with
  | nil => rfl
  | cons step d ih =>
    have ih := ih fun s hs => hd s (List.mem_cons_of_mem _ hs)
    rcases hd step List.mem_cons_self with ⟨p, rfl⟩ | ⟨n, rfl⟩ | ⟨f, rfl⟩
    · exact ih
    · exact ih
    · rfl

end Emission

theorem Outcome.of_result {α : Type} (p : Progress Rendering) (answer : α) :
    (Outcome.of p answer).result = p.fault.elim (.ok answer) .error := by
  cases h : p.fault <;> simp [Outcome.of, h]

namespace Renderer

/-- The pieces that a walk tries to write, taken or not. -/
def attempted (r : Renderer) (t : Tree) (g : Target) (notes : List Note) : List String :=
  ((t.emit r.options).run (watched Rendering.perform Event.pieces)
    (⟨{ r with target := some g }, notes⟩, [])).state.2

@[simp] theorem reported_sink (r : Renderer) (g : Target) (sink : Sink) :
    r.reported ⟨sink, g.declared, g.name⟩ = r.reported g := rfl

/-- Where a run of an emission stands: its target has come to a sink, and it has ended in a fault or not. -/
def stage (o : Options) (g : Target) (last : Sink) (fault : Option Fault) (notes : List Note)
    (tried : List String) : Progress (Rendering × List String) :=
  ⟨(⟨⟨o, some { g with sink := last }⟩, notes⟩, tried), [], fault⟩

variable {o : Options} {g : Target} {e : Emission}

/-- A direct emission is carried out by writing its pieces until one is refused. -/
theorem runAll_direct (he : e.Direct) (notes : List Note) (tried : List String) :
    ∃ left, Step.runAll (watched Rendering.perform Event.pieces) e (stage o g g.sink none notes tried) =
      stage o g (g.sink.writeAll e.pieces).2.1
        (((g.sink.writeAll e.pieces).2.2.map ((idle o).reported g)).or e.ending) left
        (tried ++ e.pieces.take ((g.sink.writeAll e.pieces).1 + 1)) := by
  -- a piece that is taken leaves another target, and the rest is carried out on that one
  induction e generalizing g notes tried with
  | nil => exact ⟨notes, by simp [Step.runAll, stage, Emission.pieces, Emission.ending, Sink.writeAll]⟩
  | cons step e ih =>
    have he' : Emission.Direct e := fun s hs => he s (List.mem_cons_of_mem _ hs)
    rcases he step List.mem_cons_self with ⟨p, rfl⟩ | ⟨n, rfl⟩ | ⟨f, rfl⟩
    · cases hw : g.sink.write p with
      | ok next =>
        obtain ⟨left, h⟩ := ih (g := { g with sink := next }) he' notes (tried ++ [p])
        refine ⟨left, ?_⟩
        simp only [Emission.pieces, Event.pieces, List.singleton_append, Emission.ending,
          Sink.writeAll_cons_ok hw, List.take_succ_cons]
        simpa [Step.runAll, Step.run, stage, watched, Rendering.perform, put, hw, Event.pieces] using h
      | error f =>
        refine ⟨notes, ?_⟩
        simp only [Emission.pieces, Event.pieces, List.singleton_append, Emission.ending,
          Sink.writeAll_cons_error hw]
        simp [Step.runAll, Step.run, stage, watched, Rendering.perform, put, hw, Event.pieces,
          Step.runAll_of_fault, reported, reportedEncoding, idle]
    · obtain ⟨left, h⟩ := ih (g := g) he' (notes ++ [n]) tried
      refine ⟨left, ?_⟩
      simpa [Step.runAll, Step.run, stage, watched, Rendering.perform, Emission.pieces, Event.pieces,
        Emission.ending] using h
    · exact ⟨notes, by simp [Step.runAll, Step.run, stage, Emission.pieces, Emission.ending,
        Sink.writeAll, Step.runAll_of_fault]⟩

variable {r : Renderer} {t : Tree}

theorem walk_eq (r : Renderer) (t : Tree) (g : Target) (notes : List Note) :
    r.walk t g notes = ((t.emit r.options).run (watched Rendering.perform Event.pieces)
      (⟨{ r with target := some g }, notes⟩, [])).map Prod.fst :=
  (Script.run_watched Rendering.perform Event.pieces (t.emit r.options) _ _).symm

/-- A walk over a tree whose emission is direct writes the pieces until one is refused, and no other. -/
theorem walk_direct (h : (t.emit r.options).Direct) (g : Target) (notes : List Note) :
    let ps := (t.emit r.options).pieces
    let written := g.sink.writeAll ps
    (∃ left, r.walk t g notes = ⟨⟨⟨r.options, some { g with sink := written.2.1 }⟩, left⟩, [],
      (written.2.2.map ((idle r.options).reported g)).or (t.emit r.options).ending⟩) ∧
      r.attempted t g notes = ps.take (written.1 + 1) := by
  obtain ⟨left, hrun⟩ := runAll_direct (o := r.options) (g := g) h notes []
  constructor
  · refine ⟨left, ?_⟩
    rw [walk_eq]
    exact congrArg (Progress.map Prod.fst) hrun
  · exact congrArg (fun p => p.state.2) hrun

theorem attempted_of_accepting (h : (t.emit r.options).Direct) {g : Target} (hg : g.sink.Accepting)
    (notes : List Note) :
    (r.walk t g notes).fault = (t.emit r.options).ending ∧
      r.attempted t g notes = (t.emit r.options).pieces := by
  obtain ⟨⟨left, hwalk⟩, htried⟩ := walk_direct h g notes
  have hnone := hg (t.emit r.options).pieces
  constructor
  · rw [hwalk, hnone]
    rfl
  · rw [htried, Sink.writeAll_count hnone, List.take_of_length_le (Nat.le_succ _)]

end Renderer

namespace Sink

theorem writeAll_buffer (held : String) (ps : List String) :
    (buffer held false).writeAll ps = (ps.length, buffer (held ++ String.join ps) false, none) := by
  induction ps generalizing held with
  | nil => simp [writeAll]
  | cons p ps ih =>
    have hw : (buffer held false).write p = .ok (buffer (held ++ p) false) := rfl
    rw [writeAll_cons_ok hw, ih]
    simp [String.append_assoc]

theorem accepting_buffer (held : String) : (buffer held false).Accepting := by
  intro ps
  rw [writeAll_buffer]

end Sink

theorem Tree.render_direct {o : Options} {t : Tree} (h : (t.emit o).Direct) :
    t.render o = (t.emit o).ending.elim (.ok (String.join (t.emit o).pieces)) .error := by
  obtain ⟨⟨left, hwalk⟩, -⟩ :=
    Renderer.walk_direct (r := .idle o) h ⟨.buffer "" false, none, .text "<string>"⟩ []
  rw [Tree.render, renderString, Renderer.renderString, hwalk, Sink.writeAll_buffer]
  cases hend : (t.emit o).ending <;> simp [Outcome.of, Renderer.idle, Rendering.sink?, hend]

theorem Tree.eq_join_of_render {o : Options} {t : Tree} {text : String} (h : (t.emit o).Direct)
    (htext : t.render o = .ok text) :
    (t.emit o).ending = none ∧ text = String.join (t.emit o).pieces := by
  rw [Tree.render_direct h] at htext
  cases hend : (t.emit o).ending with
  | none =>
    rw [hend] at htext
    exact ⟨rfl, (Except.ok.inj htext).symm⟩
  | some f =>
    rw [hend] at htext
    cases htext

end Manuscript
