import Mathlib
import Manuscript.Proofs.Destinations
/-!
# Renderings that cannot be encoded

A character without bytes ends a rendering to bytes at the piece that holds it. That piece is refused as a
whole, in the words of its encoding; what was encoded before it stays.
-/
namespace Manuscript

namespace Encoding

variable {e : Encoding}

/-- Encodings with a mark represent all characters. -/
theorem mark_of_not_represents {c : Char} (h : e.represents c = false) : e.mark = [] := by
  cases e with
  | utf8Marked | utf16Marked | utf32Marked => simp [represents, charBytes?] at h
  | _ => rfl

theorem body_eq_error_iff (e : Encoding) (text : String) (r : Refusal) :
    e.body text = .error r ↔ e.refusal? 0 text.toList = some r := by
  rw [body]
  cases e.refusal? 0 text.toList <;> simp

theorem refusal?_position {n : Nat} {cs : List Char} {r : Refusal} (h : e.refusal? n cs = some r) :
    ∃ sound rest, cs = sound ++ r.character :: rest ∧ r.position = n + sound.length ∧
      (∀ c ∈ sound, e.represents c = true) ∧ e.represents r.character = false := by
  induction cs generalizing n with
  | nil => cases h
  | cons c cs ih =>
    rw [refusal?] at h
    split at h
    · rename_i hc
      obtain ⟨sound, rest, rfl, hposition, hsound, hnot⟩ := ih h
      refine ⟨c :: sound, rest, rfl, ?_, List.forall_mem_cons.mpr ⟨hc, hsound⟩, hnot⟩
      rw [hposition, List.length_cons]
      omega
    · rename_i hc
      obtain rfl := Option.some.inj h
      exact ⟨[], cs, rfl, rfl, by simp, by simpa using hc⟩

/-- A refusal is for the first character that is not represented, at its place in the text. -/
theorem body_error_position {text : String} {r : Refusal} (h : e.body text = .error r) :
    ∃ sound rest, text.toList = sound ++ r.character :: rest ∧ r.position = sound.length ∧
      (∀ c ∈ sound, e.represents c = true) ∧ e.represents r.character = false := by
  obtain ⟨sound, rest, htext, hposition, hall⟩ := refusal?_position ((body_eq_error_iff e text r).mp h)
  exact ⟨sound, rest, htext, by simpa using hposition, hall⟩

theorem encode_eq_body (h : e.mark = []) (text : String) : e.encode text = e.body text := by
  rw [encode, h]
  cases e.body text <;> rfl

/-- Pieces that can all be encoded before the first one that cannot. -/
theorem exists_first_refused (hmark : e.mark = []) {ps : List String}
    (h : ∃ c ∈ (String.join ps).toList, e.represents c = false) :
    ∃ before piece after encoded r, ps = before ++ piece :: after ∧
      before.mapM e.encode = .ok encoded ∧ e.body piece = .error r := by
  induction ps with
  | nil =>
    obtain ⟨c, hc, -⟩ := h
    simp at hc
  | cons p ps ih =>
    cases hp : e.body p with
    | error r => exact ⟨[], p, ps, [], r, rfl, rfl, hp⟩
    | ok bytes =>
      have hall := ((e.body_eq_ok_iff p bytes).mp hp).1
      have hrest : ∃ c ∈ (String.join ps).toList, e.represents c = false := by
        obtain ⟨c, hc, hnot⟩ := h
        rw [String.join_cons, String.toList_append, List.mem_append] at hc
        rcases hc with hc | hc
        · rw [hall c hc] at hnot
          cases hnot
        · exact ⟨c, hc, hnot⟩
      obtain ⟨before, piece, after, encoded, r, rfl, hencoded, hr⟩ := ih hrest
      have hbefore : (p :: before).mapM e.encode = .ok (bytes :: encoded) := by
        rw [List.mapM_cons, encode_eq_body hmark p, hp, hencoded]
        rfl
      exact ⟨p :: before, piece, after, bytes :: encoded, r, rfl, hbefore, hr⟩

theorem body_join_of_mapM (hmark : e.mark = []) {ps : List String} {encoded : List (List UInt8)}
    (h : ps.mapM e.encode = .ok encoded) : e.body (String.join ps) = .ok encoded.flatten := by
  induction ps generalizing encoded with
  | nil =>
    obtain rfl := Except.ok.inj h
    rfl
  | cons p ps ih =>
    rw [List.mapM_cons, encode_eq_body hmark p] at h
    cases hp : e.body p with
    | error r =>
      rw [hp] at h
      cases h
    | ok bytes =>
      cases hps : ps.mapM e.encode with
      | error r =>
        rw [hp, hps] at h
        cases h
      | ok rest =>
        rw [hp, hps] at h
        obtain rfl := Except.ok.inj h
        rw [String.join_cons]
        exact body_append hp (ih hps)

theorem body_of_all_represented {text : String} (h : ¬∃ c ∈ text.toList, e.represents c = false) :
    ∃ bytes, e.body text = .ok bytes :=
  ⟨_, (e.body_eq_ok_iff text _).mpr ⟨fun c hc => by simpa using fun hnot => h ⟨c, hc, hnot⟩, rfl⟩⟩

end Encoding

namespace Sink

theorem writeAll_append {sink next : Sink} {ps : List String} {n : Nat}
    (h : sink.writeAll ps = (n, next, none)) (qs : List String) :
    sink.writeAll (ps ++ qs) = (n + (next.writeAll qs).1, (next.writeAll qs).2) := by
  induction ps generalizing sink n with
  | nil =>
    obtain ⟨rfl, rfl⟩ : 0 = n ∧ sink = next := by simpa [writeAll] using h
    simp
  | cons p ps ih =>
    cases hw : sink.write p with
    | error f => simp [writeAll_cons_error hw] at h
    | ok middle =>
      rw [writeAll_cons_ok hw] at h
      obtain ⟨hcount, hrest⟩ := Prod.mk.inj h
      have hmiddle : middle.writeAll ps = ((middle.writeAll ps).1, next, none) := Prod.ext rfl hrest
      rw [List.cons_append, writeAll_cons_ok hw, ih hmiddle, ← hcount]
      simp only [Nat.add_right_comm]

/-- Sinks of bytes that take nothing of a piece which their writer refuses. -/
def Refuses (make : Writer → ByteStream → Sink) : Prop :=
  ∀ (w : Writer) (s : ByteStream) (piece : String) (f : Fault), s.refusal? = none →
    w.bytes piece = .error f → (make w s).write piece = .error f

theorem refuses_stream : Refuses fun w s => .stream ⟨s, w⟩ := by
  intro w s piece f hopen hf
  simp [write, hopen, hf]

theorem refuses_encodedStream : Refuses .encodedStream := by
  intro w s piece f hopen hf
  simp [write, hf]

/-- A stream is left with the pieces before the one that is refused. -/
theorem writeAll_refused {make : Writer → ByteStream → Sink} (hmake : Encodes make)
    (hrefuse : Refuses make) {e : Encoding} (hmark : e.mark = []) {s : ByteStream}
    (hopen : s.refusal? = none) {before : List String} {encoded : List (List UInt8)}
    (hbefore : before.mapM e.encode = .ok encoded) {piece : String} {r : Refusal}
    (hr : e.body piece = .error r) (after : List String) :
    ∃ started, (make (.encoder ⟨e, .strict, false⟩) s).writeAll (before ++ piece :: after) = (before.length,
      make (.encoder ⟨e, .strict, started⟩) { s with content := s.content ++ encoded.flatten },
      some (.unencodable r)) := by
  have hbody := Encoding.body_join_of_mapM hmark hbefore
  have hadded : Encoder.added ⟨e, .strict, false⟩ before encoded.flatten = encoded.flatten := by
    cases before with
    | nil =>
      obtain rfl := Except.ok.inj hbefore
      rfl
    | cons p before => simp [Encoder.added, hmark]
  have hall := writeAll_encodes hmake (e := ⟨e, .strict, false⟩) rfl hopen hbody
  rw [hadded] at hall
  have hbytes : (Writer.encoder ⟨e, .strict, !before.isEmpty⟩).bytes piece = .error (.unencodable r) := by
    simp [Encoder.bytes, Handling.prepared, hr]
  have hlast := writeAll_cons_error
    (hrefuse _ { s with content := s.content ++ encoded.flatten } piece _ hopen hbytes) after
  refine ⟨!before.isEmpty, ?_⟩
  rw [writeAll_append hall, Bool.false_or, hlast]
  rfl

end Sink

/-- An operation that has ended in a failed encoding. -/
def EncodingFailed {α : Type} (result : Except Fault α) : Prop :=
  ∃ encoding cause, result = .error (.encodingFailed encoding cause)

section

variable [Codecs] {o : Options} {t : Tree} {e : Encoding}

omit [Codecs] in
theorem encodingFailed_map {α β : Type} (f : α → β) (result : Except Fault α) :
    EncodingFailed (result.map f) ↔ EncodingFailed result := by
  cases result <;> simp [EncodingFailed, Except.map]

omit [Codecs] in
/-- A rendering to a text knows of no encodings. -/
theorem not_encodingFailed_ending (h : t.OfNodes) :
    ¬EncodingFailed ((t.emit o).ending.elim (.ok ()) .error) := by
  rintro ⟨encoding, cause, hresult⟩
  have hfollows := t.emit_follows o h
  by_cases hcounted : ∃ s, t.Uncounted s
  · obtain ⟨s, f, -, ⟨c, -, -, rfl⟩, hend, -⟩ := hfollows.begun hcounted
    rw [hend] at hresult
    cases hresult
  · rw [(hfollows.whole (by simpa using hcounted)).1] at hresult
    cases hresult

theorem deliver_refused (h : t.OfNodes) {make : Writer → ByteStream → Sink} (hmake : Sink.Encodes make)
    (hrefuse : Sink.Refuses make) (hmark : e.mark = []) {s : ByteStream} (hopen : s.refusal? = none)
    {d : Destination} {fs opened : Files}
    (hopened : d.opened o.encodingName fs = (opened, .ok (make (.encoder ⟨e, .strict, false⟩) s)))
    (hdeclared : d.declared = none) {before after : List String} {piece : String}
    (hps : (t.emit o).pieces = before ++ piece :: after) {encoded : List (List UInt8)}
    (hbefore : before.mapM e.encode = .ok encoded) {r : Refusal} (hr : e.body piece = .error r) :
    (deliver o t d fs).outcome.result =
        .error (.encodingFailed (.text o.encodingName) (.unencodable r)) ∧
      ∃ started, ((deliver o t d fs).destination, (deliver o t d fs).files) = d.released
        (make (.encoder ⟨e, .strict, started⟩) { s with content := s.content ++ encoded.flatten }) opened := by
  obtain ⟨started, hw⟩ := Sink.writeAll_refused hmake hrefuse hmark hopen hbefore hr after
  rw [← hps] at hw
  obtain ⟨hresult, hleft⟩ := deliver_of_writeAll (t.emit_follows o h).direct hopened hw
  refine ⟨?_, started, hleft⟩
  rw [hresult]
  simp [Renderer.reported, reportedFault, Renderer.reportedEncoding, Renderer.idle, hdeclared]

/-- An open destination fails to encode just those renderings that hold characters without bytes. -/
theorem encodingFailed_deliver_iff (h : t.OfNodes) {make : Writer → ByteStream → Sink}
    (hmake : Sink.Encodes make) (hrefuse : Sink.Refuses make) {s : ByteStream} (hopen : s.refusal? = none)
    {d : Destination} {fs opened : Files}
    (hopened : d.opened o.encodingName fs = (opened, .ok (make (.encoder ⟨e, .strict, false⟩) s)))
    (hdeclared : d.declared = none) : EncodingFailed (deliver o t d fs).outcome.result ↔
      ∃ c ∈ (String.join (t.emit o).pieces).toList, e.represents c = false := by
  by_cases hunfit : ∃ c ∈ (String.join (t.emit o).pieces).toList, e.represents c = false
  · obtain ⟨c, -, hc⟩ := id hunfit
    have hmark := Encoding.mark_of_not_represents hc
    obtain ⟨before, piece, after, encoded, r, hps, hbefore, hr⟩ :=
      Encoding.exists_first_refused hmark hunfit
    have hresult := (deliver_refused h hmake hrefuse hmark hopen hopened hdeclared hps hbefore hr).1
    exact ⟨fun _ => hunfit, fun _ => ⟨_, _, hresult⟩⟩
  · obtain ⟨body, hbody⟩ := Encoding.body_of_all_represented hunfit
    have hw := Sink.writeAll_encodes hmake (e := ⟨e, .strict, false⟩) rfl hopen hbody
    rw [(deliver_of_writeAll (t.emit_follows o h).direct hopened hw).1]
    exact ⟨fun hfailed => absurd hfailed (not_encodingFailed_ending h), fun hc => absurd hc hunfit⟩

omit [Codecs] in
theorem Files.read?_replaced {path : String} {place : Place} {fs : Files}
    (hplace : fs.locate path = .ok place) (bytes : List UInt8) :
    let left := (fs.put place []).put place bytes
    left.read? path = some bytes ∧ left.directories = fs.directories ∧
      ∀ other, other ≠ place → left.content? other = fs.content? other := by
  refine ⟨?_, rfl, fun other hother => ?_⟩
  · rw [Files.read?, Files.locate_put (Files.locate_put hplace place []) place bytes]
    exact Files.content?_put _ _ _
  · rw [Files.content?_put_of_ne hother, Files.content?_put_of_ne hother]

/-- Bytes are refused for just those renderings that hold a character without bytes. The first piece with one
is reported, at the place of the character in the piece; what the pieces before it are encoded to has been
delivered, and nothing else. -/
theorem encodingFailed_iff (h : t.OfNodes) (he : Codec.ofName? o.encodingName = some (.supported e)) :
    let ps := t.written o
    let unfit := ∃ c ∈ (String.join ps).toList, e.represents c = false
    (t.RowsCounted → t.render o = .ok (String.join ps)) ∧
    (∀ text, t.render o = .ok text → text = String.join ps) ∧
    (EncodingFailed (renderBytes o t).result ↔ unfit) ∧
    (∀ s name fs, s.refusal? = none →
      (EncodingFailed (deliver o t (.bytes s name) fs).outcome.result ↔ unfit)) ∧
    (∀ path name place fs, fs.locate path = .ok place →
      (EncodingFailed (deliver o t (.path path name) fs).outcome.result ↔ unfit)) ∧
    (unfit → ∃ before piece after encoded r sound rest,
      ps = before ++ piece :: after ∧ before.mapM e.encode = .ok encoded ∧ e.body piece = .error r ∧
      piece.toList = sound ++ r.character :: rest ∧ r.position = sound.length ∧
      (∀ c ∈ sound, e.represents c = true) ∧ e.represents r.character = false ∧
      let failed := Fault.encodingFailed (.text o.encodingName) (.unencodable r)
      (renderBytes o t).result = .error failed ∧
      (∀ s name fs, s.refusal? = none → (deliver o t (.bytes s name) fs).outcome.result = .error failed ∧
        (deliver o t (.bytes s name) fs).destination =
          .bytes { s with content := s.content ++ encoded.flatten } name) ∧
      ∀ path name place fs, fs.locate path = .ok place →
        (deliver o t (.path path name) fs).outcome.result = .error failed ∧
        (deliver o t (.path path name) fs).files.read? path = some encoded.flatten ∧
        (deliver o t (.path path name) fs).files.directories = fs.directories ∧
        ∀ other, other ≠ place →
          (deliver o t (.path path name) fs).files.content? other = fs.content? other) := by
  intro ps unfit
  have hdirect := (t.emit_follows o h).direct
  have hps : ps = (t.emit o).pieces :=
    (Renderer.attempted_of_accepting hdirect (Sink.accepting_buffer "") []).2
  have hwhole : ∀ text, t.render o = .ok text → text = String.join ps := by
    intro text htext
    rw [hps]
    exact (Tree.eq_join_of_render hdirect htext).2
  have hbytes : ∀ (s : ByteStream) name fs, s.refusal? = none →
      (EncodingFailed (deliver o t (.bytes s name) fs).outcome.result ↔ unfit) := by
    intro s name fs hopen
    change _ ↔ ∃ c ∈ (String.join ps).toList, _
    rw [hps]
    exact encodingFailed_deliver_iff h Sink.encodes_encodedStream Sink.refuses_encodedStream hopen
      (opened_bytes he s name fs) rfl
  refine ⟨?_, hwhole, ?_, hbytes, ?_, ?_⟩
  · intro hcounted
    have hrender := Tree.render_counted h hcounted o
    rw [hrender, hwhole _ hrender]
  · rw [renderBytes_eq, encodingFailed_map]
    exact hbytes _ _ _ rfl
  · intro path name place fs hplace
    change _ ↔ ∃ c ∈ (String.join ps).toList, _
    rw [hps]
    exact encodingFailed_deliver_iff h Sink.encodes_stream Sink.refuses_stream rfl
      (opened_path he hplace name) rfl
  · intro hunfit
    obtain ⟨c, -, hc⟩ := id hunfit
    have hmark := Encoding.mark_of_not_represents hc
    obtain ⟨before, piece, after, encoded, r, hsplit, hbefore, hr⟩ :=
      Encoding.exists_first_refused hmark hunfit
    obtain ⟨sound, rest, hpiece, hposition, hsound, hnot⟩ := Encoding.body_error_position hr
    have hstream : ∀ (s : ByteStream) name fs, s.refusal? = none →
        (deliver o t (.bytes s name) fs).outcome.result =
          .error (.encodingFailed (.text o.encodingName) (.unencodable r)) ∧
        (deliver o t (.bytes s name) fs).destination =
          .bytes { s with content := s.content ++ encoded.flatten } name := by
      intro s name fs hopen
      obtain ⟨hresult, started, hleft⟩ := deliver_refused h Sink.encodes_encodedStream
        Sink.refuses_encodedStream hmark hopen (opened_bytes he s name fs) rfl (hps.symm.trans hsplit)
        hbefore hr
      exact ⟨hresult, congrArg Prod.fst hleft⟩
    refine ⟨before, piece, after, encoded, r, sound, rest, hsplit, hbefore, hr, hpiece, hposition, hsound,
      hnot, ?_, hstream, ?_⟩
    · rw [renderBytes_eq, (hstream _ _ _ rfl).1]
      rfl
    · intro path name place fs hplace
      obtain ⟨hresult, started, hleft⟩ := deliver_refused h Sink.encodes_stream Sink.refuses_stream hmark
        rfl (opened_path he hplace name) rfl (hps.symm.trans hsplit) hbefore hr
      have hfiles : (deliver o t (.path path name) fs).files =
          (fs.put place []).put place encoded.flatten := by
        refine (congrArg Prod.snd hleft).trans ?_
        simp only [Destination.released, Files.locate_put hplace, List.nil_append]
      rw [hfiles]
      exact ⟨hresult, Files.read?_replaced hplace encoded.flatten⟩

end

/-- The second piece is refused, at the second character of that piece. -/
theorem encodingFailed_iff_second_piece :
    let o : Options := ⟨"latin-1", false, .text "section"⟩
    let t := Tree.paragraph .listed [.plain "é", .plain "c€", .plain "d"]
    let s : ByteStream := ⟨.byteFile, [7], false, true⟩
    let fs : Files := ⟨[], [(["a.tex"], [1, 2])]⟩
    t.OfNodes ∧ Codec.ofName? o.encodingName = some (.supported .latin1) ∧ s.refusal? = none ∧
      fs.locate "a.tex" = .ok ["a.tex"] ∧
      EncodingFailed (deliver o t (.path "a.tex" (.text "a.tex")) fs).outcome.result ∧
      EncodingFailed (deliver o t (.bytes s (.text "out")) fs).outcome.result ∧
      (deliver o t (.bytes s (.text "out")) fs).destination =
        .bytes ⟨.byteFile, [7, 0xe9], false, true⟩ (.text "out") ∧
      (renderBytes o t).result =
        .error (.encodingFailed (.text "latin-1") (.unencodable ⟨.latin1, '€', 1, 1⟩)) := by
  intro o t s fs
  have hnodes : t.OfNodes := .paragraph (by simpa using ⟨.plain "é", .plain "c€", .plain "d"⟩)
  have he : Codec.ofName? "latin-1" = some (.supported .latin1) := by decide +kernel
  have hplace : fs.locate "a.tex" = .ok ["a.tex"] := by rfl
  have hunfit : ∃ c ∈ (String.join (t.written o)).toList, Encoding.latin1.represents c = false :=
    ⟨'€', by decide, by decide⟩
  obtain ⟨-, -, -, hstream, hpath, -⟩ := encodingFailed_iff hnodes (o := o) he
  have hopened := opened_bytes (o := o) he
  refine ⟨hnodes, he, rfl, hplace, (hpath "a.tex" _ _ fs hplace).mpr hunfit, (hstream s _ fs rfl).mpr hunfit, ?_, ?_⟩
  · simp only [deliver, Renderer.deliver, Renderer.idle, hopened]
    cbv
  · simp only [renderBytes, Renderer.renderBytes, Renderer.deliver, Renderer.idle, hopened]
    cbv

end Manuscript
