import Manuscript.Proofs.WrittenText
/-!
# The same text at every destination

A text is encoded piece by piece on its way to bytes. Together these are the bytes of the whole text, behind
one mark; only without any piece there is no mark either.
-/
namespace Manuscript

namespace Encoding

@[simp] theorem body_empty (e : Encoding) : e.body "" = .ok [] := rfl

theorem body_split {e : Encoding} {s t : String} {bytes : List UInt8} (h : e.body (s ++ t) = .ok bytes) :
    ∃ xs ys, e.body s = .ok xs ∧ e.body t = .ok ys ∧ bytes = xs ++ ys := by
  obtain ⟨hall, rfl⟩ := (e.body_eq_ok_iff _ _).mp h
  have hs : ∀ c ∈ s.toList, e.represents c = true := fun c hc => hall c (by simp [hc])
  have ht : ∀ c ∈ t.toList, e.represents c = true := fun c hc => hall c (by simp [hc])
  exact ⟨_, _, (e.body_eq_ok_iff _ _).mpr ⟨hs, rfl⟩, (e.body_eq_ok_iff _ _).mpr ⟨ht, rfl⟩, by simp⟩

theorem encode_of_body {e : Encoding} {text : String} {body : List UInt8} (h : e.body text = .ok body) :
    e.encode text = .ok (e.mark ++ body) := by
  rw [encode, h]
  rfl

theorem encode_eq_ok {e : Encoding} {text : String} {bytes : List UInt8} (h : e.encode text = .ok bytes) :
    ∃ body, e.body text = .ok body ∧ bytes = e.mark ++ body := by
  rw [encode] at h
  cases hbody : e.body text with
  | error r =>
    rw [hbody] at h
    cases h
  | ok body =>
    rw [hbody] at h
    exact ⟨body, rfl, (Except.ok.inj h).symm⟩

end Encoding

namespace Encoder

/-- The bytes that an encoder adds for some pieces with a body: none without a piece, and a mark only before
the first of all. -/
def added (e : Encoder) (ps : List String) (body : List UInt8) : List UInt8 :=
  if ps.isEmpty then [] else (if e.started then [] else e.encoding.mark) ++ body

theorem added_cons (e : Encoder) (p : String) {ps : List String} (xs : List UInt8) {ys : List UInt8}
    (hys : e.encoding.body (String.join ps) = .ok ys) :
    e.added (p :: ps) (xs ++ ys) =
      (if e.started then [] else e.encoding.mark) ++ xs ++ { e with started := true }.added ps ys := by
  cases ps with
  | nil =>
    have hnil : [] = ys := Except.ok.inj hys
    simp [added, ← hnil]
  | cons q ps => simp [added]

end Encoder

namespace Sink

/-- Sinks of bytes behind a writer. -/
def Encodes (make : Writer → ByteStream → Sink) : Prop :=
  ∀ (w : Writer) (s : ByteStream) (piece : String) (bytes : List UInt8), s.refusal? = none →
    w.bytes piece = .ok bytes → (make w s).write piece =
      .ok (make (w.after piece) { s with content := s.content ++ bytes })

theorem encodes_stream : Encodes fun w s => .stream ⟨s, w⟩ := by
  intro w s piece bytes hopen hbytes
  simp [write, hopen, hbytes]

theorem encodes_encodedStream : Encodes .encodedStream := by
  intro w s piece bytes hopen hbytes
  simp [write, hbytes, ByteStream.append, hopen, Except.map]

theorem writeAll_encodes {make : Writer → ByteStream → Sink} (hmake : Encodes make) {e : Encoder}
    (strict : e.handling = .strict) {s : ByteStream} (hopen : s.refusal? = none) {ps : List String}
    {body : List UInt8} (hbody : e.encoding.body (String.join ps) = .ok body) :
    (make (.encoder e) s).writeAll ps = (ps.length,
      make (.encoder { e with started := e.started || !ps.isEmpty })
        { s with content := s.content ++ e.added ps body }, none) := by
  induction ps generalizing e s body with
  | nil => simp [writeAll, Encoder.added]
  | cons p ps ih =>
    rw [String.join_cons] at hbody
    obtain ⟨xs, ys, hxs, hys, rfl⟩ := Encoding.body_split hbody
    have hbytes : e.bytes p = .ok ((if e.started then [] else e.encoding.mark) ++ xs) := by
      simp [Encoder.bytes, strict, Handling.prepared, hxs]
    -- what follows is written without a mark, by an encoder that has started
    have hwrite := hmake (.encoder e) s p _ hopen hbytes
    have hrest := ih (e := { e with started := true }) strict
      (s := { s with content := s.content ++ ((if e.started then [] else e.encoding.mark) ++ xs) }) hopen hys
    rw [writeAll_cons_ok hwrite, Writer.after_encoder, hrest, Encoder.added_cons e p xs hys]
    simp

end Sink

/-- A stream holds a text in the encoding of its encoder. The mark goes before the first piece that is written to
it. -/
structure TextStream.Holds (s : TextStream) (e : Encoder) (text : String) : Prop where
  opened : s.bytes.refusal? = none
  encoded : s.writer = .encoder e
  strict : e.handling = .strict
  fresh : e.started = false → s.bytes.content = [] ∧ text = ""
  begun : e.started = true → e.encoding.encode text = .ok s.bytes.content

theorem TextStream.Holds.writeAll {s : TextStream} {e : Encoder} {held : String} (h : s.Holds e held)
    {ps : List String} {body : List UInt8} (hbody : e.encoding.body (String.join ps) = .ok body) :
    ∃ (last : TextStream) (after : Encoder), (Sink.stream s).writeAll ps = (ps.length, .stream last, none) ∧
      last.Holds after (held ++ String.join ps) ∧ after.encoding = e.encoding := by
  obtain ⟨bytes, writer⟩ := s
  obtain rfl : writer = .encoder e := h.encoded
  refine ⟨_, { e with started := e.started || !ps.isEmpty },
    Sink.writeAll_encodes Sink.encodes_stream h.strict h.opened hbody, ?_, rfl⟩
  cases ps with
  | nil =>
    have hsame : held ++ String.join [] = held := by simp
    rw [hsame]
    exact ⟨h.opened, rfl, h.strict, by simpa [Encoder.added] using h.fresh, by
      simpa [Encoder.added] using h.begun⟩
  | cons p ps =>
    refine ⟨h.opened, rfl, h.strict, fun hnot => by simp at hnot, fun _ => ?_⟩
    cases hstarted : e.started with
    | false =>
      obtain ⟨hnil, rfl⟩ := h.fresh hstarted
      have hnil : bytes.content = [] := hnil
      simp only [String.empty_append, Encoder.added, hnil, hstarted]
      exact Encoding.encode_of_body hbody
    | true =>
      obtain ⟨before, hbefore, hcontent⟩ := Encoding.encode_eq_ok (h.begun hstarted)
      have hcontent : bytes.content = e.encoding.mark ++ before := hcontent
      simp only [Encoder.added, hcontent, hstarted]
      simpa using Encoding.encode_of_body (Encoding.body_append hbefore hbody)

namespace Files

theorem descend_put {fs : Files} {path : String} {names : List String} {here there : Place}
    (h : fs.descend path here names = .ok there) (place : Place) (bytes : List UInt8) :
    (fs.put place bytes).descend path here names = .ok there := by
  -- only directories are asked for on the way; contents just tell one fault from another
  have hdir : (fs.put place bytes).isDirectory = fs.isDirectory := rfl
  induction names generalizing here with
  | nil => exact h
  | cons name names ih =>
    rw [descend] at h ⊢
    rw [hdir]
    by_cases hhere : name = "."
    · rw [if_pos hhere] at h ⊢
      exact ih h
    rw [if_neg hhere] at h ⊢
    by_cases hup : name = ".."
    · rw [if_pos hup] at h ⊢
      exact ih h
    rw [if_neg hup] at h ⊢
    by_cases hdown : fs.isDirectory (here ++ [name]) = true
    · rw [if_pos hdown] at h ⊢
      exact ih h
    rw [if_neg hdown] at h
    split at h
    · cases h
    · split at h <;> cases h

/-- A path leads to the same place whatever files hold. -/
theorem locate_put {fs : Files} {path : String} {found : Place} (h : fs.locate path = .ok found)
    (place : Place) (bytes : List UInt8) : (fs.put place bytes).locate path = .ok found := by
  have hdir : (fs.put place bytes).isDirectory = fs.isDirectory := rfl
  rw [locate] at h ⊢
  split at h
  · cases h
  rename_i hnull
  rw [if_neg hnull]
  split at h
  · cases h
  rename_i hshort
  rw [if_neg hshort]
  cases hnames : (Path.names path).reverse with
  | nil =>
    rw [hnames] at h
    cases h
  | cons name before =>
    simp only [hnames] at h ⊢
    cases hhere : fs.descend path [] before.reverse with
    | error f =>
      rw [hhere] at h
      cases h
    | ok here =>
      rw [hhere] at h
      rw [descend_put hhere, hdir]
      exact h

theorem lookup_filter_ne {place other : Place} (h : other ≠ place) (contents : List (Place × List UInt8)) :
    (contents.filter (·.1 != place)).lookup other = contents.lookup other := by
  induction contents with
  | nil => rfl
  | cons entry contents ih =>
    by_cases hentry : entry.1 = place
    · have hother : (other == entry.1) = false := by simpa [hentry] using h
      rw [List.filter_cons_of_neg (by simp [hentry]), ih, List.lookup_cons, hother]
    · rw [List.filter_cons_of_pos (by simp [hentry]), List.lookup_cons, List.lookup_cons, ih]

theorem content?_put_of_ne {fs : Files} {place other : Place} (h : other ≠ place) (bytes : List UInt8) :
    (fs.put place bytes).content? other = fs.content? other := by
  have hother : (other == place) = false := by simpa using h
  rw [content?, put, List.lookup_cons, hother]
  exact lookup_filter_ne h fs.contents

end Files

/-- The pieces that rendering a tree to a text writes. -/
def Tree.written (o : Options) (t : Tree) : List String :=
  (Renderer.idle o).attempted t ⟨.buffer "" false, none, .text "<string>"⟩ []

section

variable [Codecs] {o : Options} {t : Tree}

/-- A rendering ends as its last write does, and if all are taken, as its emission does. -/
theorem deliver_of_writeAll (h : (t.emit o).Direct) {d : Destination} {fs opened : Files}
    {sink last : Sink} {n : Nat} {fault : Option Fault}
    (hopen : d.opened o.encodingName fs = (opened, .ok sink))
    (hw : sink.writeAll (t.emit o).pieces = (n, last, fault)) :
    (deliver o t d fs).outcome.result =
        ((fault.map ((Renderer.idle o).reported ⟨sink, d.declared, d.name⟩)).or (t.emit o).ending).elim
          (.ok ()) .error ∧
      ((deliver o t d fs).destination, (deliver o t d fs).files) = d.released last opened := by
  obtain ⟨⟨left, hwalk⟩, -⟩ := Renderer.walk_direct (r := .idle o) h ⟨sink, d.declared, d.name⟩
    [.writingTo d.name.printed]
  have hemit : t.emit (Renderer.idle o).options = t.emit o := rfl
  have hopened : d.opened (Renderer.idle o).options.encodingName fs = (opened, .ok sink) := hopen
  simp only [hemit, hw] at hwalk
  simp only [deliver, Renderer.deliver, hopened, hwalk, Rendering.sink?, Outcome.of_result]
  exact ⟨rfl, rfl⟩

theorem deliver_of_taken (h : (t.emit o).Direct) (hend : (t.emit o).ending = none) {d : Destination}
    {fs opened : Files} {sink last : Sink} {n : Nat} (hopen : d.opened o.encodingName fs = (opened, .ok sink))
    (hw : sink.writeAll (t.emit o).pieces = (n, last, none)) :
    (deliver o t d fs).outcome.result = .ok () ∧
      ((deliver o t d fs).destination, (deliver o t d fs).files) = d.released last opened := by
  have hall := deliver_of_writeAll h hopen hw
  rwa [hend] at hall

theorem deliver_buffer (h : (t.emit o).Direct) (hend : (t.emit o).ending = none) (held : String)
    (name : Atom) (declared : Option Datum) (fs : Files) :
    (deliver o t (.text (.buffer held false) name declared) fs).outcome.result = .ok () ∧
      (deliver o t (.text (.buffer held false) name declared) fs).destination =
        .text (.buffer (held ++ String.join (t.emit o).pieces) false) name declared := by
  have hopened : (Destination.text (.buffer held false) name declared).opened o.encodingName fs =
      (fs, .ok (.buffer held false)) := rfl
  obtain ⟨hresult, hleft⟩ := deliver_of_taken h hend hopened (Sink.writeAll_buffer held _)
  exact ⟨hresult, congrArg Prod.fst hleft⟩

theorem deliver_stream (h : (t.emit o).Direct) (hend : (t.emit o).ending = none) {s : TextStream} {own : Encoder}
    {held : String} (hs : s.Holds own held) {body : List UInt8}
    (hbody : own.encoding.body (String.join (t.emit o).pieces) = .ok body)
    (name : Atom) (declared : Option Datum) (fs : Files) :
    (deliver o t (.text (.stream s) name declared) fs).outcome.result = .ok () ∧
      ∃ (last : TextStream) (after : Encoder),
        (deliver o t (.text (.stream s) name declared) fs).destination = .text (.stream last) name declared ∧
        last.Holds after (held ++ String.join (t.emit o).pieces) ∧ after.encoding = own.encoding := by
  obtain ⟨last, after, hw, hlast, hsame⟩ := hs.writeAll hbody
  have hopened : (Destination.text (.stream s) name declared).opened o.encodingName fs =
      (fs, .ok (.stream s)) := rfl
  obtain ⟨hresult, hleft⟩ := deliver_of_taken h hend hopened hw
  exact ⟨hresult, last, after, congrArg Prod.fst hleft, hlast, hsame⟩

theorem opened_bytes (he : Codec.ofName? o.encodingName = some (.supported e)) (s : ByteStream) (name : Atom)
    (fs : Files) : (Destination.bytes s name).opened o.encodingName fs =
      (fs, .ok (.encodedStream (.encoder ⟨e, .strict, false⟩) s)) := by
  rw [Destination.opened, Writer.forBytes_supported he]
  rfl

theorem opened_path (he : Codec.ofName? o.encodingName = some (.supported e)) {path : String} {place : Place}
    {fs : Files} (hplace : fs.locate path = .ok place) (name : Atom) :
    (Destination.path path name).opened o.encodingName fs =
      (fs.put place [], .ok (.stream ⟨⟨.textFile, [], false, true⟩, .encoder ⟨e, .strict, false⟩⟩)) := by
  simp only [Destination.opened, hplace, Writer.forText_supported he]
  rfl

theorem deliver_bytes (h : (t.emit o).Direct) (hend : (t.emit o).ending = none) {e : Encoding}
    (he : Codec.ofName? o.encodingName = some (.supported e)) {body : List UInt8}
    (hbody : e.body (String.join (t.emit o).pieces) = .ok body) {s : ByteStream}
    (hopen : s.refusal? = none) (name : Atom) (fs : Files) :
    (deliver o t (.bytes s name) fs).outcome.result = .ok () ∧
      (deliver o t (.bytes s name) fs).destination = .bytes
        { s with content := s.content ++ (Encoder.added ⟨e, .strict, false⟩ (t.emit o).pieces body) }
        name := by
  obtain ⟨hresult, hleft⟩ := deliver_of_taken h hend (opened_bytes he s name fs)
    (Sink.writeAll_encodes Sink.encodes_encodedStream (e := ⟨e, .strict, false⟩) rfl hopen hbody)
  exact ⟨hresult, congrArg Prod.fst hleft⟩

theorem deliver_path (h : (t.emit o).Direct) (hend : (t.emit o).ending = none) {e : Encoding}
    (he : Codec.ofName? o.encodingName = some (.supported e)) {body : List UInt8}
    (hbody : e.body (String.join (t.emit o).pieces) = .ok body) {path : String} {place : Place} {fs : Files}
    (hplace : fs.locate path = .ok place) (name : Atom) :
    (deliver o t (.path path name) fs).outcome.result = .ok () ∧
      (deliver o t (.path path name) fs).files =
        (fs.put place []).put place (Encoder.added ⟨e, .strict, false⟩ (t.emit o).pieces body) := by
  obtain ⟨hresult, hleft⟩ := deliver_of_taken h hend (opened_path he hplace name)
    (Sink.writeAll_encodes Sink.encodes_stream (e := ⟨e, .strict, false⟩) rfl rfl hbody)
  refine ⟨hresult, (congrArg Prod.snd hleft).trans ?_⟩
  simp only [Destination.released, Files.locate_put hplace, List.nil_append]

theorem renderBytes_eq (o : Options) (t : Tree) :
    let done := deliver o t (.bytes ⟨.byteBuffer, [], false, true⟩ (.text "<BytesIO>")) .empty
    (renderBytes o t).result = done.outcome.result.map fun _ =>
      match done.destination with
      | .bytes s _ => s.content
      | _ => [] := rfl

theorem renderBytes_of_deliver {s : ByteStream} {name : Atom}
    (hresult : (deliver o t (.bytes ⟨.byteBuffer, [], false, true⟩ (.text "<BytesIO>")) .empty).outcome.result =
      .ok ())
    (hleft : (deliver o t (.bytes ⟨.byteBuffer, [], false, true⟩ (.text "<BytesIO>")) .empty).destination =
      .bytes s name) : (renderBytes o t).result = .ok s.content := by
  rw [renderBytes_eq, hresult, hleft]
  rfl

theorem publish_none {g : Given} {overrides : Overrides} (hg : g.resolved overrides = .ok o) (t : Tree)
    (fs : Files) : (publish g overrides t none fs).outcome.result = (t.render o).map some := by
  simp only [publish, hg]
  rfl

theorem publish_some {g : Given} {overrides : Overrides} (hg : g.resolved overrides = .ok o) (t : Tree)
    (d : Destination) (fs : Files) : publish g overrides t (some d) fs =
      ⟨some (deliver o t d fs).destination, (deliver o t d fs).files,
        (deliver o t d fs).outcome.map fun _ => none⟩ := by
  simp only [publish, hg]

/-- All destinations are given the same text: in the answer of a rendering call, behind what text streams
hold, and, in any of the supported encodings, encoded as a whole behind what binary streams hold and in place of
what a file held. Bytes are added only if anything is written at all. -/
theorem destinations_agree (h : t.OfNodes) {e : Encoding} (he : Codec.ofName? o.encodingName = some (.supported e))
    {text : String} (htext : t.render o = .ok text) {bytes : List UInt8}
    (hbytes : e.encode text = .ok bytes) :
    let added := if (t.written o).isEmpty then [] else bytes
    (∀ g overrides fs, Given.resolved g overrides = .ok o →
      (publish g overrides t none fs).outcome.result = .ok (some text)) ∧
    (∀ held name declared fs,
      (deliver o t (.text (.buffer held false) name declared) fs).outcome.result = .ok () ∧
      (deliver o t (.text (.buffer held false) name declared) fs).destination =
        .text (.buffer (held ++ text) false) name declared) ∧
    (∀ (s : TextStream) (own : Encoder) held name declared fs ownBytes, s.Holds own held →
      own.encoding.encode text = .ok ownBytes →
      (deliver o t (.text (.stream s) name declared) fs).outcome.result = .ok () ∧
      ∃ (last : TextStream) (after : Encoder),
        (deliver o t (.text (.stream s) name declared) fs).destination = .text (.stream last) name declared ∧
        last.Holds after (held ++ text) ∧ after.encoding = own.encoding) ∧
    (renderBytes o t).result = .ok added ∧
    (∀ s name fs, s.refusal? = none →
      (deliver o t (.bytes s name) fs).outcome.result = .ok () ∧
      (deliver o t (.bytes s name) fs).destination =
        .bytes { s with content := s.content ++ added } name) ∧
    (∀ path name place fs, fs.locate path = .ok place →
      (deliver o t (.path path name) fs).outcome.result = .ok () ∧
      (deliver o t (.path path name) fs).files.read? path = some added ∧
      (deliver o t (.path path name) fs).files.directories = fs.directories ∧
      ∀ other, other ≠ place →
        (deliver o t (.path path name) fs).files.content? other = fs.content? other) ∧
    ∀ g overrides d fs, Given.resolved g overrides = .ok o → publish g overrides t (some d) fs =
      ⟨some (deliver o t d fs).destination, (deliver o t d fs).files,
        (deliver o t d fs).outcome.map fun _ => none⟩ := by
  intro added
  have hdirect := (t.emit_follows o h).direct
  obtain ⟨hend, hjoin⟩ := Tree.eq_join_of_render hdirect htext
  obtain ⟨body, hbody, hwhole⟩ := Encoding.encode_eq_ok hbytes
  have hadded : Encoder.added ⟨e, .strict, false⟩ (t.emit o).pieces body = added := by
    have hwritten : t.written o = (t.emit o).pieces :=
      (Renderer.attempted_of_accepting hdirect (Sink.accepting_buffer "") []).2
    simp only [added, hwritten, Encoder.added, hwhole]
    rfl
  rw [hjoin] at hbody
  refine ⟨?_, ?_, ?_, ?_, ?_, ?_, ?_⟩
  · intro g overrides fs hg
    rw [publish_none hg, htext]
    rfl
  · intro held name declared fs
    rw [hjoin]
    exact deliver_buffer hdirect hend held name declared fs
  · intro s own held name declared fs ownBytes hs hown
    obtain ⟨body, hown, -⟩ := Encoding.encode_eq_ok hown
    rw [hjoin] at hown ⊢
    exact deliver_stream hdirect hend hs hown name declared fs
  · obtain ⟨hresult, hleft⟩ := deliver_bytes hdirect hend he hbody (s := ⟨.byteBuffer, [], false, true⟩)
      rfl (.text "<BytesIO>") .empty
    rw [renderBytes_of_deliver hresult hleft, hadded]
    rfl
  · intro s name fs hopen
    rw [← hadded]
    exact deliver_bytes hdirect hend he hbody hopen name fs
  · intro path name place fs hplace
    obtain ⟨hresult, hfiles⟩ := deliver_path hdirect hend he hbody hplace name
    have hfound := Files.locate_put (Files.locate_put hplace place []) place added
    rw [hadded] at hfiles
    simp only [hfiles]
    refine ⟨hresult, ?_, rfl, fun other hother => ?_⟩
    · rw [Files.read?, hfound]
      exact Files.content?_put _ _ _
    · rw [Files.content?_put_of_ne hother, Files.content?_put_of_ne hother]
  · intro g overrides d fs hg
    exact publish_some hg t d fs

end

theorem destinations_agree_marked :
    let o : Options := ⟨"utf-16", false, .text "section"⟩
    let t := Tree.paragraph .listed [.plain "é", .plain "b"]
    let bytes : List UInt8 := [0xff, 0xfe, 0xe9, 0, 0x62, 0, 0x0a, 0]
    t.OfNodes ∧ Codec.ofName? o.encodingName = some (.supported .utf16Marked) ∧ t.render o = .ok "éb\n" ∧
      Encoding.utf16Marked.encode "éb\n" = .ok bytes ∧ (renderBytes o t).result = .ok bytes ∧
      (deliver o t (.path "a.tex" (.text "a.tex")) ⟨[], [(["a.tex"], [1, 2])]⟩).files.read? "a.tex" =
        some bytes := by
  intro o t bytes
  have hnodes : t.OfNodes := .paragraph (by simpa using ⟨.plain "é", .plain "b"⟩)
  have he : Codec.ofName? "utf-16" = some (.supported .utf16Marked) := by decide +kernel
  have hrender : t.render o = .ok "éb\n" := by rfl
  have hbytes : Encoding.utf16Marked.encode "éb\n" = .ok bytes := by rfl
  obtain ⟨-, -, -, hall, -, hpath, -⟩ := destinations_agree hnodes (o := o) he hrender hbytes
  exact ⟨hnodes, he, hrender, hbytes, hall, (hpath "a.tex" _ _ _ rfl).2.1⟩

/-- A part without elements writes nothing, not even a mark. -/
example : (renderBytes ⟨"utf-16", false, .text "section"⟩
    (.document (.standard .part) (.preamble none none .listed []) .listed [])).result = .ok [] := rfl

end Manuscript
