import Chhttp.WebSocket.Receive

/-!
# Lossless transfer of messages

What a peer transfers is a list of `Item`s: control frames, and messages that are cut into
fragments with control frames between them.  `Yields ch messages ch'` says that the loop of `read`,
entered again after each message, gets from `ch` to `ch'` and returns the messages on the way.
`Waiting` describes the channel between two frames, and every frame of an item takes one such state
to the next.

The sender's side is `submit`: each call of `send` or `ping` writes the bytes of one frame.
-/

namespace Chhttp.WebSocket

open Fragment

/-! ### What is transferred -/

/-- A ping or a pong.  They are answered or returned on their own, and may stand between the
fragments of a message. -/
structure Control where
  pong : Bool
  data : Bytes

namespace Control

/-- The frame of a ping or a pong. -/
def frame (c : Control) : Frame :=
  { final := true, opcode := if c.pong then 10 else 9, payload := c.data }

/-- What `read` returns for it. -/
def message (c : Control) : Message :=
  { type := if c.pong then .pong else .ping, data := c.data }

end Control

/-- A message in fragments: the first one, and for each later one the control frames before it.
Where a message is cut is up to the sender, and not even characters need to stay whole. -/
structure Fragmented where
  binary : Bool
  first : Bytes
  later : List (List Control × Bytes)

namespace Fragmented

/-- The type of a message. -/
def type (m : Fragmented) : MessageType := if m.binary then .binary else .text

/-- The frames after the first one; the last of them is final. -/
def laterFrames : List (List Control × Bytes) → List Frame
  | [] => []
  | (controls, piece) :: later =>
    controls.map Control.frame ++
      { final := later.isEmpty, opcode := 0, payload := piece } :: laterFrames later

/-- The frames of a message. -/
def frames (m : Fragmented) : List Frame :=
  { final := m.later.isEmpty, opcode := if m.binary then 2 else 1, payload := m.first } ::
    laterFrames m.later

/-- The fragments put together. -/
def data (m : Fragmented) : Bytes := m.first ++ (m.later.map Prod.snd).flatten

/-- The control frames between the fragments. -/
def controls (m : Fragmented) : List Control := (m.later.map Prod.fst).flatten

end Fragmented

/-- What a peer transfers.  A stream of items is everything a peer may send before it closes. -/
inductive Item where
  | control (c : Control)
  | message (m : Fragmented)

namespace Item

/-- The frames of an item. -/
def frames : Item → List Frame
  | .control c => [c.frame]
  | .message m => m.frames

/-- What the peer's `read` returns for an item.  Control frames between the fragments are returned
before the message, since they arrive whole before it. -/
def messages : Item → List Message
  | .control c => [c.message]
  | .message m => m.controls.map Control.message ++ [{ type := m.type, data := m.data }]

/-- Control frames are short; messages are at most 64 MiB long, and texts are UTF-8 as a whole. -/
def Valid : Item → Prop
  | .control c => c.data.length ≤ 125
  | .message m =>
    m.data.length ≤ maxMessage ∧ (m.binary = false → validUtf8 m.data = true) ∧
      ∀ c ∈ m.controls, c.data.length ≤ 125

end Item

/-- The bytes of frames, each with its mask key. -/
def streamBytes (masked : Bool) (frames : List (Mask × Frame)) : Bytes :=
  frames.flatMap fun f => frameBytes masked f.1 f.2

/-- A message that `send` or `ping` takes.  These are the checks that the calls make; other messages
are refused before a byte is written. -/
def Sendable (m : Message) : Prop :=
  (m.type = .binary ∧ m.data.length ≤ maxMessage) ∨
    (m.type = .text ∧ m.data.length ≤ maxMessage ∧ validUtf8 m.data = true) ∨
    (m.type = .ping ∧ m.data.length ≤ 125)

namespace Channel

/-- The call that transfers a message, and whether `send` reports success. -/
def submit (ch : Channel) (m : Message) : Bool × Channel :=
  if m.type = .ping then (true, ch.ping m.data) else ch.send m.data (decide (m.type = .binary))

/-- One call after another. -/
def submitAll (ch : Channel) : List Message → List Bool × Channel
  | [] => ([], ch)
  | m :: ms =>
    let (ok, ch) := ch.submit m
    let (oks, ch) := ch.submitAll ms
    (ok :: oks, ch)

/-- One `read` after another. -/
def readAll : ℕ → Channel → List (Result Message) × Channel
  | 0, ch => ([], ch)
  | count + 1, ch =>
    let (m, ch) := ch.read
    let (ms, ch) := readAll count ch
    (m :: ms, ch)

/-! ### Runs of the loop of `read` -/

/-- The loop of `read`, entered again after every message.  Frames that return nothing, like a first
fragment, are steps in between. -/
inductive Yields : Channel → List Message → Channel → Prop where
  | refl (ch : Channel) : Yields ch [] ch
  | quiet {ch ch1 ch2 : Channel} {ms : List Message} (h : ch.readStep = .again ch1)
      (rest : Yields ch1 ms ch2) : Yields ch ms ch2
  | message {ch ch1 ch2 : Channel} {m : Message} {ms : List Message}
      (h : ch.readStep = .leave (.ok m, ch1)) (rest : Yields ch1 ms ch2) : Yields ch (m :: ms) ch2

/-- One run after another. -/
lemma Yields.trans {ch ch1 ch2 : Channel} {ms ms' : List Message} (h : Yields ch ms ch1)
    (h' : Yields ch1 ms' ch2) : Yields ch (ms ++ ms') ch2 := by
  induction h with
  | refl => exact h'
  | quiet hstep rest ih => exact Yields.quiet hstep (ih h')
  | message hstep rest ih => exact Yields.message hstep (ih h')

/-- The calls of `read` return what the loop yields.  This takes the result from the loop to the
calls that a program makes. -/
theorem Yields.readAll {ch ch' : Channel} {ms : List Message} (h : Yields ch ms ch') :
    (Channel.readAll ms.length ch).1 = ms.map .ok := by
  induction h with
  | refl => rfl
  | @quiet ch ch1 ch2 ms hstep rest ih =>
    rw [← ih]
    cases ms with
    | nil => rfl
    | cons m ms =>
      have hread : ch.read = ch1.read := Loop.run_of_again readStep_decreases hstep
      simp only [List.length_cons, Channel.readAll, hread]
  | @message ch ch1 ch2 m ms hstep rest ih =>
    have hread : ch.read = (.ok m, ch1) := Loop.run_of_leave readStep_decreases hstep
    simp only [List.length_cons, Channel.readAll, hread, List.map_cons, ih]

/-! ### Between two frames -/

/-- A channel between two frames: the side it is on, the open message, and what there is to read.
This is the invariant between frames: how far the message is, and what is still to come. -/
structure Waiting (side : Bool) (message : Option (MessageType × Bytes)) (bytes : Bytes)
    (ch : Channel) : Prop where
  clientSide : ch.clientSide = side
  available : ch.input.available = bytes
  idle : message = none → ch.fragmentedActive = false
  active : ∀ type data, message = some (type, data) →
    ch.fragmentedActive = true ∧ ch.fragmentedType = type ∧ ch.fragmented = data

variable {side : Bool} {message : Option (MessageType × Bytes)} {mask : Mask} {rest : Bytes}

/-- The next frame is taken, and then acted on. -/
lemma readStep_frame {ch : Channel} {f : Frame} (hf : f.Acceptable)
    (h : Waiting side message (frameBytes (!side) mask f ++ rest) ch) :
    ∃ ch1, ch.readStep = ch1.processFrame f ∧ Waiting side message rest ch1 := by
  obtain ⟨hside, havailable, hidle, hactive⟩ := h
  subst hside
  obtain ⟨input, hstep, hrest⟩ := readStep_frameBytes hf havailable
  exact ⟨_, hstep, ⟨rfl, hrest, hidle, hactive⟩⟩

/-- Sending a frame leaves the reader where it is. -/
lemma Waiting.sendFrame {bytes : Bytes} {ch : Channel} (h : Waiting side message bytes ch)
    (opcode : ℕ) (payload : Bytes) : Waiting side message bytes (ch.sendFrame opcode payload).2 := by
  obtain ⟨output, masks, hsend⟩ := sendFrame_snd ch opcode payload
  rw [hsend]
  exact ⟨h.clientSide, h.available, h.idle, h.active⟩

/-- A ping or a pong is returned, and the open message stays. -/
lemma yields_control {ch : Channel} {c : Control} (hc : c.data.length ≤ 125)
    (h : Waiting side message (frameBytes (!side) mask c.frame ++ rest) ch) :
    ∃ ch', Yields ch [c.message] ch' ∧ Waiting side message rest ch' := by
  have hf : c.frame.Acceptable := by
    refine ⟨?_, fun _ => ⟨rfl, hc⟩, hc.trans (by decide)⟩
    unfold Control.frame
    dsimp only
    split_ifs <;> omega
  obtain ⟨ch1, hstep, hwaiting⟩ := readStep_frame hf h
  obtain ⟨pong, data⟩ := c
  cases pong with
  | false => exact ⟨_, Yields.message hstep (Yields.refl _), hwaiting.sendFrame 10 data⟩
  | true => exact ⟨_, Yields.message hstep (Yields.refl _), hwaiting⟩

/-- Control frames are returned in order. -/
lemma yields_controls {controls : List Control} (hcontrols : ∀ c ∈ controls, c.data.length ≤ 125)
    {frames : List (Mask × Frame)} (hframes : frames.map Prod.snd = controls.map Control.frame)
    {ch : Channel} (h : Waiting side message (streamBytes (!side) frames ++ rest) ch) :
    ∃ ch', Yields ch (controls.map Control.message) ch' ∧ Waiting side message rest ch' := by
  induction controls generalizing frames ch with
  | nil =>
    rw [List.map_nil, List.map_eq_nil_iff] at hframes
    subst hframes
    exact ⟨ch, Yields.refl ch, h⟩
  | cons c controls ih =>
    rw [List.map_cons, List.map_eq_cons_iff] at hframes
    obtain ⟨⟨mask, f⟩, frames, rfl, rfl, hrest⟩ := hframes
    rw [List.forall_mem_cons] at hcontrols
    rw [streamBytes, List.flatMap_cons, List.append_assoc] at h
    obtain ⟨ch1, hyields, hwaiting⟩ := yields_control hcontrols.1 h
    obtain ⟨ch2, hyields', hwaiting'⟩ := ih hcontrols.2 hrest hwaiting
    exact ⟨ch2, hyields.trans hyields', hwaiting'⟩

/-- A message is open. -/
lemma Waiting.opened {ch : Channel} (h : Waiting side message rest ch) (type : MessageType)
    (data : Bytes) : Waiting side (some (type, data)) rest
      { ch with fragmentedActive := true, fragmentedType := type, fragmented := data } := by
  refine ⟨h.clientSide, h.available, ?_, ?_⟩
  · intro hnone
    cases hnone
  · intro type' data' hsome
    cases hsome
    exact ⟨rfl, rfl, rfl⟩

/-- A fragment that is not the last one is put into the open message. -/
lemma continuation_again {ch : Channel} {type : MessageType} {data : Bytes} (piece : Bytes)
    (hlen : data.length + piece.length ≤ maxMessage)
    (h : Waiting side (some (type, data)) rest ch) :
    ∃ ch', ch.processFrame { final := false, opcode := 0, payload := piece } = .again ch' ∧
      Waiting side (some (type, data ++ piece)) rest ch' := by
  obtain ⟨hactive, htype, hdata⟩ := h.active type data rfl
  have hopened : ({ ch with fragmented := ch.fragmented ++ piece } : Channel) =
      { ch with fragmentedActive := true, fragmentedType := type, fragmented := data ++ piece } := by
    rw [← hactive, ← htype, ← hdata]
  refine ⟨{ ch with fragmented := ch.fragmented ++ piece }, ?_, ?_⟩
  · rw [processFrame_continuation rfl, continuationFrame, hactive, if_neg (by decide),
      if_neg (by rw [hdata]; dsimp only; omega)]
    rfl
  · rw [hopened]
    exact h.opened type (data ++ piece)

/-- The last fragment completes the message. -/
lemma continuation_final {ch : Channel} {type : MessageType} {data piece : Bytes}
    (hlen : data.length + piece.length ≤ maxMessage)
    (htext : type = .text → validUtf8 (data ++ piece) = true)
    (h : Waiting side (some (type, data)) rest ch) :
    ∃ ch', ch.processFrame { final := true, opcode := 0, payload := piece } =
        .leave (.ok { type, data := data ++ piece }, ch') ∧
      Waiting side none rest ch' := by
  obtain ⟨hactive, htype, hdata⟩ := h.active type data rfl
  have hdeliver : deliver ch.fragmentedType (ch.fragmented ++ piece) =
      .ok { type, data := data ++ piece } := by
    rw [htype, hdata, deliver, if_neg]
    rintro ⟨htype', hbad⟩
    rw [htext htype'] at hbad
    cases hbad
  refine ⟨{ ch with fragmentedActive := false, fragmented := [] }, ?_,
    ⟨h.clientSide, h.available, fun _ => rfl, fun _ _ hsome => nomatch hsome⟩⟩
  rw [processFrame_continuation rfl, continuationFrame, hactive, if_neg (by decide),
    if_neg (by rw [hdata]; dsimp only; omega)]
  dsimp only
  rw [if_pos rfl, hdeliver]

/-- What is done with the first frame of a message. -/
lemma processFrame_first {ch : Channel} {m : Fragmented} {final : Bool}
    (hidle : ch.fragmentedActive = false) :
    ch.processFrame { final, opcode := if m.binary then 2 else 1, payload := m.first } =
      if final then .leave (deliver m.type m.first, ch)
      else .again
        { ch with fragmentedActive := true, fragmentedType := m.type, fragmented := m.first } := by
  have hopcode : (if m.binary then 2 else 1) = 1 ∨ (if m.binary then 2 else 1) = 2 := by
    cases m.binary <;> simp
  have htype : (if (if m.binary then 2 else 1) = 1 then MessageType.text else .binary) = m.type := by
    unfold Fragmented.type
    cases m.binary <;> rfl
  rw [processFrame_data hopcode, dataFrame, hidle, if_neg (by decide)]
  dsimp only
  rw [htype]

/-- The frames after the first one complete the open message. -/
lemma yields_later {later : List (List Control × Bytes)} (hne : later ≠ []) {type : MessageType}
    {data : Bytes} (hlen : data.length + (later.map Prod.snd).flatten.length ≤ maxMessage)
    (htext : type = .text → validUtf8 (data ++ (later.map Prod.snd).flatten) = true)
    (hcontrols : ∀ c ∈ (later.map Prod.fst).flatten, c.data.length ≤ 125)
    {frames : List (Mask × Frame)} (hframes : frames.map Prod.snd = Fragmented.laterFrames later)
    {ch : Channel} (h : Waiting side (some (type, data)) (streamBytes (!side) frames ++ rest) ch) :
    ∃ ch', Yields ch ((later.map Prod.fst).flatten.map Control.message ++
        [{ type, data := data ++ (later.map Prod.snd).flatten }]) ch' ∧
      Waiting side none rest ch' := by
  induction later generalizing data frames ch with
  | nil => exact absurd rfl hne
  | cons entry later ih =>
    obtain ⟨controls, piece⟩ := entry
    rw [Fragmented.laterFrames, List.map_eq_append_iff] at hframes
    obtain ⟨controlFrames, frames, rfl, hcontrolFrames, hframes⟩ := hframes
    rw [List.map_eq_cons_iff] at hframes
    obtain ⟨⟨mask, f⟩, frames, rfl, hf, hframes⟩ := hframes
    dsimp only at hf
    rw [streamBytes, List.flatMap_append, List.append_assoc, List.flatMap_cons,
      List.append_assoc] at h
    simp only [List.map_cons, List.flatten_cons, List.length_append] at hlen htext hcontrols ⊢
    obtain ⟨ch1, hyields1, hwaiting1⟩ :=
      yields_controls (fun c hc => hcontrols c (List.mem_append_left _ hc)) hcontrolFrames h
    have hacceptable : f.Acceptable := by
      subst hf
      exact acceptable_of_lt (Nat.zero_lt_succ 7) (by dsimp only; omega)
    obtain ⟨ch2, hstep2, hwaiting2⟩ := readStep_frame hacceptable hwaiting1
    subst hf
    by_cases hlast : later = []
    · subst hlast
      cases List.map_eq_nil_iff.mp hframes
      simp only [List.map_nil, List.flatten_nil, List.append_nil] at htext ⊢
      obtain ⟨ch3, hstep3, hwaiting3⟩ := continuation_final (by omega) htext hwaiting2
      exact ⟨ch3, hyields1.trans (Yields.message (hstep2.trans hstep3) (Yields.refl ch3)), hwaiting3⟩
    · have hmore : later.isEmpty = false := by simpa using hlast
      rw [hmore] at hstep2
      obtain ⟨ch3, hstep3, hwaiting3⟩ :=
        continuation_again piece (by omega) hwaiting2
      rw [← List.append_assoc] at htext
      rw [List.map_append, List.append_assoc, ← List.append_assoc data]
      obtain ⟨ch4, hyields4, hwaiting4⟩ :=
        ih hlast (by rw [List.length_append]; omega) htext
          (fun c hc => hcontrols c (List.mem_append_right _ hc)) hframes hwaiting3
      exact ⟨ch4, hyields1.trans (Yields.quiet (hstep2.trans hstep3) hyields4), hwaiting4⟩

/-- A whole item is returned as it was transferred. -/
lemma yields_item {item : Item} (hitem : item.Valid) {frames : List (Mask × Frame)}
    (hframes : frames.map Prod.snd = item.frames) {ch : Channel}
    (h : Waiting side none (streamBytes (!side) frames ++ rest) ch) :
    ∃ ch', Yields ch item.messages ch' ∧ Waiting side none rest ch' := by
  cases item with
  | control c =>
    have hsingle : frames.map Prod.snd = [c].map Control.frame := hframes
    have hshort : ∀ c' ∈ [c], c'.data.length ≤ 125 := List.forall_mem_singleton.mpr hitem
    exact yields_controls hshort hsingle h
  | message m =>
    obtain ⟨hlen, htext, hcontrols⟩ := hitem
    have hmap : frames.map Prod.snd = m.frames := hframes
    rw [Fragmented.frames, List.map_eq_cons_iff] at hmap
    obtain ⟨⟨mask, f⟩, frames, rfl, hf, hmap⟩ := hmap
    dsimp only at hf
    rw [streamBytes, List.flatMap_cons, List.append_assoc] at h
    have hacceptable : f.Acceptable := by
      subst hf
      apply acceptable_of_lt
      · dsimp only
        split_ifs <;> omega
      · rw [Fragmented.data, List.length_append] at hlen
        dsimp only
        omega
    obtain ⟨ch1, hstep1, hwaiting1⟩ := readStep_frame hacceptable h
    subst hf
    rw [processFrame_first (hwaiting1.idle rfl)] at hstep1
    have htext' : m.type = .text → validUtf8 m.data = true := by
      intro htype
      apply htext
      unfold Fragmented.type at htype
      split_ifs at htype with hbinary
      exact Bool.eq_false_iff.mpr hbinary
    -- a message of one frame is delivered at once, others after their last frame
    by_cases hsingle : m.later = []
    · have hdata : m.data = m.first := by simp [Fragmented.data, hsingle]
      have hmessages : (Item.message m).messages = [{ type := m.type, data := m.first }] := by
        simp [Item.messages, Fragmented.controls, hsingle, hdata]
      rw [hsingle] at hmap
      cases List.map_eq_nil_iff.mp hmap
      rw [hdata] at htext'
      have hdeliver : deliver m.type m.first = .ok { type := m.type, data := m.first } := by
        rw [deliver, if_neg]
        rintro ⟨htype, hbad⟩
        rw [htext' htype] at hbad
        cases hbad
      rw [hsingle, List.isEmpty_nil, if_pos rfl, hdeliver] at hstep1
      rw [hmessages]
      exact ⟨ch1, Yields.message hstep1 (Yields.refl ch1), hwaiting1⟩
    · have hmore : m.later.isEmpty = false := by simpa using hsingle
      rw [hmore, if_neg (by decide)] at hstep1
      rw [Fragmented.data, List.length_append] at hlen
      obtain ⟨ch2, hyields, hwaiting2⟩ :=
        yields_later hsingle hlen htext' hcontrols hmap (hwaiting1.opened m.type m.first)
      exact ⟨ch2, Yields.quiet hstep1 hyields, hwaiting2⟩

/-- All items are returned as they were transferred. -/
lemma yields_items {items : List Item} (hitems : ∀ item ∈ items, item.Valid)
    {frames : List (Mask × Frame)} (hframes : frames.map Prod.snd = items.flatMap Item.frames)
    {ch : Channel} (h : Waiting side none (streamBytes (!side) frames ++ rest) ch) :
    ∃ ch', Yields ch (items.flatMap Item.messages) ch' ∧ Waiting side none rest ch' := by
  induction items generalizing frames ch with
  | nil =>
    cases List.map_eq_nil_iff.mp hframes
    exact ⟨ch, Yields.refl ch, h⟩
  | cons item items ih =>
    rw [List.flatMap_cons, List.map_eq_append_iff] at hframes
    obtain ⟨first, frames, rfl, hfirst, hframes⟩ := hframes
    rw [List.forall_mem_cons] at hitems
    rw [streamBytes, List.flatMap_append, List.append_assoc] at h
    obtain ⟨ch1, hyields, hwaiting⟩ := yields_item hitems.1 hfirst h
    obtain ⟨ch2, hyields', hwaiting'⟩ := ih hitems.2 hframes hwaiting
    exact ⟨ch2, hyields.trans hyields', hwaiting'⟩

/-! ### The sender -/

/-- A reliable transport takes a frame, in one write or in several. -/
lemma sendBytes_reliable {output : Output} (h : output.Reliable) (header body : Bytes) :
    ∃ output', sendBytes header body output = (none, output') ∧ output'.Reliable ∧
      output'.bytes = output.bytes ++ (header ++ body) := by
  unfold sendBytes
  split_ifs
  · obtain ⟨hnone, hreliable, hbytes⟩ := h.write (header ++ body)
    exact ⟨_, Prod.ext hnone rfl, hreliable, hbytes⟩
  · obtain ⟨hnone, hreliable, hbytes⟩ := h.write header
    rw [show output.write header = (none, (output.write header).2) from Prod.ext hnone rfl]
    dsimp only
    obtain ⟨hnone', hreliable'⟩ := writeBlocks_reliable id "Body write timed out" body hreliable
    obtain ⟨pieces, hpieces, hblocks⟩ :=
      blocks_of_writeBlocks (Prod.ext hnone' rfl : writeBodyBytes body _ = (none, _))
    refine ⟨_, Prod.ext hnone' rfl, hreliable', ?_⟩
    rw [Output.bytes, hblocks, List.map_id, List.flatten_append, hpieces.flatten,
      ← List.append_assoc, ← hbytes, Output.bytes]

/-- A frame is written as a whole. -/
lemma sendFrame_reliable {ch : Channel} (h : ch.output.Reliable) (opcode : ℕ) (payload : Bytes) :
    ∃ output masks, ch.sendFrame opcode payload = (none, { ch with output, masks }) ∧
      output.Reliable ∧ output.bytes =
        ch.output.bytes ++ frameBytes ch.clientSide (ch.masks 0) { final := true, opcode, payload } := by
  obtain ⟨output, hsend, hreliable, hbytes⟩ :=
    sendBytes_reliable h (headerBytes ch.clientSide (ch.masks 0) true opcode payload.length)
      (wirePayload ch.clientSide (ch.masks 0) payload)
  refine ⟨output, fun n => ch.masks (n + 1), ?_, hreliable, hbytes⟩
  rw [sendFrame, h.isOpen, hsend]
  rfl

/-- The item that a message is transferred as.  The writer of the source sends a message in one
frame. -/
def item (m : Message) : Item :=
  if m.type = .ping then .control { pong := false, data := m.data }
  else .message { binary := decide (m.type = .binary), first := m.data, later := [] }

/-- What arrives is the message. -/
lemma messages_item {m : Message} (hm : Sendable m) :
    (item m).messages = [m] ∧ (item m).Valid := by
  obtain ⟨type, data⟩ := m
  rcases hm with ⟨rfl, hlen⟩ | ⟨rfl, hlen, hvalid⟩ | ⟨rfl, hlen⟩
  · simpa [item, Item.messages, Item.Valid, Fragmented.data, Fragmented.controls, Fragmented.type]
      using hlen
  · simpa [item, Item.messages, Item.Valid, Fragmented.data, Fragmented.controls, Fragmented.type]
      using And.intro hlen hvalid
  · simpa [item, Item.messages, Item.Valid, Control.message] using hlen

/-- A call of `send` or `ping` writes the frame of its message and reports success. -/
lemma submit_reliable {ch : Channel} {m : Message} (hm : Sendable m) (hopen : ch.isOpen = true)
    (h : ch.output.Reliable) :
    ∃ output masks frames, ch.submit m = (true, { ch with output, masks }) ∧ output.Reliable ∧
      frames.map Prod.snd = (item m).frames ∧
      output.bytes = ch.output.bytes ++ streamBytes ch.clientSide frames := by
  obtain ⟨type, data⟩ := m
  rcases hm with ⟨rfl, hlen⟩ | ⟨rfl, hlen, hvalid⟩ | ⟨rfl, hlen⟩
  · obtain ⟨output, masks, hsend, hreliable, hbytes⟩ := sendFrame_reliable h 2 data
    refine ⟨output, masks, [(ch.masks 0, { final := true, opcode := 2, payload := data })], ?_,
      hreliable, rfl, ?_⟩
    · simp [submit, send, hopen, Nat.not_lt.mpr hlen, hsend]
    · simpa [streamBytes] using hbytes
  · obtain ⟨output, masks, hsend, hreliable, hbytes⟩ := sendFrame_reliable h 1 data
    refine ⟨output, masks, [(ch.masks 0, { final := true, opcode := 1, payload := data })], ?_,
      hreliable, rfl, ?_⟩
    · simp [submit, send, hopen, Nat.not_lt.mpr hlen, hvalid, hsend]
    · simpa [streamBytes] using hbytes
  · obtain ⟨output, masks, hsend, hreliable, hbytes⟩ := sendFrame_reliable h 9 data
    refine ⟨output, masks, [(ch.masks 0, { final := true, opcode := 9, payload := data })], ?_,
      hreliable, rfl, ?_⟩
    · simp [submit, ping, if_pos hlen, hsend]
    · simpa [streamBytes] using hbytes

/-- The calls write the frames of their messages, in order. -/
lemma submitAll_reliable {ms : List Message} (hms : ∀ m ∈ ms, Sendable m) {ch : Channel}
    (hopen : ch.isOpen = true) (h : ch.output.Reliable) :
    (ch.submitAll ms).1 = ms.map (fun _ => true) ∧
      ∃ frames : List (Mask × Frame), frames.map Prod.snd = ms.flatMap (fun m => (item m).frames) ∧
        (ch.submitAll ms).2.output.bytes = ch.output.bytes ++ streamBytes ch.clientSide frames := by
  induction ms generalizing ch with
  | nil => exact ⟨rfl, [], rfl, by simp [submitAll, streamBytes]⟩
  | cons m ms ih =>
    rw [List.forall_mem_cons] at hms
    obtain ⟨output, masks, first, hsubmit, hreliable, hfirst, hbytes⟩ :=
      submit_reliable hms.1 hopen h
    obtain ⟨hoks, frames, hframes, hbytes'⟩ := @ih hms.2 { ch with output, masks } hopen hreliable
    rw [submitAll, hsubmit]
    dsimp only
    refine ⟨by rw [hoks, List.map_cons], first ++ frames, ?_, ?_⟩
    · rw [List.map_append, hfirst, hframes, List.flatMap_cons]
    · rw [hbytes', hbytes, streamBytes, streamBytes, streamBytes, List.flatMap_append,
        List.append_assoc]

/-! ### Transfer -/

/-- The peer reads what was sent, whether the messages come from `send` and `ping` or are cut into
fragments with control frames between them. -/
theorem transfer_lossless :
    (∀ (sender receiver : Channel) (ms : List Message) (rest : Bytes),
      (∀ m ∈ ms, Sendable m) → sender.isOpen = true → sender.output.Reliable →
      receiver.clientSide = !sender.clientSide → receiver.fragmentedActive = false →
      sender.output.bytes ++ receiver.input.available =
        (sender.submitAll ms).2.output.bytes ++ rest →
      (sender.submitAll ms).1 = ms.map (fun _ => true) ∧
        (readAll ms.length receiver).1 = ms.map .ok) ∧
    (∀ (receiver : Channel) (items : List Item) (frames : List (Mask × Frame)) (rest : Bytes),
      (∀ item ∈ items, item.Valid) → frames.map Prod.snd = items.flatMap Item.frames →
      receiver.fragmentedActive = false →
      receiver.input.available = streamBytes (!receiver.clientSide) frames ++ rest →
      (readAll (items.flatMap Item.messages).length receiver).1 =
        (items.flatMap Item.messages).map .ok) := by
  have hitems : ∀ (receiver : Channel) (items : List Item) (frames : List (Mask × Frame))
      (rest : Bytes), (∀ item ∈ items, item.Valid) →
      frames.map Prod.snd = items.flatMap Item.frames → receiver.fragmentedActive = false →
      receiver.input.available = streamBytes (!receiver.clientSide) frames ++ rest →
      (readAll (items.flatMap Item.messages).length receiver).1 =
        (items.flatMap Item.messages).map .ok := by
    intro receiver items frames rest hvalid hframes hidle havailable
    obtain ⟨ch', hyields, -⟩ := yields_items hvalid hframes
      ⟨rfl, havailable, fun _ => hidle, fun _ _ hsome => nomatch hsome⟩
    exact hyields.readAll
  refine ⟨?_, hitems⟩
  intro sender receiver ms rest hms hopen hreliable hside hidle havailable
  obtain ⟨hoks, frames, hframes, hbytes⟩ := submitAll_reliable hms hopen hreliable
  rw [hbytes, List.append_assoc] at havailable
  have hsender : sender.clientSide = !receiver.clientSide := by rw [hside, Bool.not_not]
  have hvalid : ∀ i ∈ ms.map item, i.Valid := by
    intro i hi
    obtain ⟨m, hm, rfl⟩ := List.mem_map.mp hi
    exact (messages_item (hms m hm)).2
  have hmessages : (ms.map item).flatMap Item.messages = ms := by
    rw [List.flatMap_map]
    calc ms.flatMap (fun m => (item m).messages) = ms.flatMap (fun m => [m]) :=
          List.flatMap_congr fun m hm => (messages_item (hms m hm)).1
      _ = ms := List.flatMap_singleton' ms
  have hread := hitems receiver (ms.map item) frames rest hvalid
    (by rw [hframes, List.flatMap_map]) hidle
    (by rw [← hsender]; exact List.append_cancel_left havailable)
  rw [hmessages] at hread
  exact ⟨hoks, hread⟩

/-- A client that sends. -/
def client : Channel :=
  { input := { buffer := [], reads := [] }, clientSide := true, masks := fun _ i => UInt8.ofNat i }

/-- A server that receives some bytes, each in a read of its own. -/
def server (received : Bytes) : Channel :=
  { input := { buffer := [], reads := received.map fun b => .data [b] }, clientSide := false }

/-- A ping and a text. -/
def greeting : List Message :=
  [{ type := .ping, data := [0x21] }, { type := .text, data := [0x68, 0x69] }]

/-- The text in two fragments, with the ping between them. -/
def cutGreeting : Fragmented :=
  { binary := false, first := [0x68], later := [([{ pong := false, data := [0x21] }], [0x69])] }

/-- Both ways of sending the greeting. -/
theorem transfer_lossless_of_greeting :
    (readAll 2 (server (client.submitAll greeting).2.output.bytes)).1 = greeting.map .ok ∧
      (readAll 2 (server (streamBytes true (cutGreeting.frames.map fun f => (client.masks 0, f))))).1 =
        greeting.map .ok := by
  refine ⟨(transfer_lossless.1 client (server (client.submitAll greeting).2.output.bytes) greeting
    [] ?_ rfl ⟨rfl, rfl, fun _ => rfl⟩ rfl rfl rfl).2, ?_⟩
  · intro m hm
    rw [greeting, List.mem_cons, List.mem_singleton] at hm
    rcases hm with rfl | rfl
    · exact Or.inr (Or.inr ⟨rfl, by decide⟩)
    · exact Or.inr (Or.inl ⟨rfl, by decide, by decide⟩)
  · refine transfer_lossless.2 _ [.message cutGreeting]
      (cutGreeting.frames.map fun f => (client.masks 0, f)) [] ?_ rfl rfl rfl
    intro i hi
    rw [List.mem_singleton] at hi
    subst hi
    exact ⟨by decide, fun _ => by decide, by decide⟩

end Channel

end Chhttp.WebSocket
