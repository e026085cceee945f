import Chhttp.Protocol.Input
import Chhttp.Protocol.Output
import Chhttp.WebSocket.Frame
import Chhttp.WebSocket.Utf8

/-!
# WebSocket channels

`Channel` is `UvWebSocketChannel`: the input and the output of its connection, the side it is on,
and the message that it reassembles.  `Channel.read` is a loop that takes one frame after another
from the input (`readFrame`) and acts on it (`processFrame`).  The mask keys come from a supply, and
`consumed` records the frames that were taken from the input.
-/

namespace Chhttp.WebSocket

open Fragment

/-- `UvWebSocketChannel`.  `masks` are the keys that the random generator will give, and `consumed`
are the frames taken so far. -/
structure Channel where
  input : Input
  output : Output := {}
  clientSide : Bool
  isOpen : Bool := true
  masks : ℕ → Mask := fun _ _ => 0
  fragmented : Bytes := []
  fragmentedType : MessageType := .text
  fragmentedActive : Bool := false
  consumed : List Frame := []

/-- The largest frame and the largest message. -/
def maxMessage : ℕ := 64 * 1024 * 1024

namespace Channel

/-! ### Writing -/

/-- The two ways `send_frame` writes: small frames in one block, larger ones in several. -/
def sendBytes (header body : Bytes) (output : Output) : Option ErrorInfo × Output :=
  if body.length ≤ blockSize then output.write (header ++ body)
  else
    match output.write header with
    | (some e, output) => (some e, output)
    | (none, output) => writeBodyBytes body output

/-- `send_frame`. -/
def sendFrame (ch : Channel) (opcode : ℕ) (payload : Bytes) : Option ErrorInfo × Channel :=
  if !ch.output.isOpen then
    (some { code := .websocketClosed, message := "WebSocket is closed" }, ch)
  else
    let (error, output) :=
      sendBytes (headerBytes ch.clientSide (ch.masks 0) true opcode payload.length)
        (wirePayload ch.clientSide (ch.masks 0) payload) ch.output
    (error, { ch with output, masks := fun n => ch.masks (n + 1) })

/-- `send`. -/
def send (ch : Channel) (data : Bytes) (binary : Bool) : Bool × Channel :=
  if !ch.isOpen then (false, ch)
  else if maxMessage < data.length || (!binary && !validUtf8 data) then (false, ch)
  else
    let (error, ch) := ch.sendFrame (if binary then 2 else 1) data
    (error.isNone, ch)

/-- `ping`. -/
def ping (ch : Channel) (data : Bytes) : Channel :=
  if data.length ≤ 125 then (ch.sendFrame 9 data).2 else ch

/-- `valid_close_code`. -/
def validCloseCode (code : ℕ) : Bool :=
  if code < 1000 ∨ 5000 ≤ code then false
  else if code = 1004 ∨ code = 1005 ∨ code = 1006 ∨ code = 1015 then false
  else decide (code ≤ 1014) || decide (3000 ≤ code)

/-- One iteration of the loop that cuts a reason back to valid UTF-8. -/
def popInvalidStep (reason : Bytes) : Loop.Next Bytes Bytes :=
  if !validUtf8 reason && !reason.isEmpty then .again reason.dropLast else .leave reason

/-- Every iteration drops a byte. -/
lemma popInvalidStep_decreases : Loop.Decreases popInvalidStep List.length := by
  intro reason reason' h
  unfold popInvalidStep at h
  split_ifs at h with hpop
  cases h
  have hne : reason ≠ [] := by simpa using (Bool.and_eq_true_iff.mp hpop).2
  have hpos := List.length_pos_of_ne_nil hne
  rw [List.length_dropLast]
  omega

/-- The reason of a close frame. -/
def closeReason (reason : Bytes) : Bytes :=
  Loop.run popInvalidStep List.length popInvalidStep_decreases (reason.take 123)

/-- `connection_->close()`. -/
def closeConnection (ch : Channel) : Channel :=
  { ch with output := { ch.output with isOpen := false } }

/-- The payload of the close frame that `close` sends. -/
def closePayload (code : ℕ) (reason : Bytes) : Bytes :=
  if !validCloseCode code || !validUtf8 reason then
    bigEndian 2 1002 ++ closeReason (bytes "Invalid close payload")
  else bigEndian 2 code ++ closeReason reason

/-- `close`. -/
def close (ch : Channel) (code : ℕ) (reason : Bytes) : Channel :=
  if !ch.isOpen then ch
  else ({ ch with isOpen := false }.sendFrame 8 (closePayload code reason)).2.closeConnection

/-! ### Taking frames from the input -/

/-- One iteration of `need`. -/
def needStep (count : ℕ) (ch : Channel) : Loop.Next Channel (Option ErrorInfo × Channel) :=
  if count ≤ ch.input.buffer.length then .leave (none, ch)
  else
    match ch.input.read with
    | (.failed e, input) => .leave (some e, { ch with input })
    | (.eof, input) =>
      .leave (some { code := .websocketClosed, message := "WebSocket transport closed" },
        { ch with input, isOpen := false })
    | (.data chunk, rest) => .again { ch with input := rest.append chunk }

/-- An iteration that repeats has read from the connection. -/
lemma needStep_again {count : ℕ} {ch ch' : Channel} (h : needStep count ch = .again ch') :
    ∃ chunk rest, ch.input.read = (.data chunk, rest) ∧
      ch' = { ch with input := rest.append chunk } := by
  unfold needStep at h
  split_ifs at h
  split at h
  · cases h
  · cases h
  · rename_i chunk rest hread
    cases h
    exact ⟨chunk, rest, hread, rfl⟩

/-- So what is left to read gets shorter. -/
lemma needStep_decreases (count : ℕ) :
    Loop.Decreases (needStep count) fun ch => ch.input.reads.length := by
  intro ch ch' h
  obtain ⟨chunk, rest, hread, rfl⟩ := needStep_again h
  exact (Source.reads_read hread).2

/-- `need`. -/
def need (count : ℕ) (ch : Channel) : Option ErrorInfo × Channel :=
  Loop.run (needStep count) (fun ch => ch.input.reads.length) (needStep_decreases count) ch

/-- A byte of the buffer. -/
def byte (ch : Channel) (index : ℕ) : ℕ := (ch.input.buffer.getD index 0).toNat

/-- The length of a frame and the size of its header so far. -/
def readLength (length : ℕ) (ch : Channel) : Result (ℕ × ℕ) × Channel :=
  if length = 126 then
    match need 4 ch with
    | (some e, ch) => (.error e, ch)
    | (none, ch) =>
      let length := fromBigEndian ((ch.input.buffer.drop 2).take 2)
      if length < 126 then (.error (protocolError "Non-minimal WebSocket frame length"), ch)
      else (.ok (length, 4), ch)
  else if length = 127 then
    match need 10 ch with
    | (some e, ch) => (.error e, ch)
    | (none, ch) =>
      if 0x80 ≤ ch.byte 2 then (.error (protocolError "Invalid WebSocket length"), ch)
      else
        let length := fromBigEndian ((ch.input.buffer.drop 2).take 8)
        if length ≤ 65535 then
          (.error (protocolError "Non-minimal WebSocket frame length"), ch)
        else (.ok (length, 10), ch)
  else (.ok (length, 2), ch)

/-- The mask of a frame and the size of its header. -/
def readMask (masked : Bool) (cursor : ℕ) (ch : Channel) : Result (Mask × ℕ) × Channel :=
  if masked then
    match need (cursor + 4) ch with
    | (some e, ch) => (.error e, ch)
    | (none, ch) => (.ok (fun i => ch.input.buffer.getD (cursor + i) 0, cursor + 4), ch)
  else (.ok (fun _ => 0, cursor), ch)

/-- The payload of a frame, which consumes the frame. -/
def readPayload (final : Bool) (opcode : ℕ) (masked : Bool) (mask : Mask) (cursor length : ℕ)
    (ch : Channel) : Result Frame × Channel :=
  if 2 ^ 64 - 1 - cursor < length then
    (.error { code := .bodyTooLarge, message := "WebSocket frame is too large" }, ch)
  else
    match need (cursor + length) ch with
    | (some e, ch) => (.error e, ch)
    | (none, ch) =>
      let payload := (ch.input.buffer.drop cursor).take length
      let f : Frame := { final, opcode, payload := wirePayload masked mask payload }
      (.ok f, { ch with input := ch.input.consume (cursor + length), consumed := ch.consumed ++ [f] })

/-- The rest of a frame after its first two bytes. -/
def readRest (final : Bool) (opcode : ℕ) (masked : Bool) (length : ℕ) (ch : Channel) :
    Result Frame × Channel :=
  match readLength length ch with
  | (.error e, ch) => (.error e, ch)
  | (.ok (length, cursor), ch) =>
    if (8 ≤ opcode ∧ (final = false ∨ 125 < length)) ∨ maxMessage < length then
      (.error (protocolError "Invalid WebSocket frame length"), ch)
    else
      match readMask masked cursor ch with
      | (.error e, ch) => (.error e, ch)
      | (.ok (mask, cursor), ch) => readPayload final opcode masked mask cursor length ch

/-- The part of `read` that takes a frame from the input. -/
def readFrame (ch : Channel) : Result Frame × Channel :=
  match need 2 ch with
  | (some e, ch) => (.error e, ch)
  | (none, ch) =>
    let first := ch.byte 0
    let second := ch.byte 1
    if first / 0x10 % 8 ≠ 0 then
      (.error (protocolError "Invalid WebSocket RSV bits"),
        ch.close 1002 (bytes "RSV bits are not supported"))
    else if decide (0x80 ≤ second) = ch.clientSide then
      (.error (protocolError "Invalid WebSocket mask direction"),
        ch.close 1002 (bytes "Invalid masking direction"))
    else
      readRest (decide (0x80 ≤ first)) (first % 0x10) (decide (0x80 ≤ second)) (second % 0x80) ch

/-! ### Acting on frames -/

/-- The error of a close frame. -/
def closedError (code : ℕ) (reason : Bytes) : ErrorInfo where
  code := .websocketClosed
  message := "WebSocket closed with code " ++ toString code ++
    (if reason.isEmpty then "" else ": " ++ text reason)

/-- A close frame. -/
def closeFrame (ch : Channel) (payload : Bytes) : Result Message × Channel :=
  if payload.length = 1 then (.error (protocolError "Invalid WebSocket close frame"), ch)
  else
    let code := if 2 ≤ payload.length then fromBigEndian (payload.take 2) else 1000
    let reason := payload.drop 2
    if 2 ≤ payload.length ∧ (!validCloseCode code || !validUtf8 reason) then
      (.error (protocolError "Invalid WebSocket close payload"), ch)
    else
      let ch :=
        if ch.isOpen then ({ ch with isOpen := false }.sendFrame 8 payload).2 else ch
      (.error (closedError code reason), ch.closeConnection)

/-- A complete message of a type. -/
def deliver (type : MessageType) (data : Bytes) : Result Message :=
  if type = .text ∧ !validUtf8 data then .error (protocolError "Invalid WebSocket UTF-8")
  else .ok { type, data }

/-- A continuation frame. -/
def continuationFrame (ch : Channel) (f : Frame) :
    Loop.Next Channel (Result Message × Channel) :=
  if !ch.fragmentedActive then
    .leave (.error (protocolError "Unexpected WebSocket continuation"), ch)
  else if maxMessage - ch.fragmented.length < f.payload.length then
    .leave (.error { code := .bodyTooLarge, message := "WebSocket message is too large" }, ch)
  else
    let ch := { ch with fragmented := ch.fragmented ++ f.payload }
    if f.final then
      match deliver ch.fragmentedType ch.fragmented with
      | .error e => .leave (.error e, { ch with fragmentedActive := false })
      | .ok message => .leave (.ok message, { ch with fragmentedActive := false, fragmented := [] })
    else .again ch

/-- A text or binary frame. -/
def dataFrame (ch : Channel) (f : Frame) : Loop.Next Channel (Result Message × Channel) :=
  if ch.fragmentedActive then
    .leave (.error (protocolError "New WebSocket data frame during fragmentation"), ch)
  else
    let type := if f.opcode = 1 then MessageType.text else .binary
    if f.final then .leave (deliver type f.payload, ch)
    else
      .again { ch with fragmentedActive := true, fragmentedType := type, fragmented := f.payload }

/-- The part of `read` that acts on a frame it has taken. -/
def processFrame (ch : Channel) (f : Frame) : Loop.Next Channel (Result Message × Channel) :=
  if f.opcode = 8 then .leave (ch.closeFrame f.payload)
  else if f.opcode = 9 then
    .leave (.ok { type := .ping, data := f.payload }, (ch.sendFrame 10 f.payload).2)
  else if f.opcode = 10 then .leave (.ok { type := .pong, data := f.payload }, ch)
  else if f.opcode = 0 then ch.continuationFrame f
  else if f.opcode ≠ 1 ∧ f.opcode ≠ 2 then
    .leave (.error (protocolError "Unsupported WebSocket opcode"), ch)
  else ch.dataFrame f

/-- One iteration of `read`. -/
def readStep (ch : Channel) : Loop.Next Channel (Result Message × Channel) :=
  match ch.readFrame with
  | (.error e, ch) => .leave (.error e, ch)
  | (.ok f, ch) => ch.processFrame f

/-! ### The loop of `read` -/

/-- What `need` comes to: enough bytes in the buffer, or the end of the input.  Where it fails, the
transport does not have the bytes at all. -/
inductive NeedOutcome (count : ℕ) (ch : Channel) : Option ErrorInfo × Channel → Prop where
  | enough {input : Input} (hlen : count ≤ input.buffer.length)
      (havailable : input.available = ch.input.available) (hsize : input.size = ch.input.size) :
      NeedOutcome count ch (none, { ch with input })
  | short {e : ErrorInfo} {input : Input} {isOpen : Bool}
      (hshort : ch.input.available.length < count) (hsize : input.size ≤ ch.input.size) :
      NeedOutcome count ch (some e, { ch with input, isOpen })

/-- `need` gets the bytes if they are there.  How the bytes arrive makes no difference to the frames
that are read. -/
theorem need_spec (count : ℕ) (ch : Channel) : NeedOutcome count ch (need count ch) := by
  refine Loop.run_induct (needStep_decreases count) (P := fun ch r => NeedOutcome count ch r)
    ?_ ?_ ch
  · intro ch r h
    unfold needStep at h
    split_ifs at h with hlen
    · cases h
      exact NeedOutcome.enough hlen rfl rfl
    · have hshort : ∀ {e : Event UInt8 ErrorInfo} {input : Input}, ch.input.read = (e, input) →
          (∀ xs, e ≠ .data xs) → ch.input.available.length < count := by
        intro e input hread he
        rw [(Source.settled_of_read hread he).available_eq]
        omega
      split at h
      · rename_i e input hread
        cases h
        exact @NeedOutcome.short count ch e input ch.isOpen (hshort hread (by simp))
          (Source.size_read_le hread)
      · rename_i input hread
        cases h
        exact NeedOutcome.short (hshort hread (by simp)) (Source.size_read_le hread)
      · cases h
  · intro ch ch' r h ih
    obtain ⟨chunk, rest, hread, rfl⟩ := needStep_again h
    have havailable := Source.available_read hread
    have hsize := Source.size_read hread
    cases ih with
    | enough hlen ha hs =>
      exact NeedOutcome.enough hlen (ha.trans havailable) (hs.trans hsize)
    | short hshort hs =>
      dsimp only at hshort
      rw [havailable] at hshort
      exact NeedOutcome.short hshort (hs.trans hsize.le)

/-- The message that is being reassembled, and the frames that were consumed, are the same.  Reading
a head or a length does not touch what is being reassembled. -/
structure SameMessage (ch ch' : Channel) : Prop where
  fragmented : ch'.fragmented = ch.fragmented
  fragmentedType : ch'.fragmentedType = ch.fragmentedType
  fragmentedActive : ch'.fragmentedActive = ch.fragmentedActive
  consumed : ch'.consumed = ch.consumed

/-- What taking a frame comes to: a frame, or an error that leaves the message alone.  An error may
have consumed part of a frame, but no fragment is added. -/
inductive FrameOutcome (ch : Channel) : Result Frame × Channel → Prop where
  | failed {e : ErrorInfo} {ch' : Channel} (h : SameMessage ch ch')
      (hsize : ch'.input.size ≤ ch.input.size) : FrameOutcome ch (.error e, ch')
  | taken {f : Frame} {input : Input} (hsize : input.size < ch.input.size) :
      FrameOutcome ch (.ok f, { ch with input, consumed := ch.consumed ++ [f] })

/-- Sending a frame touches the output only. -/
lemma sendFrame_snd (ch : Channel) (opcode : ℕ) (payload : Bytes) :
    ∃ output masks, (ch.sendFrame opcode payload).2 = { ch with output, masks } := by
  unfold sendFrame
  split_ifs
  · exact ⟨ch.output, ch.masks, rfl⟩
  · exact ⟨_, _, rfl⟩

/-- Closing touches the output and the open flag only. -/
lemma close_eq (ch : Channel) (code : ℕ) (reason : Bytes) :
    ∃ output masks isOpen, ch.close code reason = { ch with output, masks, isOpen } := by
  unfold close
  split_ifs
  · exact ⟨ch.output, ch.masks, ch.isOpen, rfl⟩
  · obtain ⟨output, masks, hsend⟩ :=
      sendFrame_snd { ch with isOpen := false } 8 (closePayload code reason)
    rw [hsend]
    exact ⟨_, _, _, rfl⟩

/-- Reading the length leaves the message alone. -/
lemma readLength_cases (length : ℕ) (ch : Channel) :
    (∃ e input isOpen, readLength length ch = (.error e, { ch with input, isOpen }) ∧
      input.size ≤ ch.input.size) ∨
    ∃ length' cursor input, readLength length ch = (.ok (length', cursor), { ch with input }) ∧
      2 ≤ cursor ∧ input.size = ch.input.size := by
  unfold readLength
  split_ifs
  · have hneed := need_spec 4 ch
    generalize need 4 ch = r at hneed
    cases hneed with
    | short hshort hsize => exact Or.inl ⟨_, _, _, rfl, hsize⟩
    | enough hlen ha hsize =>
      dsimp only
      split_ifs
      · exact Or.inl ⟨_, _, ch.isOpen, rfl, hsize.le⟩
      · exact Or.inr ⟨_, _, _, rfl, by omega, hsize⟩
  · have hneed := need_spec 10 ch
    generalize need 10 ch = r at hneed
    cases hneed with
    | short hshort hsize => exact Or.inl ⟨_, _, _, rfl, hsize⟩
    | enough hlen ha hsize =>
      dsimp only
      split_ifs
      · exact Or.inl ⟨_, _, ch.isOpen, rfl, hsize.le⟩
      · exact Or.inl ⟨_, _, ch.isOpen, rfl, hsize.le⟩
      · exact Or.inr ⟨_, _, _, rfl, by omega, hsize⟩
  · exact Or.inr ⟨length, 2, ch.input, rfl, by omega, rfl⟩

/-- Reading the mask leaves the message alone. -/
lemma readMask_cases (masked : Bool) (cursor : ℕ) (ch : Channel) :
    (∃ e input isOpen, readMask masked cursor ch = (.error e, { ch with input, isOpen }) ∧
      input.size ≤ ch.input.size) ∨
    ∃ mask cursor' input, readMask masked cursor ch = (.ok (mask, cursor'), { ch with input }) ∧
      cursor ≤ cursor' ∧ input.size = ch.input.size := by
  unfold readMask
  split_ifs
  · have hneed := need_spec (cursor + 4) ch
    generalize need (cursor + 4) ch = r at hneed
    cases hneed with
    | short hshort hsize => exact Or.inl ⟨_, _, _, rfl, hsize⟩
    | enough hlen ha hsize => exact Or.inr ⟨_, _, _, rfl, by omega, hsize⟩
  · exact Or.inr ⟨fun _ => 0, cursor, ch.input, rfl, le_rfl, rfl⟩

/-- A frame that is taken shortens the input. -/
lemma readPayload_outcome {final : Bool} {opcode : ℕ} {masked : Bool} {mask : Mask}
    {cursor length : ℕ} (hcursor : 0 < cursor) (ch : Channel) :
    FrameOutcome ch (readPayload final opcode masked mask cursor length ch) := by
  unfold readPayload
  split_ifs
  · exact FrameOutcome.failed ⟨rfl, rfl, rfl, rfl⟩ le_rfl
  · have hneed := need_spec (cursor + length) ch
    generalize need (cursor + length) ch = r at hneed
    cases hneed with
    | short hshort hsize => exact FrameOutcome.failed ⟨rfl, rfl, rfl, rfl⟩ hsize
    | enough hlen ha hsize =>
      have hconsume := Source.size_consume hlen
      apply FrameOutcome.taken
      dsimp only
      omega

/-- What was read between does not matter. -/
lemma FrameOutcome.of_input {ch : Channel} {input : Input} {r : Result Frame × Channel}
    (h : FrameOutcome { ch with input } r) (hsize : input.size ≤ ch.input.size) :
    FrameOutcome ch r := by
  cases h with
  | failed hsame hle =>
    exact FrameOutcome.failed ⟨hsame.fragmented, hsame.fragmentedType, hsame.fragmentedActive,
      hsame.consumed⟩ (hle.trans hsize)
  | taken hlt => exact FrameOutcome.taken (hlt.trans_le hsize)

/-- The rest of a frame. -/
lemma readRest_outcome (final : Bool) (opcode : ℕ) (masked : Bool) (length : ℕ) (ch : Channel) :
    FrameOutcome ch (readRest final opcode masked length ch) := by
  unfold readRest
  rcases readLength_cases length ch with ⟨e, input, isOpen, hlength, hsize⟩ |
    ⟨length', cursor, input, hlength, hcursor, hsize⟩
  · rw [hlength]
    exact FrameOutcome.failed ⟨rfl, rfl, rfl, rfl⟩ hsize
  · rw [hlength]
    dsimp only
    split_ifs
    · exact FrameOutcome.failed ⟨rfl, rfl, rfl, rfl⟩ hsize.le
    · rcases readMask_cases masked cursor { ch with input } with ⟨e, input', isOpen, hmask, hsize'⟩ |
        ⟨mask, cursor', input', hmask, hcursor', hsize'⟩
      · rw [hmask]
        exact FrameOutcome.failed ⟨rfl, rfl, rfl, rfl⟩ (hsize'.trans hsize.le)
      · rw [hmask]
        exact (readPayload_outcome (by omega) { ch with input := input' }).of_input
          (hsize'.le.trans hsize.le)

/-- Taking a frame yields a frame, or an error that leaves the message alone. -/
theorem readFrame_outcome (ch : Channel) : FrameOutcome ch ch.readFrame := by
  unfold readFrame
  have hneed := need_spec 2 ch
  generalize need 2 ch = r at hneed
  cases hneed with
  | short hshort hsize => exact FrameOutcome.failed ⟨rfl, rfl, rfl, rfl⟩ hsize
  | @enough input hlen ha hsize =>
    dsimp only
    split_ifs
    · obtain ⟨output, masks, isOpen, hclose⟩ :=
        close_eq { ch with input } 1002 (bytes "RSV bits are not supported")
      rw [hclose]
      exact FrameOutcome.failed ⟨rfl, rfl, rfl, rfl⟩ hsize.le
    · obtain ⟨output, masks, isOpen, hclose⟩ :=
        close_eq { ch with input } 1002 (bytes "Invalid masking direction")
      rw [hclose]
      exact FrameOutcome.failed ⟨rfl, rfl, rfl, rfl⟩ hsize.le
    · exact (readRest_outcome _ _ _ _ { ch with input }).of_input hsize.le

/-- Where `read` goes on after a frame, it has only put it into the message. -/
lemma processFrame_again {ch ch' : Channel} {f : Frame} (h : ch.processFrame f = .again ch') :
    ch'.input = ch.input ∧ ch'.consumed = ch.consumed := by
  unfold processFrame continuationFrame dataFrame at h
  dsimp only at h
  split_ifs at h
  · split at h <;> cases h
  · cases h
    exact ⟨rfl, rfl⟩
  · cases h
    exact ⟨rfl, rfl⟩
  · cases h
    exact ⟨rfl, rfl⟩

/-- Every iteration of `read` that repeats has consumed a frame. -/
lemma readStep_decreases : Loop.Decreases readStep fun ch => ch.input.size := by
  intro ch ch' h
  have houtcome := ch.readFrame_outcome
  unfold readStep at h
  generalize ch.readFrame = r at houtcome h
  cases houtcome with
  | failed hsame hsize => cases h
  | taken hsize =>
    have hinput := (processFrame_again h).1
    dsimp only at hinput ⊢
    rw [hinput]
    exact hsize

/-- `read`. -/
def read (ch : Channel) : Result Message × Channel :=
  Loop.run readStep (fun ch => ch.input.size) readStep_decreases ch

end Channel

end Chhttp.WebSocket
