import Chhttp.WebSocket.Reassembly
import Chhttp.WebSocket.Transfer

/-!
# Close frames

A channel sends a close frame in `close` and, as an echo, in `read`; both first exchange the open
flag.  `Closing` adds to a channel the payloads that calls have still to send, as they won the
exchange, and those that were passed to `send_frame`.  Its steps are the parts of the calls between
two suspensions, so a run of `step` is an interleaving of any calls; `inParts_close` and
`inParts_read` say that the calls themselves are runs of these parts.

`AcceptedPayload` is what `read` accepts in a close frame.  `close` builds such a payload from every
code and every reason.
-/

namespace Chhttp.WebSocket

open Transition

/-! ### Payloads -/

/-- What `read` accepts as the payload of a close frame. -/
def AcceptedPayload (payload : Bytes) : Prop :=
  payload.length ≤ 125 ∧ payload.length ≠ 1 ∧
    (2 ≤ payload.length → Channel.validCloseCode (fromBigEndian (payload.take 2)) = true ∧
      validUtf8 (payload.drop 2) = true)

instance (payload : Bytes) : Decidable (AcceptedPayload payload) :=
  inferInstanceAs (Decidable (_ ∧ _ ∧ (_ → _)))

/-- The code that `read` reports. -/
def reportedCode (payload : Bytes) : ℕ :=
  if 2 ≤ payload.length then fromBigEndian (payload.take 2) else 1000

/-- The longest prefix of a reason that is UTF-8 and fits into a close frame.  The source cuts a
long reason, and a cut in the middle of a character would make the frame invalid. -/
structure LongestValidPrefix (reason kept : Bytes) : Prop where
  isPrefix : kept <+: reason
  valid : validUtf8 kept = true
  length : kept.length ≤ 123
  longest : ∀ other, other <+: reason → validUtf8 other = true → other.length ≤ 123 →
    other.length ≤ kept.length

/-- A reason that fits is kept. -/
lemma LongestValidPrefix.eq_of_fits {reason kept : Bytes} (h : LongestValidPrefix reason kept)
    (hvalid : validUtf8 reason = true) (hlen : reason.length ≤ 123) : kept = reason :=
  h.isPrefix.eq_of_length_le (h.longest reason List.prefix_rfl hvalid hlen)

namespace Channel

/-- Popping the last byte leaves the longest prefix that is UTF-8.  The loop of the source drops
byte after byte until the check passes, and the empty reason passes it. -/
lemma popInvalid_spec (reason : Bytes) :
    (Loop.run popInvalidStep List.length popInvalidStep_decreases reason <+: reason ∧
      validUtf8 (Loop.run popInvalidStep List.length popInvalidStep_decreases reason) = true) ∧
    ∀ other, other <+: reason → validUtf8 other = true → other.length ≤
      (Loop.run popInvalidStep List.length popInvalidStep_decreases reason).length := by
  refine Loop.run_induct popInvalidStep_decreases
    (P := fun reason kept => (kept <+: reason ∧ validUtf8 kept = true) ∧
      ∀ other, other <+: reason → validUtf8 other = true → other.length ≤ kept.length) ?_ ?_ reason
  · intro reason kept h
    unfold popInvalidStep at h
    split_ifs at h with hpop
    cases h
    refine ⟨⟨List.prefix_rfl, ?_⟩, fun other hother _ => hother.length_le⟩
    by_cases hempty : reason = []
    · rw [hempty]
      exact validUtf8_nil
    · simpa [hempty] using hpop
  · intro reason shorter kept h ih
    unfold popInvalidStep at h
    split_ifs at h with hpop
    cases h
    obtain ⟨⟨hstarts, hvalid⟩, hlongest⟩ := ih
    refine ⟨⟨hstarts.trans reason.dropLast_prefix, hvalid⟩, fun other hother hutf8 => ?_⟩
    apply hlongest other _ hutf8
    -- a prefix that is UTF-8 is not the whole reason
    have hne : other ≠ reason := by
      rintro rfl
      rw [hutf8] at hpop
      cases hpop
    obtain ⟨tail, rfl⟩ := hother
    have htail : tail ≠ [] := by
      rintro rfl
      exact hne (List.append_nil other).symm
    rw [List.dropLast_append_of_ne_nil htail]
    exact List.prefix_append other _

/-- `close` cuts the reason back to the longest prefix that fits. -/
lemma closeReason_longest (reason : Bytes) : LongestValidPrefix reason (closeReason reason) := by
  obtain ⟨⟨hstarts, hvalid⟩, hlongest⟩ := popInvalid_spec (reason.take 123)
  refine ⟨hstarts.trans (List.take_prefix 123 reason), hvalid, ?_, ?_⟩
  · exact hstarts.length_le.trans (List.length_take_le 123 reason)
  · intro other hother hutf8 hlen
    exact hlongest other (List.prefix_take_iff.mpr ⟨hother, hlen⟩) hutf8

/-- A valid code fits into two bytes. -/
lemma lt_of_validCloseCode {code : ℕ} (h : validCloseCode code = true) : code < 5000 := by
  unfold validCloseCode at h
  split_ifs at h with hrange
  push Not at hrange
  exact hrange.2

/-- A code and a reason as a payload. -/
lemma payload_accepted {code : ℕ} {reason kept : Bytes} (hcode : validCloseCode code = true)
    (h : LongestValidPrefix reason kept) :
    AcceptedPayload (bigEndian 2 code ++ kept) ∧
      reportedCode (bigEndian 2 code ++ kept) = code ∧
      (bigEndian 2 code ++ kept).drop 2 = kept := by
  have htake : (bigEndian 2 code ++ kept).take 2 = bigEndian 2 code :=
    List.take_left' (bigEndian_length 2 code)
  have hdrop : (bigEndian 2 code ++ kept).drop 2 = kept :=
    List.drop_left' (bigEndian_length 2 code)
  have hread : fromBigEndian (bigEndian 2 code) = code := by
    apply fromBigEndian_bigEndian
    have hlt := lt_of_validCloseCode hcode
    omega
  have hlen := h.length
  have htotal : (bigEndian 2 code ++ kept).length = 2 + kept.length := by
    rw [List.length_append, bigEndian_length]
  refine ⟨⟨by omega, by omega, fun _ => ?_⟩, ?_, hdrop⟩
  · rw [htake, hdrop, hread]
    exact ⟨hcode, h.valid⟩
  · rw [reportedCode, if_pos (by omega), htake, hread]

/-- The substitute for an invalid code or reason. -/
lemma substitute_kept :
    closeReason (bytes "Invalid close payload") = bytes "Invalid close payload" := by
  apply (closeReason_longest _).eq_of_fits <;> decide

/-- What the peer is to be told: the code with the longest prefix of the reason, or the substitute.
A code that may not be sent, or a reason that is no text, is replaced. -/
def Reports (code : ℕ) (reason : Bytes) (code' : ℕ) (reason' : Bytes) : Prop :=
  if validCloseCode code = true ∧ validUtf8 reason = true then
    code' = code ∧ LongestValidPrefix reason reason'
  else code' = 1002 ∧ reason' = bytes "Invalid close payload"

/-- `close` builds a payload that is accepted and reports what it should. -/
lemma closePayload_accepted (code : ℕ) (reason : Bytes) :
    AcceptedPayload (closePayload code reason) ∧
      Reports code reason (reportedCode (closePayload code reason))
        ((closePayload code reason).drop 2) := by
  by_cases h : validCloseCode code = true ∧ validUtf8 reason = true
  · obtain ⟨haccepted, hcode, hreason⟩ :=
      payload_accepted h.1 (closeReason_longest reason)
    have hpayload : closePayload code reason = bigEndian 2 code ++ closeReason reason := by
      rw [closePayload, h.1, h.2]
      rfl
    rw [hpayload, hcode, hreason, Reports, if_pos h]
    exact ⟨haccepted, rfl, closeReason_longest reason⟩
  · obtain ⟨haccepted, hcode, hreason⟩ := @payload_accepted 1002 _ _ (by decide)
      (closeReason_longest (bytes "Invalid close payload"))
    have hpayload : closePayload code reason =
        bigEndian 2 1002 ++ closeReason (bytes "Invalid close payload") := by
      rw [closePayload, if_pos]
      rw [not_and_or, Bool.not_eq_true, Bool.not_eq_true] at h
      rcases h with h | h <;> rw [h] <;> simp
    rw [hpayload, hcode, hreason, Reports, if_neg h, substitute_kept]
    exact ⟨substitute_kept ▸ haccepted, rfl, rfl⟩

/-! ### The peer -/

/-- `read` on a close frame that is accepted. -/
lemma closeFrame_accepted {payload : Bytes} (h : AcceptedPayload payload) (ch : Channel) :
    (ch.closeFrame payload).1 = .error (closedError (reportedCode payload) (payload.drop 2)) := by
  obtain ⟨-, hone, hvalid⟩ := h
  have hcode : (if 2 ≤ payload.length then fromBigEndian (payload.take 2) else 1000) =
      reportedCode payload := rfl
  unfold closeFrame
  rw [if_neg hone]
  dsimp only
  rw [hcode, if_neg]
  rintro ⟨hlen, hbad⟩
  obtain ⟨hgood, hutf8⟩ := hvalid hlen
  rw [reportedCode, if_pos hlen, hgood, hutf8] at hbad
  exact absurd hbad (by decide)

/-- The frame that carries a payload. -/
def closeFrameOf (payload : Bytes) : Frame := { final := true, opcode := 8, payload }

/-- A peer reads the next frame if it is a close frame that is accepted. -/
lemma read_closeFrame {peer : Channel} {payload rest : Bytes} {mask : Mask}
    (h : AcceptedPayload payload)
    (havailable : peer.input.available =
      frameBytes (!peer.clientSide) mask (closeFrameOf payload) ++ rest) :
    peer.read.1 = .error (closedError (reportedCode payload) (payload.drop 2)) := by
  have hacceptable : (closeFrameOf payload).Acceptable :=
    ⟨show 8 < 16 by decide, fun _ => ⟨rfl, h.1⟩, h.1.trans (by decide)⟩
  obtain ⟨input, hstep, -⟩ := readStep_frameBytes hacceptable havailable
  have hread := Loop.run_of_leave readStep_decreases hstep
  rw [read, hread]
  exact closeFrame_accepted h _

/-- A short frame is handed to the transport in one block. -/
lemma sendFrame_short {ch : Channel} {payload : Bytes} (hopen : ch.output.isOpen = true)
    (hlen : payload.length ≤ 125) :
    (ch.sendFrame 8 payload).2.output.blocks =
      ch.output.blocks ++ [frameBytes ch.clientSide (ch.masks 0) (closeFrameOf payload)] := by
  have hshort : (wirePayload ch.clientSide (ch.masks 0) payload).length ≤ blockSize := by
    rw [wirePayload_length]
    exact hlen.trans (by decide)
  rw [sendFrame, if_neg (by rw [hopen]; decide)]
  dsimp only
  rw [sendBytes, if_pos hshort]
  exact Output.blocks_write _ _

/-! ### Calls that overlap -/

/-- A channel, the close payloads that calls have still to send, and those that were sent.  A close
frame is owed from the moment the open flag was taken until it is on the wire; other calls may run
in between. -/
structure Closing where
  channel : Channel
  owed : List Bytes := []
  sent : List Bytes := []

/-- The parts of the calls between two suspensions.  The calls of different coroutines interleave at
these boundaries. -/
inductive Part where
  | close (code : ℕ) (reason : Bytes)
  | echo (payload : Bytes)
  | transmit (payload : Bytes)
  | send (opcode : ℕ) (payload : Bytes)
  | shut
  | receive (received : Channel)

namespace Closing

/-- The exchange of the open flag, whose winner owes a close frame. -/
def exchange (c : Closing) (payload : Bytes) : Closing :=
  if c.channel.isOpen then
    { c with channel := { c.channel with isOpen := false }, owed := payload :: c.owed }
  else c

/-- One part.  `receive` is what `read` does up to the next frame or end, and between: it changes the
input and the message, and can clear the open flag. -/
def step (c : Closing) : Part → Option Closing
  | .close code reason => some (c.exchange (closePayload code reason))
  | .echo payload => if AcceptedPayload payload then some (c.exchange payload) else none
  | .transmit payload =>
    if payload ∈ c.owed then
      some { channel := (c.channel.sendFrame 8 payload).2, owed := c.owed.erase payload,
             sent := c.sent ++ [payload] }
    else none
  | .send opcode payload =>
    if opcode = 8 then none else some { c with channel := (c.channel.sendFrame opcode payload).2 }
  | .shut => some { c with channel := c.channel.closeConnection }
  | .receive received =>
    some { c with channel := { received with
      output := c.channel.output
      masks := c.channel.masks
      clientSide := c.channel.clientSide
      isOpen := c.channel.isOpen && received.isOpen } }

/-- At most one close frame is owed or sent, none while the channel is open, and each is accepted.
That it is accepted is about the payload: a code that may be sent, and a reason in UTF-8. -/
structure Accounted (c : Closing) : Prop where
  once : (if c.channel.isOpen then 1 else 0) + (c.owed.length + c.sent.length) ≤ 1
  accepted : ∀ payload ∈ c.owed ++ c.sent, AcceptedPayload payload

/-- The exchange has one winner. -/
lemma Accounted.exchange {c : Closing} (h : c.Accounted) {payload : Bytes}
    (hpayload : AcceptedPayload payload) : (c.exchange payload).Accounted := by
  obtain ⟨honce, haccepted⟩ := h
  unfold Closing.exchange
  split_ifs with hopen
  · rw [if_pos hopen] at honce
    refine ⟨?_, ?_⟩
    · rw [if_neg Bool.false_ne_true]
      dsimp only
      rw [List.length_cons]
      omega
    · exact List.forall_mem_cons.mpr ⟨hpayload, haccepted⟩
  · exact ⟨honce, haccepted⟩

/-- What leaves the payloads and does not open the channel keeps the account. -/
lemma Accounted.of_channel {c : Closing} (h : c.Accounted) {channel : Channel}
    (hopen : channel.isOpen = true → c.channel.isOpen = true) :
    Accounted { c with channel } := by
  refine ⟨?_, h.accepted⟩
  have honce := h.once
  dsimp only
  split_ifs with hnow
  · rw [if_pos (hopen hnow)] at honce
    exact honce
  · omega

/-- Sending a frame leaves the open flag. -/
lemma isOpen_sendFrame (ch : Channel) (opcode : ℕ) (payload : Bytes) :
    (ch.sendFrame opcode payload).2.isOpen = ch.isOpen := by
  obtain ⟨output, masks, hsend⟩ := sendFrame_snd ch opcode payload
  rw [hsend]

/-- Every part keeps the account. -/
lemma step_accounted {c c' : Closing} {part : Part} (h : c.Accounted)
    (hstep : c.step part = some c') : c'.Accounted := by
  cases part with
  | close code reason =>
    cases hstep
    exact h.exchange (closePayload_accepted code reason).1
  | echo payload =>
    simp only [step] at hstep
    split_ifs at hstep with hpayload
    cases hstep
    exact h.exchange hpayload
  | transmit payload =>
    simp only [step] at hstep
    split_ifs at hstep with hmem
    cases hstep
    obtain ⟨honce, haccepted⟩ := h
    have hpos := List.length_pos_of_mem hmem
    refine ⟨?_, ?_⟩
    · dsimp only
      rw [isOpen_sendFrame, List.length_erase_of_mem hmem, List.length_append, List.length_singleton]
      omega
    · intro other hother
      rcases List.mem_append.mp hother with hother | hother
      · exact haccepted other (List.mem_append_left _ (List.mem_of_mem_erase hother))
      · rcases List.mem_append.mp hother with hother | hother
        · exact haccepted other (List.mem_append_right _ hother)
        · obtain rfl := List.mem_singleton.mp hother
          exact haccepted other (List.mem_append_left _ hmem)
  | send opcode payload =>
    simp only [step] at hstep
    split_ifs at hstep
    cases hstep
    apply h.of_channel
    rw [isOpen_sendFrame]
    exact id
  | shut =>
    cases hstep
    exact h.of_channel id
  | receive received =>
    cases hstep
    exact h.of_channel fun hopen => (Bool.and_eq_true_iff.mp hopen).1

/-- Calls get from one state to another. -/
def Reaches (c c' : Closing) : Prop := ∃ parts, perform step c parts = some c'

/-- No call, no change. -/
lemma Reaches.refl (c : Closing) : c.Reaches c := ⟨[], rfl⟩

/-- Calls follow each other. -/
lemma Reaches.trans {c c' c'' : Closing} (h : c.Reaches c') (h' : c'.Reaches c'') :
    c.Reaches c'' := by
  obtain ⟨parts, hparts⟩ := h
  obtain ⟨more, hmore⟩ := h'
  refine ⟨parts ++ more, ?_⟩
  rw [perform_append, hparts]
  exact hmore

/-- One call. -/
lemma Reaches.of_step {c c' : Closing} {part : Part} (h : c.step part = some c') :
    c.Reaches c' := by
  refine ⟨[part], ?_⟩
  rw [perform, h]
  rfl

end Closing

/-! ### The calls as parts -/

open Closing

/-- A call takes the channel from one state to another in parts, and sends what it owes itself.
Other calls may have parts in between, so the result is on the system and not on the call. -/
def InParts (ch ch' : Channel) : Prop :=
  ∀ owed sent, ∃ sent', Reaches { channel := ch, owed, sent } { channel := ch', owed, sent := sent' }

/-- A call that does nothing. -/
lemma InParts.refl (ch : Channel) : InParts ch ch := fun _ sent => ⟨sent, Reaches.refl _⟩

/-- The parts of one call after those of another one. -/
lemma InParts.trans {ch ch' ch'' : Channel} (h : InParts ch ch') (h' : InParts ch' ch'') :
    InParts ch ch'' := by
  intro owed sent
  obtain ⟨sent', hreaches⟩ := h owed sent
  obtain ⟨sent'', hreaches'⟩ := h' owed sent'
  exact ⟨sent'', hreaches.trans hreaches'⟩

/-- A frame that is no close frame. -/
lemma inParts_sendFrame {opcode : ℕ} (h : opcode ≠ 8) (ch : Channel) (payload : Bytes) :
    InParts ch (ch.sendFrame opcode payload).2 := by
  intro owed sent
  exact ⟨sent, @Reaches.of_step _ _ (.send opcode payload) (if_neg h)⟩

/-- The connection is closed. -/
lemma inParts_closeConnection (ch : Channel) : InParts ch ch.closeConnection :=
  fun _ sent => ⟨sent, @Reaches.of_step _ _ .shut rfl⟩

/-- The exchange, and the close frame if it is won. -/
lemma inParts_exchange {ch : Channel} {payload : Bytes} {part : Part}
    (hpart : ∀ c : Closing, c.step part = some (c.exchange payload)) :
    InParts ch (if ch.isOpen then ({ ch with isOpen := false }.sendFrame 8 payload).2 else ch) := by
  intro owed sent
  have hexchange := Reaches.of_step (hpart { channel := ch, owed, sent })
  unfold Closing.exchange at hexchange
  split_ifs at hexchange ⊢
  · refine ⟨sent ++ [payload], hexchange.trans (@Reaches.of_step _ _ (.transmit payload) ?_)⟩
    simp only [step]
    rw [if_pos List.mem_cons_self, List.erase_cons_head]
  · exact ⟨sent, hexchange⟩

/-- `close` in parts. -/
lemma inParts_close (ch : Channel) (code : ℕ) (reason : Bytes) :
    InParts ch (ch.close code reason) := by
  have hexchange := @inParts_exchange ch (closePayload code reason) (.close code reason) fun _ => rfl
  unfold close
  by_cases hopen : ch.isOpen = true
  · rw [if_pos hopen] at hexchange
    rw [hopen, if_neg (by decide)]
    exact hexchange.trans (inParts_closeConnection _)
  · rw [if_pos (by simpa using hopen)]
    exact InParts.refl ch

/-- What happens to a channel while nothing is sent.  It may find that the channel is closed, but it
does not open it again. -/
structure Quiet (ch ch' : Channel) : Prop where
  output : ch'.output = ch.output
  masks : ch'.masks = ch.masks
  clientSide : ch'.clientSide = ch.clientSide
  isOpen : ch'.isOpen = true → ch.isOpen = true

/-- Nothing was read. -/
lemma Quiet.refl (ch : Channel) : Quiet ch ch := ⟨rfl, rfl, rfl, id⟩

/-- One read after another. -/
lemma Quiet.trans {ch ch' ch'' : Channel} (h : Quiet ch ch') (h' : Quiet ch' ch'') :
    Quiet ch ch'' :=
  ⟨h'.output.trans h.output, h'.masks.trans h.masks, h'.clientSide.trans h.clientSide,
    fun hopen => h.isOpen (h'.isOpen hopen)⟩

/-- Reading is a part of its own, which sends nothing. -/
lemma Quiet.inParts {ch ch' : Channel} (h : Quiet ch ch') : InParts ch ch' := by
  intro owed sent
  refine ⟨sent, @Reaches.of_step _ _ (.receive ch') ?_⟩
  obtain ⟨houtput, hmasks, hside, hopen⟩ := h
  have hand : (ch.isOpen && ch'.isOpen) = ch'.isOpen := by
    cases hnow : ch'.isOpen with
    | false => exact Bool.and_false _
    | true => rw [hopen hnow, Bool.and_self]
  simp only [step]
  rw [hand, ← houtput, ← hmasks, ← hside]

/-- `need` only reads. -/
lemma need_quiet (count : ℕ) (ch : Channel) : Quiet ch (need count ch).2 := by
  refine Loop.run_induct (needStep_decreases count) (P := fun ch r => Quiet ch r.2) ?_ ?_ ch
  · intro ch r h
    unfold needStep at h
    split_ifs at h
    · cases h
      exact Quiet.refl ch
    · split at h
      · cases h
        exact ⟨rfl, rfl, rfl, id⟩
      · cases h
        exact ⟨rfl, rfl, rfl, fun hopen => absurd hopen Bool.false_ne_true⟩
      · cases h
  · intro ch ch' r h ih
    obtain ⟨chunk, rest, -, rfl⟩ := needStep_again h
    exact ⟨ih.output, ih.masks, ih.clientSide, ih.isOpen⟩

/-- What taking a frame comes to: nothing is sent, and control frames are short.  That control
frames are short is checked as they are read, so an echo fits into a control frame. -/
structure Taken (ch : Channel) (r : Result Frame × Channel) : Prop where
  quiet : Quiet ch r.2
  control : ∀ f, r.1 = .ok f → 8 ≤ f.opcode → f.payload.length ≤ 125

/-- Where reading fails, there is no frame. -/
lemma taken_of_error {ch ch' : Channel} {e : ErrorInfo} (h : Quiet ch ch') :
    Taken ch (.error e, ch') :=
  ⟨h, fun _ hok => nomatch hok⟩

/-- The length of a frame is only read. -/
lemma readLength_quiet (length : ℕ) (ch : Channel) : Quiet ch (readLength length ch).2 := by
  unfold readLength
  split_ifs
  · have hneed := need_quiet 4 ch
    generalize need 4 ch = r at hneed ⊢
    obtain ⟨error, ch'⟩ := r
    cases error with
    | some e => exact hneed
    | none =>
      dsimp only
      split_ifs <;> exact hneed
  · have hneed := need_quiet 10 ch
    generalize need 10 ch = r at hneed ⊢
    obtain ⟨error, ch'⟩ := r
    cases error with
    | some e => exact hneed
    | none =>
      dsimp only
      split_ifs <;> exact hneed
  · exact Quiet.refl ch

/-- So is its mask, -/
lemma readMask_quiet (masked : Bool) (cursor : ℕ) (ch : Channel) :
    Quiet ch (readMask masked cursor ch).2 := by
  unfold readMask
  split_ifs
  · have hneed := need_quiet (cursor + 4) ch
    generalize need (cursor + 4) ch = r at hneed ⊢
    obtain ⟨error, ch'⟩ := r
    cases error with
    | some e => exact hneed
    | none => exact hneed
  · exact Quiet.refl ch

/-- and its payload, which is short in a control frame. -/
lemma readPayload_taken {opcode length : ℕ} (hshort : 8 ≤ opcode → length ≤ 125) (final : Bool)
    (masked : Bool) (mask : Mask) (cursor : ℕ) (ch : Channel) :
    Taken ch (readPayload final opcode masked mask cursor length ch) := by
  unfold readPayload
  split_ifs
  · exact taken_of_error (Quiet.refl ch)
  · have hneed := need_quiet (cursor + length) ch
    generalize need (cursor + length) ch = r at hneed ⊢
    obtain ⟨error, ch'⟩ := r
    cases error with
    | some e => exact taken_of_error hneed
    | none =>
      refine ⟨⟨hneed.output, hneed.masks, hneed.clientSide, hneed.isOpen⟩, ?_⟩
      intro f hf hopcode
      cases hf
      dsimp only at hopcode ⊢
      rw [wirePayload_length]
      exact (List.length_take_le _ _).trans (hshort hopcode)

/-- The rest of a frame is taken while nothing is sent. -/
lemma readRest_taken (final : Bool) (opcode : ℕ) (masked : Bool) (length : ℕ) (ch : Channel) :
    Taken ch (readRest final opcode masked length ch) := by
  unfold readRest
  have hlength := readLength_quiet length ch
  generalize readLength length ch = r at hlength ⊢
  obtain ⟨result, ch'⟩ := r
  cases result with
  | error e => exact taken_of_error hlength
  | ok size =>
    obtain ⟨length, cursor⟩ := size
    dsimp only at hlength ⊢
    split_ifs with hbad
    · exact taken_of_error hlength
    · have hmask := readMask_quiet masked cursor ch'
      generalize readMask masked cursor ch' = r at hmask ⊢
      obtain ⟨result, ch''⟩ := r
      cases result with
      | error e => exact taken_of_error (hlength.trans hmask)
      | ok size =>
        obtain ⟨mask, cursor⟩ := size
        have hshort : 8 ≤ opcode → length ≤ 125 := by
          intro hopcode
          push Not at hbad
          exact (hbad.1 hopcode).2
        have htaken := readPayload_taken hshort final masked mask cursor ch''
        exact ⟨(hlength.trans hmask).trans htaken.quiet, htaken.control⟩

/-- Taking a frame in parts: besides what it reads it can only refuse the frame and close. -/
lemma inParts_readFrame (ch : Channel) :
    InParts ch ch.readFrame.2 ∧
      ∀ f, ch.readFrame.1 = .ok f → 8 ≤ f.opcode → f.payload.length ≤ 125 := by
  unfold readFrame
  have hneed := need_quiet 2 ch
  generalize need 2 ch = r at hneed ⊢
  obtain ⟨error, ch'⟩ := r
  cases error with
  | some e => exact ⟨hneed.inParts, fun _ hok => nomatch hok⟩
  | none =>
    dsimp only at hneed ⊢
    split_ifs
    · exact ⟨hneed.inParts.trans (inParts_close ch' _ _), fun _ hok => nomatch hok⟩
    · exact ⟨hneed.inParts.trans (inParts_close ch' _ _), fun _ hok => nomatch hok⟩
    · have htaken := readRest_taken (decide (0x80 ≤ ch'.byte 0)) (ch'.byte 0 % 0x10)
        (decide (0x80 ≤ ch'.byte 1)) (ch'.byte 1 % 0x80) ch'
      exact ⟨hneed.inParts.trans htaken.quiet.inParts, htaken.control⟩

/-- A close frame in parts. -/
lemma inParts_closeFrame {payload : Bytes} (hshort : payload.length ≤ 125) (ch : Channel) :
    InParts ch (ch.closeFrame payload).2 := by
  have haccepted : ∀ code, (if 2 ≤ payload.length then fromBigEndian (payload.take 2) else 1000) =
      code → payload.length ≠ 1 →
      ¬(2 ≤ payload.length ∧ (!validCloseCode code || !validUtf8 (payload.drop 2)) = true) →
      AcceptedPayload payload := by
    intro code hcode hone hgood
    refine ⟨hshort, hone, fun hlen => ?_⟩
    rw [if_pos hlen] at hcode
    subst hcode
    simpa [hlen] using hgood
  unfold closeFrame
  dsimp only
  generalize hcode : (if 2 ≤ payload.length then fromBigEndian (payload.take 2) else 1000) = code
  split_ifs with hone hbad hopen
  · exact InParts.refl ch
  · exact InParts.refl ch
  · have hexchange := @inParts_exchange ch payload (.echo payload) fun _ =>
      if_pos (haccepted code hcode hone hbad)
    rw [if_pos hopen] at hexchange
    exact hexchange.trans (inParts_closeConnection _)
  · exact inParts_closeConnection ch

/-- The channel behind one iteration. -/
def after : Loop.Next Channel (Result Message × Channel) → Channel
  | .again ch => ch
  | .leave (_, ch) => ch

/-- Acting on a frame in parts. -/
lemma inParts_processFrame {f : Frame} (hshort : 8 ≤ f.opcode → f.payload.length ≤ 125)
    (ch : Channel) : InParts ch (after (ch.processFrame f)) := by
  have hquiet : ∀ {ch' : Channel}, Quiet ch ch' → InParts ch ch' := fun h => h.inParts
  unfold processFrame
  split_ifs with h8 h9 h10 h0
  · exact inParts_closeFrame (hshort h8.ge) ch
  · exact inParts_sendFrame (by decide) ch f.payload
  · exact InParts.refl ch
  · unfold continuationFrame
    dsimp only
    split_ifs
    · exact InParts.refl ch
    · exact InParts.refl ch
    · split <;> exact hquiet ⟨rfl, rfl, rfl, id⟩
    · exact hquiet ⟨rfl, rfl, rfl, id⟩
  · exact InParts.refl ch
  · unfold dataFrame
    dsimp only
    split_ifs <;> exact hquiet ⟨rfl, rfl, rfl, id⟩

/-- One iteration of `read` in parts. -/
lemma inParts_readStep (ch : Channel) : InParts ch (after ch.readStep) := by
  obtain ⟨hframe, hshort⟩ := inParts_readFrame ch
  unfold readStep
  generalize ch.readFrame = r at hframe hshort ⊢
  obtain ⟨result, ch'⟩ := r
  cases result with
  | error e => exact hframe
  | ok f => exact hframe.trans (inParts_processFrame (hshort f rfl) ch')

/-- `read` in parts. -/
theorem inParts_read (ch : Channel) : InParts ch ch.read.2 := by
  refine Loop.run_induct readStep_decreases (P := fun ch r => InParts ch r.2) ?_ ?_ ch
  · intro ch r h
    have hstep := inParts_readStep ch
    rw [h] at hstep
    exact hstep
  · intro ch ch' r h ih
    have hstep := inParts_readStep ch
    rw [h] at hstep
    exact hstep.trans ih

/-- Every call is a run of its parts. -/
lemma inParts_next {ch ch' : Channel} {call : Call} (h : next ch call = some ch') :
    InParts ch ch' := by
  cases call with
  | read =>
    cases h
    exact inParts_read ch
  | send data binary =>
    cases h
    unfold send
    split_ifs
    · exact InParts.refl ch
    · exact InParts.refl ch
    · exact inParts_sendFrame (by decide) ch data
    · exact inParts_sendFrame (by decide) ch data
  | ping data =>
    cases h
    unfold ping
    split_ifs
    · exact inParts_sendFrame (by decide) ch data
    · exact InParts.refl ch
  | close code reason =>
    cases h
    exact inParts_close ch code reason

/-! ### Close frames are acceptable -/

/-- In any interleaving at most one close frame is sent. -/
lemma run_accounted {ch : Channel} {c : Closing} {trace : List (Closing × Part)}
    (h : Run step { channel := ch } trace c) : c.Accounted := by
  apply h.invariant fun _ _ _ haccounted hstep => step_accounted haccounted hstep
  refine ⟨?_, fun _ hmem => absurd hmem List.not_mem_nil⟩
  dsimp only
  split_ifs <;> decide

/-- The block that `close` hands to the transport. -/
lemma blocks_close {ch : Channel} (hopen : ch.isOpen = true) (htransport : ch.output.isOpen = true)
    (code : ℕ) (reason : Bytes) :
    (ch.close code reason).output.blocks = ch.output.blocks ++
      [frameBytes ch.clientSide (ch.masks 0) (closeFrameOf (closePayload code reason))] := by
  rw [close, if_neg (by rw [hopen]; decide)]
  exact @sendFrame_short { ch with isOpen := false } _ htransport
    (closePayload_accepted code reason).1.1

/-- **Close frames.**  Whatever calls overlap on a channel, at most one close frame is sent, and any
peer accepts it.  A peer that reads on behind what was sent before a `close` is told the code with
the longest prefix of the reason, or the substitute. -/
theorem close_acceptable :
    (∀ (ch : Channel) (c : Closing) (trace : List (Closing × Part)),
      Run step { channel := ch } trace c →
      c.sent.length ≤ 1 ∧ ∀ payload ∈ c.sent, payload.length ≤ 125 ∧
        ∀ (peer : Channel) (mask : Mask) (rest : Bytes),
          peer.input.available =
            frameBytes (!peer.clientSide) mask (closeFrameOf payload) ++ rest →
          peer.read.1 = .error (closedError (reportedCode payload) (payload.drop 2))) ∧
    (∀ (ch ch' : Channel) (call : Call), next ch call = some ch' → InParts ch ch') ∧
    (∀ (sender peer : Channel) (code : ℕ) (reason rest : Bytes), sender.isOpen = true →
      sender.output.isOpen = true → peer.clientSide = !sender.clientSide →
      sender.output.bytes ++ peer.input.available =
        (sender.close code reason).output.bytes ++ rest →
      ∃ code' reason', Reports code reason code' reason' ∧
        peer.read.1 = .error (closedError code' reason')) := by
  refine ⟨?_, fun _ _ _ => inParts_next, ?_⟩
  · intro ch c trace hrun
    obtain ⟨honce, haccepted⟩ := run_accounted hrun
    refine ⟨by omega, fun payload hpayload => ?_⟩
    have hpayload := haccepted payload (List.mem_append_right _ hpayload)
    exact ⟨hpayload.1, fun _ _ _ => read_closeFrame hpayload⟩
  · intro sender peer code reason rest hopen htransport hside havailable
    obtain ⟨haccepted, hreports⟩ := closePayload_accepted code reason
    refine ⟨_, _, hreports, @read_closeFrame peer _ rest (sender.masks 0) haccepted ?_⟩
    rw [Output.bytes, Output.bytes, blocks_close hopen htransport, List.flatten_append,
      List.flatten_singleton, List.append_assoc] at havailable
    rw [hside, Bool.not_not]
    exact List.append_cancel_left havailable

/-- A client closes, and the server reads the frame byte by byte. -/
theorem close_acceptable_of_bye :
    (server (client.close 1000 (bytes "bye")).output.bytes).read.1 =
      .error (closedError 1000 (bytes "bye")) := by
  obtain ⟨code, reason, hreports, hread⟩ := close_acceptable.2.2 client
    (server (client.close 1000 (bytes "bye")).output.bytes) 1000 (bytes "bye") [] rfl rfl rfl rfl
  rw [Reports, if_pos (by decide)] at hreports
  obtain ⟨rfl, hkept⟩ := hreports
  rw [hread, hkept.eq_of_fits (by decide) (by decide)]

end Channel

end Chhttp.WebSocket
