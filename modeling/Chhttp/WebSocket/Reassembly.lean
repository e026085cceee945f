import Chhttp.Lib.Run
import Chhttp.WebSocket.Receive

/-!
# Reassembly of messages

A run is any sequence of calls on a channel: `read`, also after it has returned errors, `send`,
`ping` and `close`.  `openMessage` tells from the frames that were consumed which of them belong to
a message whose last fragment has not come yet, and `Assembled` says that a message consists of one
data frame and of all continuation frames consumed after it.

A continuation frame that would make its message too large is consumed and refused, but the message
stays open: later fragments are appended behind the gap (`message_with_gap`).  While all messages
keep to the limit, every message is complete (`messages_complete`).
-/

namespace Chhttp.WebSocket

open Transition

/-! ### Messages as lists of frames -/

/-- The frames of the open message after one more frame. -/
def noteFrame (fragments : Option (List Frame)) (f : Frame) : Option (List Frame) :=
  match fragments with
  | none => if (f.opcode = 1 ∨ f.opcode = 2) ∧ f.final = false then some [f] else none
  | some fragments =>
    if f.opcode = 0 then if f.final then none else some (fragments ++ [f]) else some fragments

/-- The first frame and the continuation frames of the message that is open after some frames. -/
def openMessage (frames : List Frame) : Option (List Frame) := frames.foldl noteFrame none

/-- The payloads of some frames, put together. -/
def payloads (fragments : List Frame) : Bytes := (fragments.map Frame.payload).flatten

/-- No message in these frames is longer than `maxMessage`.  It is a condition on the frames that
were taken, so it is about what the peer sent. -/
def Fits (frames : List Frame) : Prop :=
  ∀ before f, before ++ [f] <+: frames → f.opcode = 0 → ∀ fragments,
    openMessage before = some fragments →
      (payloads fragments).length + f.payload.length ≤ maxMessage

/-- A message consists of one data frame and of all continuation frames that were consumed after it,
up to the final one. -/
def Assembled (frames : List Frame) (m : Message) : Prop :=
  ∃ before initial rest, frames = before ++ initial :: rest ∧
    (initial.opcode = 1 ∧ m.type = .text ∨ initial.opcode = 2 ∧ m.type = .binary) ∧
    m.data = payloads (initial :: rest.filter (·.opcode = 0)) ∧
    ∃ firsts last, initial :: rest.filter (·.opcode = 0) = firsts ++ [last] ∧
      (∀ f ∈ firsts, f.final = false) ∧ last.final = true ∧ frames.getLast? = some last

/-- One more frame. -/
lemma openMessage_append (frames : List Frame) (f : Frame) :
    openMessage (frames ++ [f]) = noteFrame (openMessage frames) f := by
  rw [openMessage, openMessage, List.foldl_append]
  rfl

/-- A frame that is neither data nor a continuation leaves the message alone. -/
lemma openMessage_append_other (frames : List Frame) {f : Frame}
    (h : f.opcode ≠ 0 ∧ f.opcode ≠ 1 ∧ f.opcode ≠ 2) :
    openMessage (frames ++ [f]) = openMessage frames := by
  rw [openMessage_append]
  cases openMessage frames with
  | none => simp [noteFrame, h]
  | some fragments => simp [noteFrame, h]

/-- An open message begins with a data frame, goes on with all continuation frames after it, and
none of them is final. -/
theorem openMessage_spec {frames fragments : List Frame}
    (h : openMessage frames = some fragments) :
    ∃ before initial rest, frames = before ++ initial :: rest ∧
      fragments = initial :: rest.filter (·.opcode = 0) ∧
      (initial.opcode = 1 ∨ initial.opcode = 2) ∧ ∀ f ∈ fragments, f.final = false := by
  induction frames using List.reverseRecOn generalizing fragments with
  | nil => cases h
  | append_singleton frames f ih =>
    rw [openMessage_append] at h
    generalize hopen : openMessage frames = fragments' at h
    cases fragments' with
    | none =>
      rw [noteFrame] at h
      split_ifs at h with hdata
      cases h
      exact ⟨frames, f, [], rfl, rfl, hdata.1, by simpa using hdata.2⟩
    | some fragments' =>
      obtain ⟨before, initial, rest, rfl, rfl, hinitial, hfinal⟩ := ih hopen
      rw [noteFrame] at h
      split_ifs at h with hcontinuation hlast
      · cases h
        refine ⟨before, initial, rest ++ [f], by simp, ?_, hinitial, ?_⟩
        · simp [hcontinuation]
        · intro f' hf'
          rcases List.mem_append.mp hf' with hf' | hf'
          · exact hfinal f' hf'
          · rw [List.mem_singleton] at hf'
            subst hf'
            exact Bool.eq_false_iff.mpr hlast
      · cases h
        exact ⟨before, initial, rest ++ [f], by simp, by simp [hcontinuation], hinitial, hfinal⟩

/-- Frames that came first. -/
lemma Fits.of_prefix {frames frames' : List Frame} (h : Fits frames') (hp : frames <+: frames') :
    Fits frames := by
  intro before f hbefore
  exact h before f (hbefore.trans hp)

namespace Channel

/-- The channel holds the open message of these frames.  Without an open message there are no
fragments that wait, and with one its bytes are those of its fragments. -/
structure Coherent (frames : List Frame) (ch : Channel) : Prop where
  idle : ch.fragmentedActive = false → openMessage frames = none
  active : ch.fragmentedActive = true → ∃ initial later,
    openMessage frames = some (initial :: later) ∧
      ch.fragmented = payloads (initial :: later) ∧
      ch.fragmentedType = if initial.opcode = 1 then .text else .binary

/-- Only the message matters. -/
lemma Coherent.of_fields {frames : List Frame} {ch ch' : Channel} (h : Coherent frames ch)
    (hactive : ch'.fragmentedActive = ch.fragmentedActive)
    (htype : ch'.fragmentedType = ch.fragmentedType) (hdata : ch'.fragmented = ch.fragmented) :
    Coherent frames ch' := by
  refine ⟨?_, ?_⟩
  · rw [hactive]
    exact h.idle
  · rw [hactive, htype, hdata]
    exact h.active

/-- After a frame: the channel holds the open message, and what is returned is complete.  Control
frames and errors come in between and return nothing that would have to be complete. -/
structure Complete (frames : List Frame) (r : Result Message) (ch : Channel) : Prop where
  consumed : ch.consumed = frames
  coherent : Coherent frames ch
  message : ∀ m, r = .ok m → m.type = .text ∨ m.type = .binary → Assembled frames m

/-- Errors are not messages. -/
lemma complete_error {frames : List Frame} {e : ErrorInfo} {ch : Channel}
    (hconsumed : ch.consumed = frames) (h : Coherent frames ch) : Complete frames (.error e) ch :=
  ⟨hconsumed, h, fun _ hm => nomatch hm⟩

/-- A close frame leaves the message alone. -/
lemma closeFrame_complete {frames : List Frame} {ch : Channel} (hconsumed : ch.consumed = frames)
    (h : Coherent frames ch) (payload : Bytes) :
    Complete frames (ch.closeFrame payload).1 (ch.closeFrame payload).2 := by
  unfold closeFrame
  dsimp only
  generalize (if 2 ≤ payload.length then fromBigEndian (payload.take 2) else 1000) = code
  split_ifs
  · exact complete_error hconsumed h
  · exact complete_error hconsumed h
  · obtain ⟨output, masks, hsend⟩ := sendFrame_snd { ch with isOpen := false } 8 payload
    rw [hsend]
    exact complete_error hconsumed (h.of_fields rfl rfl rfl)
  · exact complete_error hconsumed (h.of_fields rfl rfl rfl)

/-- What acting on a frame comes to. -/
def Acted (frames : List Frame) : Loop.Next Channel (Result Message × Channel) → Prop
  | .again ch => ch.consumed = frames ∧ Coherent frames ch
  | .leave (r, ch) => Complete frames r ch

/-- A message that is returned as a whole. -/
lemma deliver_ok {type : MessageType} {data : Bytes} {m : Message}
    (h : deliver type data = .ok m) : m = { type, data } := by
  unfold deliver at h
  split_ifs at h
  cases h
  rfl

/-- A continuation frame. -/
lemma continuationFrame_acted {frames : List Frame} {ch : Channel} {f : Frame}
    (hconsumed : ch.consumed = frames ++ [f]) (h : Coherent frames ch)
    (hfits : Fits (frames ++ [f])) (hopcode : f.opcode = 0) :
    Acted (frames ++ [f]) (ch.continuationFrame f) := by
  unfold continuationFrame
  dsimp only
  split_ifs with hidle hlarge hfinal
  · have hinactive : ch.fragmentedActive = false := by simpa using hidle
    refine complete_error hconsumed ⟨?_, ?_⟩
    · intro _
      rw [openMessage_append, h.idle hinactive, noteFrame, if_neg (by simp [hopcode])]
    · intro hactive
      rw [hinactive] at hactive
      cases hactive
  · -- the message would be too large, which `Fits` excludes
    obtain ⟨initial, later, hopen, hdata, -⟩ := h.active (by simpa using hidle)
    have hle := hfits frames f List.prefix_rfl hopcode _ hopen
    rw [← hdata] at hle
    omega
  · obtain ⟨initial, later, hopen, hdata, htype⟩ := h.active (by simpa using hidle)
    have hclosed : openMessage (frames ++ [f]) = none := by
      rw [openMessage_append, hopen]
      simp [noteFrame, hopcode, hfinal]
    have hcoherent : ∀ data : Bytes, Coherent (frames ++ [f])
        { ch with fragmentedActive := false, fragmented := data } :=
      fun data => ⟨fun _ => hclosed, fun hactive => nomatch hactive⟩
    split
    · exact complete_error hconsumed (hcoherent _)
    · rename_i message hdeliver
      refine ⟨hconsumed, hcoherent _, ?_⟩
      intro m hm _
      cases hm
      cases deliver_ok hdeliver
      obtain ⟨before, initial', rest, hframes, hfragments, hinitial, hnot⟩ := openMessage_spec hopen
      cases hfragments
      refine ⟨before, initial, rest ++ [f], by simp [hframes], ?_, ?_, ?_⟩
      · rcases hinitial with hinitial | hinitial
        · exact Or.inl ⟨hinitial, by simp [htype, hinitial]⟩
        · exact Or.inr ⟨hinitial, by simp [htype, hinitial]⟩
      · simp [hdata, payloads, hopcode]
      · exact ⟨initial :: rest.filter (·.opcode = 0), f, by simp [hopcode], hnot, hfinal, by simp⟩
  · obtain ⟨initial, later, hopen, hdata, htype⟩ := h.active (by simpa using hidle)
    refine ⟨hconsumed, ?_, ?_⟩
    · intro hinactive
      have hidle' : ch.fragmentedActive = true := by simpa using hidle
      exact absurd hinactive (by simp [hidle'])
    · intro _
      refine ⟨initial, later ++ [f], ?_, ?_, htype⟩
      · rw [openMessage_append, hopen]
        simp [noteFrame, hopcode, hfinal]
      · simp [hdata, payloads]

/-- A text or binary frame. -/
lemma dataFrame_acted {frames : List Frame} {ch : Channel} {f : Frame}
    (hconsumed : ch.consumed = frames ++ [f]) (h : Coherent frames ch)
    (hopcode : f.opcode = 1 ∨ f.opcode = 2) : Acted (frames ++ [f]) (ch.dataFrame f) := by
  have hzero : f.opcode ≠ 0 := by omega
  have htypes : f.opcode = 1 ∧ (if f.opcode = 1 then MessageType.text else .binary) = .text ∨
      f.opcode = 2 ∧ (if f.opcode = 1 then MessageType.text else .binary) = .binary := by
    rcases hopcode with hopcode | hopcode <;> simp [hopcode]
  unfold dataFrame
  dsimp only
  generalize htype : (if f.opcode = 1 then MessageType.text else .binary) = type at htypes ⊢
  split_ifs with hactive hfinal
  · obtain ⟨initial, later, hopen, hdata, htype'⟩ := h.active hactive
    refine complete_error hconsumed ⟨?_, ?_⟩
    · intro hinactive
      rw [hactive] at hinactive
      cases hinactive
    · intro _
      refine ⟨initial, later, ?_, hdata, htype'⟩
      rw [openMessage_append, hopen]
      simp [noteFrame, hzero]
  · have hinactive := Bool.eq_false_iff.mpr hactive
    refine ⟨hconsumed, ⟨?_, fun hactive' => absurd hactive' hactive⟩, ?_⟩
    · intro _
      rw [openMessage_append, h.idle hinactive]
      simp [noteFrame, hfinal]
    · intro m hm _
      cases deliver_ok hm
      exact ⟨frames, f, [], rfl, htypes, by simp [payloads], [], f, rfl, by simp, hfinal, by simp⟩
  · refine ⟨hconsumed, ⟨?_, ?_⟩⟩
    · intro hinactive
      cases hinactive
    · intro _
      refine ⟨f, [], ?_, by simp [payloads], htype.symm⟩
      rw [openMessage_append, h.idle (Bool.eq_false_iff.mpr hactive)]
      simp [noteFrame, hopcode, hfinal]

/-- Any frame.  The cases are those of the source: control frames, a first fragment, a later one,
and the ones that are refused. -/
theorem processFrame_acted {frames : List Frame} {ch : Channel} {f : Frame}
    (hconsumed : ch.consumed = frames ++ [f]) (h : Coherent frames ch)
    (hfits : Fits (frames ++ [f])) : Acted (frames ++ [f]) (ch.processFrame f) := by
  have hother : f.opcode ≠ 0 ∧ f.opcode ≠ 1 ∧ f.opcode ≠ 2 → Coherent (frames ++ [f]) ch := by
    intro hopcode
    have hopen := openMessage_append_other frames hopcode
    exact ⟨fun hidle => hopen.trans (h.idle hidle), fun hactive => hopen ▸ h.active hactive⟩
  unfold processFrame
  split_ifs with h8 h9 h10 h0 hunsupported
  · exact closeFrame_complete hconsumed (hother (by omega)) f.payload
  · obtain ⟨output, masks, hsend⟩ := sendFrame_snd ch 10 f.payload
    rw [hsend]
    refine ⟨hconsumed, (hother (by omega)).of_fields rfl rfl rfl, ?_⟩
    intro m hm htype
    cases hm
    rcases htype with htype | htype <;> cases htype
  · refine ⟨hconsumed, hother (by omega), ?_⟩
    intro m hm htype
    cases hm
    rcases htype with htype | htype <;> cases htype
  · exact continuationFrame_acted hconsumed h hfits h0
  · exact complete_error hconsumed (hother (by omega))
  · exact dataFrame_acted hconsumed h (by omega)

/-- Acting on a frame consumes nothing.  What is read was consumed before `process_frame` is called.
-/
lemma processFrame_leave {ch ch' : Channel} {f : Frame} {r : Result Message}
    (h : ch.processFrame f = .leave (r, ch')) : ch'.consumed = ch.consumed := by
  have hclose : ∀ payload, (ch.closeFrame payload).2.consumed = ch.consumed := by
    intro payload
    unfold closeFrame
    dsimp only
    generalize (if 2 ≤ payload.length then fromBigEndian (payload.take 2) else 1000) = code
    split_ifs
    · rfl
    · rfl
    · obtain ⟨output, masks, hsend⟩ := sendFrame_snd { ch with isOpen := false } 8 payload
      rw [hsend]
      rfl
    · rfl
  unfold processFrame at h
  split_ifs at h
  · have hclosed := hclose f.payload
    rw [Loop.Next.leave.inj h] at hclosed
    exact hclosed
  · cases h
    obtain ⟨output, masks, hsend⟩ := sendFrame_snd ch 10 f.payload
    rw [hsend]
  · cases h
    rfl
  · unfold continuationFrame at h
    dsimp only at h
    split_ifs at h
    · cases h
      rfl
    · cases h
      rfl
    · split at h <;> cases h <;> rfl
  · cases h
    rfl
  · unfold dataFrame at h
    dsimp only at h
    split_ifs at h <;> cases h <;> rfl

/-- `read` only adds to the frames that were consumed. -/
lemma read_consumed (ch : Channel) : ch.consumed <+: ch.read.2.consumed := by
  refine Loop.run_induct readStep_decreases (P := fun ch r => ch.consumed <+: r.2.consumed) ?_ ?_ ch
  · rintro ch ⟨r, ch'⟩ h
    have houtcome := ch.readFrame_outcome
    unfold readStep at h
    generalize ch.readFrame = taken at houtcome h
    cases houtcome with
    | failed hsame hsize =>
      cases h
      exact hsame.consumed ▸ List.prefix_rfl
    | taken hsize => exact ⟨_, (processFrame_leave h).symm⟩
  · intro ch ch' r h ih
    have houtcome := ch.readFrame_outcome
    unfold readStep at h
    generalize ch.readFrame = taken at houtcome h
    cases houtcome with
    | failed hsame hsize => cases h
    | taken hsize => exact List.IsPrefix.trans ⟨_, (processFrame_again h).2.symm⟩ ih

/-- What one `read` comes to, if all messages keep to the limit.  The limit is in the hypothesis
because beyond it the source drops a fragment. -/
theorem read_complete {ch : Channel} (hcoherent : Coherent ch.consumed ch)
    (hfits : Fits ch.read.2.consumed) : Complete ch.read.2.consumed ch.read.1 ch.read.2 := by
  refine Loop.run_induct readStep_decreases (P := fun ch r => Coherent ch.consumed ch →
    (r = ch.read → Fits r.2.consumed → Complete r.2.consumed r.1 r.2)) ?_ ?_ ch hcoherent rfl hfits
  · rintro ch ⟨r, ch'⟩ h hcoherent - hfits
    have houtcome := ch.readFrame_outcome
    unfold readStep at h
    generalize ch.readFrame = taken at houtcome h
    cases houtcome with
    | failed hsame hsize =>
      cases h
      rw [hsame.consumed]
      exact complete_error hsame.consumed
        (hcoherent.of_fields hsame.fragmentedActive hsame.fragmentedType hsame.fragmented)
    | @taken f input hsize =>
      have hconsumed := processFrame_leave h
      dsimp only at hconsumed h hfits
      rw [hconsumed] at hfits ⊢
      have hacted := @processFrame_acted ch.consumed
        { ch with input, consumed := ch.consumed ++ [f] } f rfl (hcoherent.of_fields rfl rfl rfl)
        hfits
      rw [h] at hacted
      exact hacted
  · intro ch ch' r h ih hcoherent hr hfits
    have hread : ch.read = ch'.read := Loop.run_of_again readStep_decreases h
    have houtcome := ch.readFrame_outcome
    unfold readStep at h
    generalize ch.readFrame = taken at houtcome h
    cases houtcome with
    | failed hsame hsize => cases h
    | @taken f input hsize =>
      rw [hread] at hr
      have hstarts := read_consumed ch'
      dsimp only at h
      rw [← hr, (processFrame_again h).2] at hstarts
      have hacted := @processFrame_acted ch.consumed
        { ch with input, consumed := ch.consumed ++ [f] } f rfl (hcoherent.of_fields rfl rfl rfl)
        (hfits.of_prefix hstarts)
      rw [h] at hacted
      exact ih (hacted.1 ▸ hacted.2) hr hfits

/-! ### Runs -/

/-- The calls that a program makes on a channel.  Only `read` takes frames; the others may still
close the channel. -/
inductive Call where
  | read
  | send (data : Bytes) (binary : Bool)
  | ping (data : Bytes)
  | close (code : ℕ) (reason : Bytes)

/-- The channel after a call. -/
def next (ch : Channel) : Call → Option Channel
  | .read => some ch.read.2
  | .send data binary => some (ch.send data binary).2
  | .ping data => some (ch.ping data)
  | .close code reason => some (ch.close code reason)

/-- A channel that has not taken any frame yet. -/
structure Fresh (ch : Channel) : Prop where
  consumed : ch.consumed = []
  idle : ch.fragmentedActive = false

/-- A call other than `read` leaves the message and the frames. -/
lemma next_same {ch ch' : Channel} {call : Call} (h : next ch call = some ch')
    (hcall : call ≠ .read) : SameMessage ch ch' := by
  cases call with
  | read => exact absurd rfl hcall
  | send data binary =>
    have hframe : ∀ opcode, SameMessage ch (ch.sendFrame opcode data).2 := by
      intro opcode
      obtain ⟨output, masks, hsend⟩ := sendFrame_snd ch opcode data
      rw [hsend]
      exact ⟨rfl, rfl, rfl, rfl⟩
    cases h
    unfold send
    split_ifs
    · exact ⟨rfl, rfl, rfl, rfl⟩
    · exact ⟨rfl, rfl, rfl, rfl⟩
    · exact hframe 2
    · exact hframe 1
  | ping data =>
    cases h
    unfold ping
    split_ifs
    · obtain ⟨output, masks, hsend⟩ := sendFrame_snd ch 9 data
      rw [hsend]
      exact ⟨rfl, rfl, rfl, rfl⟩
    · exact ⟨rfl, rfl, rfl, rfl⟩
  | close code reason =>
    cases h
    obtain ⟨output, masks, isOpen, hclose⟩ := close_eq ch code reason
    rw [hclose]
    exact ⟨rfl, rfl, rfl, rfl⟩

/-- No call takes a frame back. -/
lemma next_consumed {ch ch' : Channel} {call : Call} (h : next ch call = some ch') :
    ch.consumed <+: ch'.consumed := by
  cases call with
  | read =>
    cases h
    exact read_consumed ch
  | send data binary => exact (next_same h (by simp)).consumed ▸ List.prefix_rfl
  | ping data => exact (next_same h (by simp)).consumed ▸ List.prefix_rfl
  | close code reason => exact (next_same h (by simp)).consumed ▸ List.prefix_rfl

/-- The channel stays coherent while all messages keep to the limit. -/
lemma next_coherent {ch ch' : Channel} {call : Call} (h : next ch call = some ch')
    (hfits : Fits ch'.consumed) (hcoherent : Coherent ch.consumed ch) :
    Coherent ch'.consumed ch' := by
  by_cases hread : call = .read
  · subst hread
    cases h
    exact (read_complete hcoherent hfits).coherent
  · have hsame := next_same h hread
    rw [hsame.consumed]
    exact hcoherent.of_fields hsame.fragmentedActive hsame.fragmentedType hsame.fragmented

/-- A run only adds to the frames that were consumed. -/
lemma run_consumed {ch t : Channel} {trace : List (Channel × Call)} (h : Run next ch trace t) :
    ch.consumed <+: t.consumed := by
  induction h with
  | start => exact List.prefix_rfl
  | step _ hnext ih => exact ih.trans (next_consumed hnext)

/-- A run whose messages keep to the limit. -/
lemma run_coherent {ch t : Channel} {trace : List (Channel × Call)} (hfresh : ch.Fresh)
    (h : Run next ch trace t) (hfits : Fits t.consumed) : Coherent t.consumed t := by
  induction h with
  | start =>
    rw [hfresh.consumed]
    exact ⟨fun _ => rfl, fun hactive => absurd (hfresh.idle.symm.trans hactive) (by decide)⟩
  | step _ hnext ih =>
    exact next_coherent hnext hfits (ih (hfits.of_prefix (next_consumed hnext)))

/-- While all messages keep to the limit, no message is delivered with a missing fragment. -/
theorem messages_complete {ch t : Channel} {trace : List (Channel × Call)} (hfresh : ch.Fresh)
    (hrun : Run next ch trace t) (hfits : Fits t.consumed) :
    ∀ v ∈ trace, v.2 = .read → ∀ m, v.1.read.1 = .ok m → m.type = .text ∨ m.type = .binary →
      Assembled v.1.read.2.consumed m := by
  rintro ⟨u, call⟩ hv hcall
  obtain rfl : call = .read := hcall
  obtain ⟨before, after, w, hbefore, hnext, hafter⟩ := hrun.split hv
  cases hnext
  have hfits' := hfits.of_prefix (run_consumed hafter)
  exact (read_complete (run_coherent hfresh hbefore (hfits'.of_prefix (read_consumed u)))
    hfits').message

/-! ### A message with a gap -/

/-- A message of three fragments. -/
def threeFragments (middle : Bytes) : List Frame :=
  [{ final := false, opcode := 2, payload := [1] },
    { final := false, opcode := 0, payload := middle },
    { final := true, opcode := 0, payload := [2] }]

/-- A client that receives some frames. -/
def receiver (frames : List Frame) : Channel :=
  { input := { buffer := frames.flatMap (frameBytes false fun _ => 0), reads := [] }
    clientSide := true }

/-- If the second fragment makes the message too large, the first `read` fails, and the second one
returns the message without it. -/
lemma read_threeFragments {middle : Bytes} (hmiddle : middle.length = maxMessage) :
    ∃ u v, (receiver (threeFragments middle)).read.2 = u ∧
      u.read = (.ok { type := .binary, data := [1, 2] }, v) ∧
      v.consumed = threeFragments middle := by
  have havailable : (receiver (threeFragments middle)).input.available =
      frameBytes (!true) (fun _ => 0) { final := false, opcode := 2, payload := [1] } ++
        (frameBytes (!true) (fun _ => 0) { final := false, opcode := 0, payload := middle } ++
          (frameBytes (!true) (fun _ => 0) { final := true, opcode := 0, payload := [2] } ++ [])) := by
    simp [receiver, threeFragments, Fragment.Source.available, Fragment.arriving]
  obtain ⟨input1, hstep1, havailable1⟩ :=
    readStep_frameBytes (acceptable_of_lt (by decide) (by decide)) havailable
  rw [processFrame_data (Or.inr rfl)] at hstep1
  obtain ⟨input2, hstep2, havailable2⟩ := @readStep_frameBytes
    { receiver (threeFragments middle) with
      input := input1, consumed := [{ final := false, opcode := 2, payload := [1] }]
      fragmentedActive := true, fragmentedType := .binary, fragmented := [1] } _ _ _
    (acceptable_of_lt (Nat.zero_lt_succ 7) hmiddle.le) havailable1
  have hlarge : maxMessage - [(1 : UInt8)].length < middle.length := by
    rw [hmiddle]
    decide
  rw [processFrame_continuation rfl, continuationFrame, if_neg (by simp), if_pos hlarge] at hstep2
  obtain ⟨input3, hstep3, -⟩ := @readStep_frameBytes
    { receiver (threeFragments middle) with
      input := input2
      consumed := [{ final := false, opcode := 2, payload := [1] },
        { final := false, opcode := 0, payload := middle }]
      fragmentedActive := true, fragmentedType := .binary, fragmented := [1] } _ _ _
    (acceptable_of_lt (by decide) (by decide)) havailable2
  refine ⟨_, _, ?_, Loop.run_of_leave readStep_decreases hstep3, rfl⟩
  exact congrArg Prod.snd
    ((Loop.run_of_again readStep_decreases hstep1).trans
      (Loop.run_of_leave readStep_decreases hstep2))

/-- The message that is returned is not what the frames make up. -/
lemma not_assembled_threeFragments {middle : Bytes} (hmiddle : middle ≠ []) :
    ¬ Assembled (threeFragments middle) { type := .binary, data := [1, 2] } := by
  rintro ⟨before, initial, rest, hframes, hinitial, hdata, -⟩
  have hdata' : initial.opcode = 2 := by
    rcases hinitial with ⟨-, htype⟩ | ⟨hopcode, -⟩
    · cases htype
    · exact hopcode
  rw [threeFragments] at hframes
  rcases before with _ | ⟨first, _ | ⟨second, _ | ⟨third, before⟩⟩⟩
  · cases hframes
    simp [payloads, hmiddle] at hdata
  · cases hframes
    cases hdata'
  · cases hframes
    cases hdata'
  · simp at hframes

/-- The fragment in the middle is as long as a message may be. -/
def refused : List Frame := threeFragments (List.replicate maxMessage 0)

/-- A refused fragment is missing from the message that is delivered.  The fragment above the limit
is refused with an error, but the message stays open. -/
theorem message_with_gap :
    ∃ trace t u m, (receiver refused).Fresh ∧ Run next (receiver refused) trace t ∧
      (u, Call.read) ∈ trace ∧ u.read.1 = .ok m ∧ m.type = .binary ∧
      ¬ Assembled u.read.2.consumed m := by
  have hlen : (List.replicate maxMessage (0 : UInt8)).length = maxMessage := List.length_replicate
  unfold refused
  generalize List.replicate maxMessage (0 : UInt8) = middle at hlen ⊢
  obtain ⟨u, v, hu, hv, hconsumed⟩ := read_threeFragments hlen
  have hfirst : next (receiver (threeFragments middle)) .read = some u := congrArg some hu
  have hsecond : next u .read = some v := congrArg (fun r => some (Prod.snd r)) hv
  have hne : middle ≠ [] := List.ne_nil_of_length_pos (by rw [hlen]; decide)
  refine ⟨_, v, u, _, ⟨rfl, rfl⟩, (Run.start.step hfirst).step hsecond, by simp,
    congrArg Prod.fst hv, rfl, ?_⟩
  rw [hv, hconsumed]
  exact not_assembled_threeFragments hne

/-- A message of two fragments that is read as a whole. -/
theorem messages_complete_of_two_fragments :
    Assembled (receiver [{ final := false, opcode := 1, payload := [0x68] },
        { final := true, opcode := 0, payload := [0x69] }]).read.2.consumed
      { type := .text, data := [0x68, 0x69] } := by
  refine messages_complete ⟨rfl, rfl⟩ (Run.start.step (a := .read) rfl) ?_ _
    (List.mem_singleton_self _) rfl _ rfl (Or.inl rfl)
  rintro before f ⟨after, hafter⟩ - fragments hopen
  rcases before with _ | ⟨first, _ | ⟨second, before⟩⟩
  · cases hopen
  · cases hafter
    cases hopen
    decide
  · obtain ⟨hnil, -⟩ :=
      List.nil_eq_append_iff.mp (List.cons.inj (List.cons.inj hafter.symm).2).2
    simp at hnil

end Channel

end Chhttp.WebSocket
