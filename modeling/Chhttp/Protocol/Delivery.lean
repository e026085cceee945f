import Chhttp.Common.Message
import Chhttp.Protocol.Head
import Chhttp.Protocol.Input

/-!
# Delivery of body blocks

The body readers hand every block to `deliver`, which enforces the size limit and passes the block
to the consumer of the options or appends it to the body.  Consumers are application code.  A
consumer is a function of all blocks handed to it so far, which covers every stateful callback; so
is the moment at which a cancellation or a deadline strikes.

`readPayload` is the loop over a known number of payload bytes that chunks and bodies with a
`Content-Length` share.  It consumes exactly those bytes (`readPayload_sound`), and without
callbacks it succeeds whenever they arrive within the limit (`readPayload_complete`).
-/

namespace Chhttp

open ListSearch Fragment

/-! ### Options and delivery -/

/-- How a callback reacts to a block.  It takes the block, it refuses it by returning `false`, or it
throws; the last two end the transfer with different errors. -/
inductive Reaction where
  | accepted
  | rejected
  | threw (thrown : Thrown)

/-- What can stop a transfer between two blocks.  The source polls for them before each block that
it hands on. -/
inductive Interruption where
  | cancelled
  | deadline

/-- `HttpReadOptions`, without the timeouts, which act through failed reads.  Each callback sees
the blocks delivered so far, the last one included. -/
structure HttpReadOptions where
  maxHeaderSize : ℕ := 64 * 1024
  maxBodySize : ℕ := 128 * 1024 * 1024
  autoDecompress : Bool := false
  onResponseHead : Option (ResponseHead → Reaction) := none
  onData : Option (List Bytes → Reaction) := none
  onDataAsync : Option (List Bytes → Reaction) := none
  onProgress : Option (List Bytes → Option ℕ → Reaction) := none
  /-- `cancelled()` or the deadline, looked at before a block is delivered. -/
  interrupted : List Bytes → Option Interruption := fun _ => none
  /-- The deadline, looked at after a block was delivered. -/
  expired : List Bytes → Bool := fun _ => false

/-- The error of an interruption. -/
def Interruption.error : Interruption → ErrorInfo
  | cancelled => { code := .cancelled, message := "Request cancelled" }
  | deadline => { code := .timeout, message := "Request deadline exceeded" }

/-- What has been delivered: `received` and `body` of the source, and the blocks handed on. -/
structure Delivery where
  received : ℕ := 0
  body : Bytes := []
  blocks : List Bytes := []

/-- The error of a callback's reaction, if it is one. -/
def Reaction.error (rejection failure : String) : Reaction → Option ErrorInfo
  | accepted => none
  | rejected => some { code := .cancelled, message := rejection }
  | threw thrown => some (callbackFailed failure thrown)

/-- The consumer of a block: `on_data`, else `on_data_async`, else the body itself. -/
def consumeBlock (options : HttpReadOptions) (d : Delivery) (data : Bytes) :
    Option ErrorInfo × Delivery :=
  match options.onData, options.onDataAsync with
  | some onData, _ =>
    ((onData d.blocks).error "HTTP body callback cancelled the transfer"
      "HTTP body callback failed", d)
  | none, some onDataAsync =>
    ((onDataAsync d.blocks).error "HTTP async body callback cancelled the transfer"
      "HTTP body callback failed", d)
  | none, none => (none, { d with body := d.body ++ data })

/-- The progress report after a block, and the deadline after it. -/
def afterBlock (options : HttpReadOptions) (d : Delivery) (total : Option ℕ) :
    Option ErrorInfo :=
  match options.onProgress.bind fun onProgress =>
      (onProgress d.blocks total).error "HTTP progress callback cancelled the transfer"
        "HTTP body callback failed" with
  | some e => some e
  | none => if options.expired d.blocks then some Interruption.deadline.error else none

/-- `deliver_now` and `deliver_awaited`, which differ in the consumer they serve. -/
def deliver (options : HttpReadOptions) (total : Option ℕ) (d : Delivery) (data : Bytes) :
    Option ErrorInfo × Delivery :=
  if data.isEmpty then (none, d)
  else
    match options.interrupted d.blocks with
    | some interruption => (some interruption.error, d)
    | none =>
      if options.maxBodySize < data.length ∨ options.maxBodySize - data.length < d.received then
        (some { code := .bodyTooLarge, message := "HTTP body exceeds configured limit" }, d)
      else
        match consumeBlock options
            { d with received := d.received + data.length, blocks := d.blocks ++ [data] } data with
        | (some e, d) => (some e, d)
        | (none, d) => (afterBlock options d total, d)

/-! ### Payload of a known size -/

/-- The state of a loop that reads payload. -/
structure PayloadState where
  remaining : ℕ
  input : Input
  delivery : Delivery

/-- One iteration of the loop over `remaining` bytes, which chunks and bodies of a given length
share.  Bytes that arrive while the buffer is empty go to the consumer directly. -/
def payloadStep (options : HttpReadOptions) (total : Option ℕ) (truncated : String)
    (s : PayloadState) : Loop.Next PayloadState (Option ErrorInfo × Input × Delivery) :=
  if s.remaining = 0 then .leave (none, s.input, s.delivery)
  else if s.input.buffer.isEmpty then
    match s.input.read with
    | (.failed e, input) => .leave (some e, input, s.delivery)
    | (.eof, input) => .leave (some (protocolError truncated), input, s.delivery)
    | (.data received, input) =>
      if received.isEmpty then .again { s with input }
      else
        let direct := min s.remaining received.length
        match deliver options total s.delivery (received.take direct) with
        | (some e, delivery) => .leave (some e, input, delivery)
        | (none, delivery) =>
          .again { remaining := s.remaining - direct,
                   input := input.append (received.drop direct), delivery }
  else
    let count := min s.remaining s.input.buffer.length
    match deliver options total s.delivery (s.input.buffer.take count) with
    | (some e, delivery) => .leave (some e, s.input, delivery)
    | (none, delivery) =>
      .again { remaining := s.remaining - count, input := s.input.consume count, delivery }

/-- The loop reads from the connection or gets closer to the end of the payload. -/
lemma payloadStep_decreases (options : HttpReadOptions) (total : Option ℕ) (truncated : String) :
    Loop.Decreases (payloadStep options total truncated)
      fun s => s.remaining + s.input.reads.length := by
  intro s s' h
  unfold payloadStep at h
  dsimp only at h
  split_ifs at h with h0 hempty
  · split at h
    · cases h
    · cases h
    · rename_i received input hread
      have hreads := (Source.reads_read hread).2
      split_ifs at h
      · cases h
        simp only
        omega
      · split at h
        · cases h
        · cases h
          simp only [Source.append_reads]
          omega
  · split at h
    · cases h
    · cases h
      have hpos : 0 < s.input.buffer.length :=
        List.length_pos_of_ne_nil (by simpa using hempty)
      simp only [Source.consume_reads]
      omega

/-- The loop over `remaining` bytes of payload. -/
def readPayload (options : HttpReadOptions) (total : Option ℕ) (truncated : String)
    (s : PayloadState) : Option ErrorInfo × Input × Delivery :=
  Loop.run (payloadStep options total truncated) (fun s => s.remaining + s.input.reads.length)
    (payloadStep_decreases options total truncated) s

/-! ### Delivered blocks -/

/-- The effect of delivering `data`.  The number of bytes received grows by its length, the blocks
continue the ones before, and without a consumer the data is appended to the body.  The limit is
kept. -/
structure Delivered (options : HttpReadOptions) (d : Delivery) (data : Bytes) (d' : Delivery) :
    Prop where
  received : d'.received = d.received + data.length
  blocks : d'.blocks.flatten = d.blocks.flatten ++ data
  body : options.onData = none → options.onDataAsync = none → d'.body = d.body ++ data
  limit : d.received ≤ options.maxBodySize → d'.received ≤ options.maxBodySize

/-- Options without callbacks: the body is buffered.  Then nothing but the limit and the transport
can end the transfer. -/
structure HttpReadOptions.Buffered (options : HttpReadOptions) : Prop where
  onData : options.onData = none
  onDataAsync : options.onDataAsync = none
  onProgress : options.onProgress = none
  interrupted : ∀ blocks, options.interrupted blocks = none
  expired : ∀ blocks, options.expired blocks = false

/-- Delivering nothing. -/
lemma Delivered.refl (options : HttpReadOptions) (d : Delivery) : Delivered options d [] d :=
  ⟨by simp, by simp, by simp, id⟩

/-- Delivering one block after another. -/
lemma Delivered.trans {options : HttpReadOptions} {d d' d'' : Delivery} {u v : Bytes}
    (hu : Delivered options d u d') (hv : Delivered options d' v d'') :
    Delivered options d (u ++ v) d'' := by
  refine ⟨?_, ?_, ?_, fun h => hv.limit (hu.limit h)⟩
  · rw [hv.received, hu.received, List.length_append, Nat.add_assoc]
  · rw [hv.blocks, hu.blocks, List.append_assoc]
  · intro h1 h2
    rw [hv.body h1 h2, hu.body h1 h2, List.append_assoc]

/-- A consumer does not touch the counters; without a consumer the block goes to the body. -/
lemma consumeBlock_eq {options : HttpReadOptions} {d d' : Delivery} {data : Bytes}
    {e : Option ErrorInfo} (h : consumeBlock options d data = (e, d')) :
    d'.received = d.received ∧ d'.blocks = d.blocks ∧
      (options.onData = none → options.onDataAsync = none → d'.body = d.body ++ data) := by
  unfold consumeBlock at h
  split at h
  · rename_i hdata
    cases h
    simp [hdata]
  · rename_i hasync
    cases h
    simp [hasync]
  · cases h
    simp

/-- A block that was delivered. -/
theorem delivered_of_deliver {options : HttpReadOptions} {total : Option ℕ} {d d' : Delivery}
    {data : Bytes} (h : deliver options total d data = (none, d')) :
    Delivered options d data d' := by
  unfold deliver at h
  by_cases hempty : data.isEmpty = true
  · rw [if_pos hempty] at h
    cases h
    rw [List.isEmpty_iff] at hempty
    subst hempty
    exact Delivered.refl options d
  · rw [if_neg hempty] at h
    split at h
    · cases h
    · split_ifs at h with hlimit
      · cases h
      split at h
      · cases h
      · rename_i d'' hconsume
        simp only [Prod.mk.injEq] at h
        obtain ⟨-, rfl⟩ := h
        obtain ⟨hreceived, hblocks, hbody⟩ := consumeBlock_eq hconsume
        refine ⟨hreceived, by rw [hblocks]; simp, hbody, ?_⟩
        intro _
        rw [hreceived]
        simp only
        omega

/-- Without callbacks, a block within the limit is delivered. -/
theorem deliver_of_buffered {options : HttpReadOptions} (hb : options.Buffered)
    (total : Option ℕ) {d : Delivery} {data : Bytes}
    (hlimit : d.received + data.length ≤ options.maxBodySize) :
    ∃ d', deliver options total d data = (none, d') := by
  unfold deliver
  by_cases hempty : data.isEmpty = true
  · exact ⟨d, if_pos hempty⟩
  · rw [if_neg hempty, hb.interrupted]
    simp only
    rw [if_neg (by omega)]
    simp [consumeBlock, afterBlock, hb.onData, hb.onDataAsync, hb.onProgress, hb.expired]

/-! ### Payload -/

/-- Putting nothing behind the buffer. -/
lemma append_nil_eq (input : Input) : input.append [] = input := by
  cases input
  simp [Source.append]

/-- Bytes that arrive into an empty buffer: some are passed on, the others are buffered. -/
lemma append_drop_eq {input : Input} (h : input.buffer = []) (received : Bytes) (n : ℕ) :
    input.append (received.drop n) = (input.append received).consume n := by
  simp [Source.append, Source.consume, h]

/-- An iteration that repeats delivers some of the bytes that are there.  With the bytes that are
consumed later, these are consumed from the front. -/
lemma payloadStep_again {options : HttpReadOptions} {total : Option ℕ} {truncated : String}
    {s s' : PayloadState} (h : payloadStep options total truncated s = .again s') :
    ∃ data, data.length ≤ s.remaining ∧ s'.remaining = s.remaining - data.length ∧
      s.input.available = data ++ s'.input.available ∧
      Delivered options s.delivery data s'.delivery ∧
      ∀ more after, more.length = s'.remaining → s'.input.Took more after →
        s.input.Took (data ++ more) after := by
  unfold payloadStep at h
  dsimp only at h
  split_ifs at h with hzero hempty
  · rw [List.isEmpty_iff] at hempty
    split at h
    · cases h
    · cases h
    · rename_i received rest hread
      have hbuffer : rest.buffer = [] := (Source.reads_read hread).1.trans hempty
      have havail := Source.available_read hread
      -- the word was not in the buffer, which is empty
      have hread' : ∀ {p : Bytes} {after : Input}, p.length = s.remaining →
          (rest.append received).Took p after → s.input.Took p after := by
        intro p after hp htook
        refine Source.took_of_read hread ?_ htook
        rw [hempty, hp, List.length_nil]
        omega
      split_ifs at h with hreceived
      · cases h
        rw [List.isEmpty_iff] at hreceived
        subst hreceived
        rw [append_nil_eq] at havail hread'
        exact ⟨[], Nat.zero_le _, rfl, havail.symm, Delivered.refl _ _,
          fun more after hmore htook => hread' hmore htook⟩
      · split at h
        · cases h
        · rename_i d' hdeliver
          cases h
          have htake : (received.take (min s.remaining received.length)).length =
              min s.remaining received.length := by
            rw [List.length_take]
            omega
          have hfirst : (rest.append received).Took
              (received.take (min s.remaining received.length))
              ((rest.append received).consume (min s.remaining received.length)) := by
            have := Source.took_consume (s := rest.append received)
              (n := min s.remaining received.length) (by simp)
            simpa [hbuffer] using this
          refine ⟨received.take (min s.remaining received.length), ?_, ?_, ?_,
            delivered_of_deliver hdeliver, fun more after hmore htook => hread' ?_ ?_⟩
          · rw [htake]
            exact min_le_left _ _
          · rw [htake]
          · rw [← havail, append_drop_eq hbuffer, (rest.append received).available_consume
              (min s.remaining received.length), Source.append_buffer, hbuffer, List.nil_append]
          · rw [List.length_append, htake, hmore]
            dsimp only
            omega
          · rw [append_drop_eq hbuffer] at htook
            exact hfirst.trans htook
  · split at h
    · cases h
    · rename_i d' hdeliver
      cases h
      have htake : (s.input.buffer.take (min s.remaining s.input.buffer.length)).length =
          min s.remaining s.input.buffer.length := by
        rw [List.length_take]
        omega
      refine ⟨s.input.buffer.take (min s.remaining s.input.buffer.length), ?_, ?_,
        s.input.available_consume _, delivered_of_deliver hdeliver, fun more after _ htook =>
          (Source.took_consume (min_le_right _ _)).trans htook⟩
      · rw [htake]
        exact min_le_left _ _
      · rw [htake]

/-- The loop over the payload consumes and delivers exactly its bytes.  A block goes to the consumer
as it arrives; how the bytes fall into blocks is left open. -/
theorem readPayload_sound {options : HttpReadOptions} {total : Option ℕ} {truncated : String}
    {s : PayloadState} {input : Input} {d : Delivery}
    (h : readPayload options total truncated s = (none, input, d)) :
    ∃ data, data.length = s.remaining ∧ s.input.Took data input ∧
      Delivered options s.delivery data d := by
  let Post : PayloadState → Option ErrorInfo × Input × Delivery → Prop := fun s a =>
    ∀ input d, a = (none, input, d) →
      ∃ data, data.length = s.remaining ∧ s.input.Took data input ∧
        Delivered options s.delivery data d
  have hrun : Post s (readPayload options total truncated s) := by
    refine Loop.run_induct (payloadStep_decreases options total truncated) ?_ ?_ s
    · rintro s a hb input d rfl
      unfold payloadStep at hb
      dsimp only at hb
      split_ifs at hb with h0 hempty
      · cases hb
        exact ⟨[], by simp [h0], Source.Took.refl _, Delivered.refl _ _⟩
      · split at hb
        · cases hb
        · cases hb
        · split_ifs at hb
          split at hb <;> cases hb
      · split at hb <;> cases hb
    · intro s s' a hb ih input d ha
      obtain ⟨data, hlen, hremaining, -, hdel, htook⟩ := payloadStep_again hb
      obtain ⟨more, hmore, htook', hdel'⟩ := ih input d ha
      refine ⟨data ++ more, ?_, htook more input hmore htook', hdel.trans hdel'⟩
      rw [List.length_append, hmore, hremaining]
      omega
  exact hrun input d h

/-- Without callbacks, the payload is read when it is there and within the limit. -/
theorem readPayload_complete {options : HttpReadOptions} (hbuf : options.Buffered)
    {total : Option ℕ} {truncated : String} {s : PayloadState} {data rest : Bytes}
    (havail : s.input.available = data ++ rest) (hlen : data.length = s.remaining)
    (hlimit : s.delivery.received + s.remaining ≤ options.maxBodySize) :
    ∃ input d, readPayload options total truncated s = (none, input, d) ∧
      s.input.Took data input ∧ Delivered options s.delivery data d := by
  let Post : PayloadState → Option ErrorInfo × Input × Delivery → Prop := fun s a =>
    ∀ data rest, s.input.available = data ++ rest → data.length = s.remaining →
      s.delivery.received + s.remaining ≤ options.maxBodySize → ∃ input d, a = (none, input, d)
  have hrun : Post s (readPayload options total truncated s) := by
    refine Loop.run_induct (payloadStep_decreases options total truncated) ?_ ?_ s
    · rintro s a hb data rest havail hlen hlimit
      unfold payloadStep at hb
      dsimp only at hb
      split_ifs at hb with h0 hempty
      · cases hb
        exact ⟨_, _, rfl⟩
      · rw [List.isEmpty_iff] at hempty
        have hsettled : ¬ s.input.Settled := by
          intro hs
          have hnil := hs.available_eq
          rw [havail, hempty, List.append_eq_nil_iff] at hnil
          rw [hnil.1, List.length_nil] at hlen
          exact h0 hlen.symm
        obtain ⟨received, more, hread⟩ := Source.exists_read_of_not_settled hsettled
        rw [hread] at hb
        simp only at hb
        split_ifs at hb
        have hfits : s.delivery.received + (received.take (min s.remaining received.length)).length
            ≤ options.maxBodySize := by
          rw [List.length_take]
          omega
        obtain ⟨d', hd'⟩ := deliver_of_buffered hbuf total hfits
        rw [hd'] at hb
        cases hb
      · have hfits : s.delivery.received +
            (s.input.buffer.take (min s.remaining s.input.buffer.length)).length
              ≤ options.maxBodySize := by
          rw [List.length_take]
          omega
        obtain ⟨d', hd'⟩ := deliver_of_buffered hbuf total hfits
        rw [hd'] at hb
        cases hb
    · intro s s' a hb ih data rest havail hlen hlimit
      obtain ⟨front, hfront, hremaining, hsplit, hdel, -⟩ := payloadStep_again hb
      have hreceived := hdel.received
      -- what was delivered is the beginning of the payload
      obtain ⟨data', rfl⟩ : front <+: data := by
        refine List.prefix_of_prefix_length_le ?_ (List.prefix_append data rest) (by omega)
        rw [← havail, hsplit]
        exact List.prefix_append _ _
      rw [hsplit, List.append_assoc, List.append_cancel_left_eq] at havail
      rw [List.length_append] at hlen
      exact ih data' rest havail (by omega) (by omega)
  obtain ⟨input, d, hread⟩ := hrun data rest havail hlen hlimit
  obtain ⟨data', hlen', htook, hdel⟩ := readPayload_sound hread
  have heq := htook.available.symm.trans havail
  obtain ⟨rfl, -⟩ := List.append_inj heq (hlen'.trans hlen.symm)
  exact ⟨input, d, hread, htook, hdel⟩

end Chhttp
