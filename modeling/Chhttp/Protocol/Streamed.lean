import Chhttp.Lib.Lockstep
import Chhttp.Protocol.Request

/-!
# Streamed bodies

A body is buffered, or its blocks are handed to a consumer.  The readers take different branches for
the two: `deliver`, the loops over chunks, over a known length and up to the end of the connection,
and the decoder.  A consumer that accepts every block runs in lockstep with the buffered reader:
both read the same bytes, fail with the same error at the same place, and leave the same fields,
and the blocks put together are the buffered body (`readRequestBody_handing`,
`readRequestBody_whole`).
-/

namespace Chhttp

open ListSearch Fragment

/-! ### The blocks are handed on -/

/-- Options without a consumer, for which the blocks become the body.  The callback on progress and
the interruptions may be there: they do not change what becomes of a block. -/
structure HttpReadOptions.Keeps (options : HttpReadOptions) : Prop where
  onData : options.onData = none
  onDataAsync : options.onDataAsync = none

/-- The same options with a consumer. -/
def HttpReadOptions.handing (options : HttpReadOptions) (react : List Bytes → Reaction) :
    HttpReadOptions :=
  { options with onDataAsync := some react }

/-- What has been delivered, when the consumer has the blocks. -/
def Delivery.handed (d : Delivery) : Delivery := { d with body := [] }

/-- The state of the loop over payload, when the consumer has the blocks. -/
def PayloadState.handed (s : PayloadState) : PayloadState :=
  { s with delivery := s.delivery.handed }

/-- The state of the other loops. -/
def ChunkState.handed (s : ChunkState) : ChunkState := { s with delivery := s.delivery.handed }

/-- What a reader returns, when the consumer has the blocks. -/
def BodyRead.handed (r : BodyRead) : BodyRead :=
  { r with result := r.result.map fun _ => [], delivery := r.delivery.handed }

/-- What the reader of a request body returns. -/
def RequestBodyRead.handed (r : RequestBodyRead) : RequestBodyRead :=
  { r with result := r.result.map fun _ => [] }

/-- The consumer has been handed all blocks. -/
@[simp] lemma Delivery.handed_blocks (d : Delivery) : d.handed.blocks = d.blocks := rfl

/-- A consumer accepts these blocks, one after another.  Only its reactions to these blocks matter,
not those to others. -/
def Accepts (react : List Bytes → Reaction) (blocks : List Bytes) : Prop :=
  ∀ first, first <+: blocks → first ≠ [] → react first = .accepted

/-- The last of the blocks, and those before it. -/
lemma Accepts.of_append {react : List Bytes → Reaction} {blocks : List Bytes} {data : Bytes}
    (h : Accepts react (blocks ++ [data])) :
    Accepts react blocks ∧ react (blocks ++ [data]) = .accepted := by
  refine ⟨fun first hfirst => h first (hfirst.trans (List.prefix_append blocks [data])), ?_⟩
  exact h _ (List.prefix_refl _) (List.append_ne_nil_of_right_ne_nil _ (List.cons_ne_nil _ _))

section Handing

variable {options : HttpReadOptions} {react : List Bytes → Reaction}

/-- The limit of the head does not depend on the consumer. -/
@[simp] lemma HttpReadOptions.handing_maxHeaderSize :
    (options.handing react).maxHeaderSize = options.maxHeaderSize := rfl

/-- Interruptions do not depend on the consumer. -/
@[simp] lemma HttpReadOptions.handing_interrupted :
    (options.handing react).interrupted = options.interrupted := rfl

/-- A block is delivered alike.  A handler is called with the bytes that would have been appended.
-/
lemma deliver_handing (hkeeps : options.Keeps) (total : Option ℕ) (d : Delivery) (data : Bytes)
    (h : Accepts react (deliver options total d data).2.blocks) :
    Accepts react d.blocks ∧ deliver (options.handing react) total d.handed data =
      Prod.map id Delivery.handed (deliver options total d data) := by
  unfold deliver at h ⊢
  rw [HttpReadOptions.handing_interrupted, Delivery.handed_blocks]
  by_cases hempty : data.isEmpty = true
  · simp only [if_pos hempty] at h ⊢
    exact ⟨h, rfl⟩
  · simp only [if_neg hempty] at h ⊢
    cases hinterrupted : options.interrupted d.blocks with
    | some interruption =>
      rw [hinterrupted] at h
      exact ⟨h, rfl⟩
    | none =>
      rw [hinterrupted] at h
      dsimp only at h ⊢
      by_cases hlimit : options.maxBodySize < data.length ∨
          options.maxBodySize - data.length < d.received
      · rw [if_pos hlimit] at h
        exact ⟨h, (if_pos hlimit).trans (by rw [if_pos hlimit]; rfl)⟩
      · -- the block reaches the consumer, which accepts it, or the body
        have hbody : consumeBlock options ⟨d.received + data.length, d.body, d.blocks ++ [data]⟩
            data = (none, ⟨d.received + data.length, d.body ++ data, d.blocks ++ [data]⟩) := by
          simp [consumeBlock, hkeeps.onData, hkeeps.onDataAsync]
        rw [if_neg hlimit, hbody] at h
        obtain ⟨hbefore, hreact⟩ := Accepts.of_append h
        have hconsumed : consumeBlock (options.handing react)
            ⟨d.received + data.length, [], d.blocks ++ [data]⟩ data =
              (none, ⟨d.received + data.length, [], d.blocks ++ [data]⟩) := by
          simp [consumeBlock, HttpReadOptions.handing, hkeeps.onData, hreact, Reaction.error]
        refine ⟨hbefore, (if_neg hlimit).trans ?_⟩
        rw [if_neg hlimit, hbody]
        dsimp only [Delivery.handed]
        rw [hconsumed]
        rfl

/-- An iteration of the loop over payload. -/
lemma payloadStep_handing (hkeeps : options.Keeps) (total : Option ℕ) (truncated : String)
    (s : PayloadState) (h : (payloadStep options total truncated s).Holds
      (fun s => Accepts react s.delivery.blocks) fun r => Accepts react r.2.2.blocks) :
    Accepts react s.delivery.blocks ∧
      payloadStep (options.handing react) total truncated s.handed =
        (payloadStep options total truncated s).map PayloadState.handed
          (Prod.map id (Prod.map id Delivery.handed)) := by
  unfold payloadStep at h ⊢
  dsimp only [PayloadState.handed] at h ⊢
  by_cases hzero : s.remaining = 0
  · simp only [hzero, ↓reduceIte] at h ⊢
    exact ⟨h, rfl⟩
  · simp only [hzero, ↓reduceIte] at h ⊢
    by_cases hempty : s.input.buffer.isEmpty = true
    · simp only [hempty, ↓reduceIte] at h ⊢
      rcases hread : s.input.read with ⟨received | _ | e, input⟩ <;> rw [hread] at h <;>
        dsimp only at h ⊢
      · by_cases hreceived : received.isEmpty = true
        · simp only [hreceived, ↓reduceIte] at h ⊢
          exact ⟨h, rfl⟩
        · simp only [hreceived] at h ⊢
          have hdeliver := @deliver_handing options react hkeeps total s.delivery
            (received.take (min s.remaining received.length))
          rcases hresult : deliver options total s.delivery
            (received.take (min s.remaining received.length)) with ⟨_ | e, d⟩ <;>
          · rw [hresult] at h hdeliver
            obtain ⟨hbefore, heq⟩ := hdeliver h
            rw [heq]
            exact ⟨hbefore, rfl⟩
      · exact ⟨h, rfl⟩
      · exact ⟨h, rfl⟩
    · simp only [hempty] at h ⊢
      have hdeliver := @deliver_handing options react hkeeps total s.delivery
        (s.input.buffer.take (min s.remaining s.input.buffer.length))
      rcases hresult : deliver options total s.delivery
        (s.input.buffer.take (min s.remaining s.input.buffer.length)) with ⟨_ | e, d⟩ <;>
      · rw [hresult] at h hdeliver
        obtain ⟨hbefore, heq⟩ := hdeliver h
        rw [heq]
        exact ⟨hbefore, rfl⟩

/-- The loop over payload. -/
lemma readPayload_handing (hkeeps : options.Keeps) (total : Option ℕ) (truncated : String)
    (s : PayloadState) (h : Accepts react (readPayload options total truncated s).2.2.blocks) :
    Accepts react s.delivery.blocks ∧ readPayload (options.handing react) total truncated s.handed =
      Prod.map id (Prod.map id Delivery.handed) (readPayload options total truncated s) :=
  Loop.run_map (payloadStep_decreases options total truncated)
    (payloadStep_decreases (options.handing react) total truncated)
    (payloadStep_handing hkeeps total truncated) s h

/-- An iteration of the loop over the chunks. -/
lemma chunkStep_handing (hkeeps : options.Keeps) (s : ChunkState)
    (h : (chunkStep options s).Holds (fun s => Accepts react s.delivery.blocks)
      fun r => Accepts react r.delivery.blocks) :
    Accepts react s.delivery.blocks ∧ chunkStep (options.handing react) s.handed =
      (chunkStep options s).map ChunkState.handed BodyRead.handed := by
  unfold chunkStep at h ⊢
  dsimp only [ChunkState.handed] at h ⊢
  rw [HttpReadOptions.handing_maxHeaderSize]
  rcases hsize : readChunkSize s.input with ⟨e | size, input⟩ <;> rw [hsize] at h <;>
    dsimp only at h ⊢
  · exact ⟨h, rfl⟩
  · by_cases hzero : size = 0
    · simp only [hzero, ↓reduceIte] at h ⊢
      rcases htrailers : readTrailers options.maxHeaderSize s.headers input
        with ⟨_ | e, headers, input⟩ <;>
      · rw [htrailers] at h
        exact ⟨h, rfl⟩
    · simp only [hzero, ↓reduceIte] at h ⊢
      by_cases hlimit : options.maxBodySize < size ∨
          options.maxBodySize - size < s.delivery.received
      · rw [if_pos hlimit] at h
        exact ⟨h, (if_pos hlimit).trans (by rw [if_pos hlimit]; rfl)⟩
      · rw [if_neg hlimit] at h
        have hpayload := @readPayload_handing options react hkeeps none
          "Unexpected end of HTTP chunk" { remaining := size, input, delivery := s.delivery }
        rw [PayloadState.handed] at hpayload
        rcases hresult : readPayload options none "Unexpected end of HTTP chunk"
          { remaining := size, input, delivery := s.delivery } with ⟨_ | e, input', d⟩
        · rw [hresult] at h hpayload
          dsimp only at h
          rcases hend : readChunkEnd input' with ⟨_ | e, input''⟩ <;>
          · rw [hend] at h
            obtain ⟨hbefore, heq⟩ := hpayload h
            refine ⟨hbefore, (if_neg hlimit).trans ?_⟩
            rw [if_neg hlimit, heq]
            simp only [Prod.map_apply, id_eq, hend]
            rfl
        · rw [hresult] at h hpayload
          obtain ⟨hbefore, heq⟩ := hpayload h
          refine ⟨hbefore, (if_neg hlimit).trans ?_⟩
          rw [if_neg hlimit, heq]
          rfl

/-- An iteration of the loop up to the end of the connection. -/
lemma untilEofStep_handing (hkeeps : options.Keeps) (s : ChunkState)
    (h : (untilEofStep options s).Holds (fun s => Accepts react s.delivery.blocks)
      fun r => Accepts react r.delivery.blocks) :
    Accepts react s.delivery.blocks ∧ untilEofStep (options.handing react) s.handed =
      (untilEofStep options s).map ChunkState.handed BodyRead.handed := by
  unfold untilEofStep at h ⊢
  dsimp only [ChunkState.handed] at h ⊢
  rcases hread : s.input.read with ⟨received | _ | e, input⟩ <;> rw [hread] at h <;>
    dsimp only at h ⊢
  · have hdeliver := @deliver_handing options react hkeeps none s.delivery received
    rcases hresult : deliver options none s.delivery received with ⟨_ | e, d⟩ <;>
    · rw [hresult] at h hdeliver
      obtain ⟨hbefore, heq⟩ := hdeliver h
      rw [heq]
      exact ⟨hbefore, rfl⟩
  · exact ⟨h, rfl⟩
  · exact ⟨h, rfl⟩

/-- A body that ends with the connection. -/
lemma readUntilEof_handing (hkeeps : options.Keeps) (s : ChunkState)
    (h : Accepts react (readUntilEof options s).delivery.blocks) :
    readUntilEof (options.handing react) s.handed = (readUntilEof options s).handed := by
  unfold readUntilEof at h ⊢
  dsimp only [ChunkState.handed] at h ⊢
  have hdeliver := @deliver_handing options react hkeeps none s.delivery s.input.buffer
  rcases hresult : deliver options none s.delivery s.input.buffer with ⟨_ | e, d⟩
  · rw [hresult] at h hdeliver
    obtain ⟨hbefore, hrun⟩ := Loop.run_map (untilEofStep_decreases options)
      (untilEofStep_decreases (options.handing react)) (untilEofStep_handing hkeeps)
      { s with input := s.input.consume s.input.buffer.length, delivery := d } h
    rw [(hdeliver hbefore).2]
    exact hrun
  · rw [hresult] at h hdeliver
    rw [(hdeliver h).2]
    rfl

/-- A body of known length. -/
lemma readFixed_handing (hkeeps : options.Keeps) (total : ℕ) (s : ChunkState)
    (h : Accepts react (readFixed options total s).delivery.blocks) :
    readFixed (options.handing react) total s.handed = (readFixed options total s).handed := by
  unfold readFixed at h ⊢
  dsimp only [ChunkState.handed]
  by_cases hlimit : options.maxBodySize < total
  · exact (if_pos hlimit).trans (by rw [if_pos hlimit]; rfl)
  · rw [if_neg hlimit] at h
    have hpayload := @readPayload_handing options react hkeeps (some total) "Truncated HTTP body"
      { remaining := total, input := s.input, delivery := s.delivery }
    rw [PayloadState.handed] at hpayload
    refine (if_neg hlimit).trans ?_
    rw [if_neg hlimit]
    rcases hresult : readPayload options (some total) "Truncated HTTP body"
      { remaining := total, input := s.input, delivery := s.delivery } with ⟨_ | e, input, d⟩ <;>
    · rw [hresult] at h hpayload
      rw [(hpayload h).2]
      rfl

/-- A body is read alike.  With a consumer that accepts the same blocks, the reader consumes the
same bytes and fails in the same cases; only the body is empty. -/
theorem readBody_handing (hkeeps : options.Keeps) (head : ParsedHead) (untilEof noBody : Bool)
    (input : Input)
    (h : Accepts react (readBody options head untilEof noBody input).delivery.blocks) :
    readBody (options.handing react) head untilEof noBody input =
      (readBody options head untilEof noBody input).handed := by
  let s : ChunkState := { headers := head.headers, input, delivery := {} }
  unfold readBody at h ⊢
  dsimp only at h ⊢
  by_cases hno : noBody = true
  · rw [if_pos hno, if_pos hno]
    rfl
  · rw [if_neg hno] at h ⊢
    rw [if_neg hno]
    by_cases hchunked : head.chunked = true
    · rw [if_pos hchunked] at h ⊢
      rw [if_pos hchunked]
      exact (Loop.run_map (chunkStep_decreases options)
        (chunkStep_decreases (options.handing react)) (chunkStep_handing hkeeps) s h).2
    · rw [if_neg hchunked] at h ⊢
      rw [if_neg hchunked]
      cases hlength : head.contentLength with
      | some total =>
        rw [hlength] at h
        exact readFixed_handing hkeeps total s h
      | none =>
        rw [hlength] at h
        cases untilEof with
        | true => exact readUntilEof_handing hkeeps s h
        | false => rfl

/-! ### Decoded bodies -/

/-- Without an expectation and a content coding to be removed, the plain reader reads the body. -/
lemma readRequestBody_plain {decoder : Decoder} {state : RequestBodyState}
    (hexpect : state.expectContinue = false)
    (hcoding : contentCoding options state.headers = none) {input : Input} {output : Output} :
    readRequestBody decoder options state input output =
      readPlainRequestBody options state input output := by
  unfold readRequestBody
  rw [sendContinue, hexpect, Bool.false_and, if_neg Bool.false_ne_true]
  dsimp only
  rw [hcoding]

/-- A body whose content coding stays is read alike, when the consumer accepts its blocks.  This is
what lets a streaming handler see the body that a buffering one would have got. -/
theorem readPlainRequestBody_handing (hkeeps : options.Keeps) (state : RequestBodyState)
    (input : Input) (output : Output)
    (h : Accepts react (readPlainRequestBody options state input output).delivered) :
    readPlainRequestBody (options.handing react) state input output =
      (readPlainRequestBody options state input output).handed := by
  unfold readPlainRequestBody at h ⊢
  rw [readBody_handing hkeeps state.head false false input h]
  rfl

end Handing

/-! ### The blocks are the body -/

/-- The body consists of the blocks. -/
def Delivery.Whole (d : Delivery) : Prop := d.body = d.blocks.flatten

section Whole

variable {options : HttpReadOptions}

/-- Delivery adds the same bytes to the body and to the blocks. -/
lemma Delivered.whole (hkeeps : options.Keeps) {d d' : Delivery} {data : Bytes}
    (h : Delivered options d data d') (hd : d.Whole) : d'.Whole := by
  rw [Delivery.Whole, h.body hkeeps.onData hkeeps.onDataAsync, h.blocks, hd]

/-- A body that ends with the connection consists of its blocks.  Nothing is appended that was not
delivered as a block. -/
lemma readUntilEof_whole (hkeeps : options.Keeps) {s : ChunkState} (hs : s.delivery.Whole)
    {body : Bytes} (h : (readUntilEof options s).result = .ok body) :
    body = (readUntilEof options s).delivery.blocks.flatten := by
  unfold readUntilEof at h ⊢
  rcases hdeliver : deliver options none s.delivery s.input.buffer with ⟨_ | e, d⟩
  · rw [hdeliver] at h
    have hd : d.Whole := (delivered_of_deliver hdeliver).whole hkeeps hs
    dsimp only at h ⊢
    refine Loop.run_induct (untilEofStep_decreases options)
      (P := fun s r => s.delivery.Whole → ∀ body, r.result = .ok body →
        body = r.delivery.blocks.flatten) ?_ ?_ _ hd body h
    · intro s r hb hs body hr
      unfold untilEofStep at hb
      split at hb
      · cases hb
        cases hr
      · cases hb
        cases hr
        exact hs
      · split at hb
        · cases hb
          cases hr
        · cases hb
    · intro s s' r hb hr hs
      unfold untilEofStep at hb
      split at hb
      · cases hb
      · cases hb
      · split at hb
        · cases hb
        · rename_i hdeliver
          cases hb
          exact hr ((delivered_of_deliver hdeliver).whole hkeeps hs)
  · rw [hdeliver] at h
    cases h

/-- A body that was read consists of the blocks that were delivered. -/
theorem readBody_whole (hkeeps : options.Keeps) {head : ParsedHead} {untilEof noBody : Bool}
    {input : Input} {body : Bytes}
    (h : (readBody options head untilEof noBody input).result = .ok body) :
    body = (readBody options head untilEof noBody input).delivery.blocks.flatten := by
  have hnone : Delivery.Whole {} := rfl
  unfold readBody at h ⊢
  dsimp only at h ⊢
  by_cases hno : noBody = true
  · rw [if_pos hno] at h ⊢
    cases h
    rfl
  · rw [if_neg hno] at h ⊢
    by_cases hchunked : head.chunked = true
    · rw [if_pos hchunked] at h ⊢
      obtain ⟨frame, fields, htaken⟩ := readChunked_sound h
      rw [htaken.result] at h
      cases h
      exact htaken.delivered.whole hkeeps hnone
    · rw [if_neg hchunked] at h ⊢
      cases hlength : head.contentLength with
      | some total =>
        rw [hlength] at h
        obtain ⟨data, -, -, -, hdelivered, hbody, -⟩ := readFixed_sound h
        rw [hbody]
        exact hdelivered.whole hkeeps hnone
      | none =>
        rw [hlength] at h
        cases untilEof with
        | true => exact readUntilEof_whole hkeeps hnone h
        | false =>
          cases h
          rfl

/-- A decoded block is added to the body and to the blocks, or to neither. -/
lemma consumeDecoded_whole (hkeeps : options.Keeps) (mode : DecodedMode) {d : Delivery}
    (hd : d.Whole) (data : Bytes) : (consumeDecoded mode options d data).2.Whole := by
  have hconsumed : (consumeDecoded.consumed mode options d data).2.Whole := by
    simp [consumeDecoded.consumed, consumeDecodedBlock, hkeeps.onData, hkeeps.onDataAsync,
      Delivery.Whole, List.flatten_append, hd.symm]
  unfold consumeDecoded
  by_cases hempty : data.isEmpty = true
  · rw [if_pos hempty]
    exact hd
  · rw [if_neg hempty]
    cases options.interrupted d.blocks with
    | some interruption => exact hd
    | none =>
      cases mode.limit with
      | none => exact hconsumed
      | some message =>
        dsimp only
        split
        · exact hd
        · exact hconsumed

/-- So are the blocks of one `feed`. -/
lemma consumeAll_whole (hkeeps : options.Keeps) (mode : DecodedMode) (datas : List Bytes)
    (error : Option ErrorInfo) {d : Delivery} (hd : d.Whole) :
    (consumeAll mode options datas error d).2.Whole := by
  induction datas generalizing d with
  | nil => exact hd
  | cons data more ih =>
    have hdata := consumeDecoded_whole hkeeps mode hd data
    rw [consumeAll]
    rcases hconsume : consumeDecoded mode options d data with ⟨_ | e, d'⟩
    · rw [hconsume] at hdata
      exact ih hdata
    · rw [hconsume] at hdata
      exact hdata

/-- So are all decoded blocks. -/
lemma decodeEnd_whole (hkeeps : options.Keeps) (decoder : Decoder) (mode : DecodedMode)
    (encoding : Bytes) (blocks : List Bytes) :
    (decodeEnd decoder mode options encoding blocks).2.Whole := by
  refine consumeAll_whole hkeeps mode _ _ ?_
  unfold decodeBlocks
  dsimp only
  refine List.foldlRecOn (motive := fun s : List Bytes × Option ErrorInfo × Delivery =>
    s.2.2.Whole) blocks _ rfl ?_
  intro s hs block _
  exact consumeAll_whole hkeeps mode _ _ hs

/-- The body of a request consists of the blocks that were delivered. -/
theorem readRequestBody_whole (hkeeps : options.Keeps) {decoder : Decoder}
    {state : RequestBodyState} {input : Input} {output : Output} {body : Bytes}
    (h : (readRequestBody decoder options state input output).result = .ok body) :
    body = (readRequestBody decoder options state input output).delivered.flatten := by
  unfold readRequestBody at h ⊢
  rcases hcontinue : sendContinue state output with ⟨_ | e, state', output'⟩
  · rw [hcontinue] at h
    dsimp only at h ⊢
    cases hcoding : contentCoding options state'.headers with
    | none =>
      rw [hcoding] at h
      exact readBody_whole hkeeps h
    | some encoding =>
      rw [hcoding] at h
      dsimp only at h ⊢
      unfold readDecodedRequestBody at h ⊢
      cases hcreate : decoder.create encoding options.maxBodySize with
      | some e =>
        rw [hcreate] at h
        cases h
      | none =>
        rw [hcreate] at h
        dsimp only at h ⊢
        cases hread : (readBody (decodedOptions decoder requestDecoded options encoding) state'.head
            false false input).result with
        | error e =>
          rw [hread] at h
          cases h
        | ok raw =>
          rw [hread] at h
          have hwhole := decodeEnd_whole hkeeps decoder requestDecoded encoding
            (readBody (decodedOptions decoder requestDecoded options encoding) state'.head false
              false input).delivery.blocks
          dsimp only at h ⊢
          rcases hend : decodeEnd decoder requestDecoded options encoding
            (readBody (decodedOptions decoder requestDecoded options encoding) state'.head false
              false input).delivery.blocks with ⟨_ | e, d⟩
          · rw [hend] at h hwhole
            cases h
            exact hwhole
          · rw [hend] at h
            cases h
  · rw [hcontinue] at h
    cases h

end Whole

end Chhttp
