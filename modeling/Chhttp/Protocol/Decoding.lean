import Chhttp.Protocol.Body

/-!
# Decoded bodies

With `auto_decompress`, a body with a `Content-Encoding` passes through a `StreamingDecoder` on its
way to the consumer of the options.  The decoder rests on the compression libraries, so it is a
parameter: what it produces is a function of the blocks fed to it.

Whatever the decoder does, the readers of requests and responses call `readBody`; its result is
described by `BodyFrame`, the words that are a body of a given head (`bodyFrame_of_readBody`).
-/

namespace Chhttp

open ListSearch Fragment

/-! ### The source -/

/-- `StreamingDecoder`: `create` fails for an encoding and an output limit, or it does not, and
`feed` gives the decoded blocks that come out when the last of the blocks so far is fed, and
the error after them.  The flag is `finish`. -/
structure Decoder where
  create : Bytes → ℕ → Option ErrorInfo
  feed : Bytes → ℕ → List Bytes → Bool → List Bytes × Option ErrorInfo

/-- `StreamingDecoder` in a build without compression support. -/
def Decoder.disabled : Decoder where
  create _ _ := some { code := .compression, message := "Compression support is disabled" }
  feed _ _ _ _ := ([], some { code := .compression, message := "Compression support is disabled" })

/-- In what `consume_decoded` differs between requests and responses: a limit on the decoded body,
the texts of the errors, and a look at the deadline after each block. -/
structure DecodedMode where
  limit : Option String
  rejected : String
  asyncRejected : String
  progressRejected : String
  failed : String
  deadlineAfter : Bool

/-- The `consume_decoded` of `read_request_body`. -/
def requestDecoded : DecodedMode where
  limit := some "Decoded request body exceeds configured limit"
  rejected := "Request body callback cancelled the transfer"
  asyncRejected := "Request async body callback cancelled the transfer"
  progressRejected := "Request progress callback cancelled the transfer"
  failed := "Request body callback failed"
  deadlineAfter := false

/-- The `consume_decoded` of `read_response`. -/
def responseDecoded : DecodedMode where
  limit := none
  rejected := "HTTP body callback cancelled the transfer"
  asyncRejected := "HTTP async body callback cancelled the transfer"
  progressRejected := "HTTP progress callback cancelled the transfer"
  failed := "HTTP body callback failed"
  deadlineAfter := true

/-- The consumer of a decoded block. -/
def consumeDecodedBlock (mode : DecodedMode) (options : HttpReadOptions) (d : Delivery)
    (data : Bytes) : Option ErrorInfo × Delivery :=
  match options.onData, options.onDataAsync with
  | some onData, _ => ((onData d.blocks).error mode.rejected mode.failed, d)
  | none, some onDataAsync => ((onDataAsync d.blocks).error mode.asyncRejected mode.failed, d)
  | none, none => (none, { d with body := d.body ++ data })

/-- What `consume_decoded` does after a decoded block was consumed. -/
def afterDecodedBlock (mode : DecodedMode) (options : HttpReadOptions) (d : Delivery) :
    Option ErrorInfo :=
  match options.onProgress.bind fun onProgress =>
      (onProgress d.blocks none).error mode.progressRejected mode.failed with
  | some e => some e
  | none =>
    if mode.deadlineAfter && options.expired d.blocks then some Interruption.deadline.error
    else none

/-- `consume_decoded`. -/
def consumeDecoded (mode : DecodedMode) (options : HttpReadOptions) (d : Delivery)
    (data : Bytes) : Option ErrorInfo × Delivery :=
  if data.isEmpty then (none, d)
  else
    match options.interrupted d.blocks with
    | some interruption => (some interruption.error, d)
    | none =>
      match mode.limit with
      | some message =>
        if options.maxBodySize < data.length ∨ options.maxBodySize - data.length < d.received then
          (some { code := .bodyTooLarge, message }, d)
        else consumed
      | none => consumed
where
  /-- The block passed the checks. -/
  consumed : Option ErrorInfo × Delivery :=
    match consumeDecodedBlock mode options
        { d with received := d.received + data.length, blocks := d.blocks ++ [data] } data with
    | (some e, d) => (some e, d)
    | (none, d) => (afterDecodedBlock mode options d, d)

/-- The decoded blocks of one `feed` go to `consume_decoded`, up to its first error. -/
def consumeAll (mode : DecodedMode) (options : HttpReadOptions) :
    List Bytes → Option ErrorInfo → Delivery → Option ErrorInfo × Delivery
  | [], error, d => (error, d)
  | data :: more, error, d =>
    match consumeDecoded mode options d data with
    | (some e, d) => (some e, d)
    | (none, d) => consumeAll mode options more error d

/-- The decoder has been fed the given blocks: `decode_error`, and what has been delivered. -/
def decodeBlocks (decoder : Decoder) (mode : DecodedMode) (options : HttpReadOptions)
    (encoding : Bytes) (blocks : List Bytes) : Option ErrorInfo × Delivery :=
  let feed (s : List Bytes × Option ErrorInfo × Delivery) (block : Bytes) :=
    let output := decoder.feed encoding options.maxBodySize (s.1 ++ [block]) false
    (s.1 ++ [block], consumeAll mode options output.1 output.2 s.2.2)
  (blocks.foldl feed ([], none, {})).2

/-- The end of the decoded stream. -/
def decodeEnd (decoder : Decoder) (mode : DecodedMode) (options : HttpReadOptions)
    (encoding : Bytes) (blocks : List Bytes) : Option ErrorInfo × Delivery :=
  let d := (decodeBlocks decoder mode options encoding blocks).2
  let output := decoder.feed encoding options.maxBodySize blocks true
  consumeAll mode options output.1 output.2 d

/-- `decoded_options`: the blocks of the body go to the decoder. -/
def decodedOptions (decoder : Decoder) (mode : DecodedMode) (options : HttpReadOptions)
    (encoding : Bytes) : HttpReadOptions :=
  { options with
    onData := none
    onDataAsync := some fun blocks =>
      if (decodeBlocks decoder mode options encoding blocks).1.isNone then .accepted
      else .rejected
    onProgress := none }

/-- The content coding that the options ask to remove. -/
def contentCoding (options : HttpReadOptions) (headers : Headers) : Option Bytes :=
  if options.autoDecompress then
    (findHeader headers (bytes "Content-Encoding")).filter fun encoding =>
      !encoding.isEmpty && !iequals encoding (bytes "identity")
  else none

/-! ### The frame of a body -/

/-- The words that are the body of a head, with the trailer fields and the payload.  Without a
length and without chunks, a body that does not end with the connection is empty. -/
inductive BodyFrame (maxHeaderSize : ℕ) (head : ParsedHead) : Bytes → Headers → Bytes → Prop where
  | chunked {frame : ChunkedFrame} {fields : Headers} (h : head.chunked = true)
      (hvalid : frame.Valid maxHeaderSize fields) :
      BodyFrame maxHeaderSize head frame.encode fields frame.payload
  | fixed {data : Bytes} (h : head.chunked = false)
      (hlen : head.contentLength = some data.length) :
      BodyFrame maxHeaderSize head data [] data
  | empty (h : head.chunked = false) (hlen : head.contentLength = none) :
      BodyFrame maxHeaderSize head [] [] []

/-- A body that was read was framed as its head says, whatever the callbacks do.  Exactly the frame
was consumed, and trailers are appended to the fields. -/
theorem bodyFrame_of_readBody {options : HttpReadOptions} {head : ParsedHead} {input : Input}
    {body : Bytes} (h : (readBody options head false false input).result = .ok body) :
    ∃ word fields payload, BodyFrame options.maxHeaderSize head word fields payload ∧
      input.Took word (readBody options head false false input).input ∧
      (readBody options head false false input).headers = head.headers ++ fields ∧
      (options.onData = none → options.onDataAsync = none → body = payload) := by
  by_cases hchunked : head.chunked = true
  · rw [readBody_of_chunked hchunked] at h ⊢
    obtain ⟨frame, fields, htaken⟩ := readChunked_sound h
    refine ⟨_, fields, _, .chunked hchunked htaken.valid, htaken.took, htaken.headers, ?_⟩
    intro h1 h2
    have hresult := htaken.result
    rw [h] at hresult
    cases hresult
    simpa using htaken.delivered.body h1 h2
  · rw [Bool.not_eq_true] at hchunked
    cases hlength : head.contentLength with
    | some total =>
      have heq : readBody options head false false input =
          readFixed options total { headers := head.headers, input, delivery := {} } := by
        simp [readBody, hchunked, hlength]
      rw [heq] at h ⊢
      obtain ⟨data, rfl, -, htook, hdel, hbody, hheaders⟩ := readFixed_sound h
      refine ⟨data, [], data, .fixed hchunked hlength, htook, by rw [hheaders]; simp, ?_⟩
      intro h1 h2
      rw [hbody, hdel.body h1 h2]
      rfl
    | none =>
      have heq : readBody options head false false input =
          { headers := head.headers, input, delivery := {}, result := .ok [] } := by
        simp [readBody, hchunked, hlength]
      rw [heq] at h ⊢
      cases h
      exact ⟨[], [], [], .empty hchunked hlength, Source.Took.refl _, by simp, fun _ _ => rfl⟩

/-- A body that is there is read in buffered mode, unless a bare LF in a trailer is cut off. -/
theorem readBody_of_bodyFrame {options : HttpReadOptions} (hbuf : options.Buffered)
    {head : ParsedHead} {input : Input} {word payload rest : Bytes} {fields : Headers}
    (hframe : BodyFrame options.maxHeaderSize head word fields payload)
    (havail : input.available = word ++ rest)
    (hlimit : payload.length ≤ options.maxBodySize)
    (htrailers : head.chunked = true → fields = []) :
    ∃ r, readBody options head false false input = r ∧ r.result = .ok payload ∧
      r.headers = head.headers ++ fields ∧ r.input.available = rest := by
  cases hframe with
  | @chunked frame _ h hvalid =>
    have hnone : frame.trailers = [] := by
      have := hvalid.trailers.parse
      rw [htrailers h] at this
      cases hlines : frame.trailers with
      | nil => rfl
      | cons line lines =>
        rw [hlines] at this
        cases this
    rw [readBody_of_chunked h]
    obtain ⟨-, hheaders, htook, hdel, hresult⟩ := readChunked_complete
      (s := { headers := head.headers, input, delivery := {} }) hbuf hvalid havail
      (Or.inl (by simp [hnone])) (by simpa using hlimit)
    refine ⟨_, rfl, ?_, hheaders, List.append_cancel_left (htook.available.symm.trans havail)⟩
    rw [hresult, hdel.body hbuf.onData hbuf.onDataAsync]
    rfl
  | fixed h hlen =>
    obtain ⟨after, d, hread, htook⟩ := readFixed_complete hbuf
      (s := { headers := head.headers, input, delivery := {} }) havail (by simpa using hlimit)
    refine ⟨_, rfl, ?_, ?_, ?_⟩ <;> simp only [readBody, h, hlen, hread, Bool.false_eq_true, if_false]
    · simp
    · simp
    · exact List.append_cancel_left (htook.available.symm.trans havail)
  | empty h hlen =>
    refine ⟨_, rfl, ?_, ?_, ?_⟩ <;> simp only [readBody, h, hlen, Bool.false_eq_true, if_false]
    · simp
    · simpa using havail

end Chhttp
