import Chhttp.Protocol.Decoding
import Chhttp.Protocol.Output
import Chhttp.Protocol.RequestHead

/-!
# Reading a whole request

`readRequestBody` answers an expectation, reads the body that the head announces, and decodes it on
demand; `readRequest` puts head and body together.  A body that was read consumed exactly its frame
(`bodyFrame_of_readRequestBody`), and a request that is there is read
(`readRequest_of_wellFormed`).
-/

namespace Chhttp

open ListSearch Fragment

/-! ### The source -/

/-- The head that `read_request_body` hands to `read_body`. -/
def RequestBodyState.head (state : RequestBodyState) : ParsedHead where
  startLine := []
  headers := state.headers
  contentLength := state.contentLength
  chunked := state.chunked

/-- The answer to an expectation. -/
def sendContinue (state : RequestBodyState) (output : Output) :
    Option ErrorInfo × RequestBodyState × Output :=
  if state.expectContinue && !state.continueSent then
    match output.write (bytes "HTTP/1.1 100 Continue\r\n\r\n") with
    | (some e, output) => (some e, state, output)
    | (none, output) => (none, { state with continueSent := true }, output)
  else (none, state, output)

/-- What `read_request_body` returns and leaves behind, and the blocks that the callbacks got.  On
errors too it says where the input and the output are, for the server still answers. -/
structure RequestBodyRead where
  result : Result Bytes
  state : RequestBodyState
  input : Input
  output : Output
  delivered : List Bytes := []

/-- The body of a request whose content coding is not removed. -/
def readPlainRequestBody (options : HttpReadOptions) (state : RequestBodyState) (input : Input)
    (output : Output) : RequestBodyRead :=
  let r := readBody options state.head false false input
  { result := r.result, state := { state with headers := r.headers }, input := r.input, output,
    delivered := r.delivery.blocks }

/-- The body of a request whose content coding is removed. -/
def readDecodedRequestBody (decoder : Decoder) (encoding : Bytes) (options : HttpReadOptions)
    (state : RequestBodyState) (input : Input) (output : Output) : RequestBodyRead :=
  match decoder.create encoding options.maxBodySize with
  | some e => { result := .error e, state := { state with headers := [] }, input, output }
  | none =>
    let r := readBody (decodedOptions decoder requestDecoded options encoding) state.head false
      false input
    let read : RequestBodyRead :=
      { result := r.result, state := { state with headers := r.headers }, input := r.input, output }
    match r.result with
    | .error e =>
      let (decodeError, d) :=
        decodeBlocks decoder requestDecoded options encoding r.delivery.blocks
      { read with result := .error (decodeError.getD e), delivered := d.blocks }
    | .ok _ =>
      match decodeEnd decoder requestDecoded options encoding r.delivery.blocks with
      | (some e, d) => { read with result := .error e, delivered := d.blocks }
      | (none, d) =>
        let headers := (r.headers.erase (bytes "Content-Encoding")).erase (bytes "Content-Length")
        { read with result := .ok d.body, state := { state with headers }, delivered := d.blocks }

/-- `read_request_body`. -/
def readRequestBody (decoder : Decoder) (options : HttpReadOptions) (state : RequestBodyState)
    (input : Input) (output : Output) : RequestBodyRead :=
  match sendContinue state output with
  | (some e, state, output) => { result := .error e, state, input, output }
  | (none, state, output) =>
    match contentCoding options state.headers with
    | none => readPlainRequestBody options state input output
    | some encoding => readDecodedRequestBody decoder encoding options state input output

/-- `read_request`: the head, then the body as the head says, and the fields with the trailers. -/
def readRequest (decoder : Decoder) (options : HttpReadOptions) (input : Input) (output : Output) :
    Result Request × Input × Output :=
  match readRequestHead options.maxHeaderSize true input with
  | (.error e, input) => (.error e, input, output)
  | (.ok head, input) =>
    let r := readRequestBody decoder options head.body input output
    match r.result with
    | .error e => (.error e, r.input, r.output)
    | .ok body =>
      (.ok { head.request with body, headers := r.state.headers }, r.input, r.output)

/-! ### What is consumed -/

/-- Answering an expectation does not change what the head says. -/
lemma head_of_sendContinue {state state' : RequestBodyState} {output output' : Output}
    {e : Option ErrorInfo} (h : sendContinue state output = (e, state', output')) :
    state'.head = state.head ∧ state'.headers = state.headers := by
  unfold sendContinue at h
  split_ifs at h
  · split at h <;> cases h <;> exact ⟨rfl, rfl⟩
  · cases h
    exact ⟨rfl, rfl⟩

/-- A request body that was read consumed exactly its frame, decoded or not, and whatever the
callbacks do. -/
theorem bodyFrame_of_readRequestBody {decoder : Decoder} {options : HttpReadOptions}
    {state : RequestBodyState} {input : Input} {output : Output} {body : Bytes}
    (h : (readRequestBody decoder options state input output).result = .ok body) :
    ∃ word fields payload, BodyFrame options.maxHeaderSize state.head word fields payload ∧
      input.Took word (readRequestBody decoder options state input output).input := by
  unfold readRequestBody at h ⊢
  rcases hcontinue : sendContinue state output with ⟨e, state', output'⟩
  obtain ⟨hhead, -⟩ := head_of_sendContinue hcontinue
  rw [hcontinue] at h
  cases e with
  | some e => cases h
  | none =>
    simp only at h ⊢
    cases hcoding : contentCoding options state'.headers with
    | none =>
      rw [hcoding] at h
      obtain ⟨word, fields, payload, hframe, htook, -, -⟩ := bodyFrame_of_readBody h
      exact ⟨word, fields, payload, hhead ▸ hframe, htook⟩
    | some encoding =>
      simp only [hcoding] at h ⊢
      unfold readDecodedRequestBody at h ⊢
      cases hcreate : decoder.create encoding options.maxBodySize with
      | some e =>
        rw [hcreate] at h
        cases h
      | none =>
        simp only [hcreate] at h ⊢
        cases hr : (readBody (decodedOptions decoder requestDecoded options encoding) state'.head
            false false input).result with
        | error e =>
          rw [hr] at h
          cases h
        | ok raw =>
          obtain ⟨word, fields, payload, hframe, htook, -, -⟩ := bodyFrame_of_readBody hr
          refine ⟨word, fields, payload, hhead ▸ hframe, ?_⟩
          simp only
          split <;> exact htook

/-! ### What is read -/

/-- The head that a request announces its body with, among the scanned fields. -/
lemma head_requestHeadResult (start : Bytes) (fields : Headers) (method target : Bytes)
    (version : ℕ) (routing path : Bytes) (duplicateHeaders : Bool) :
    (requestHeadResult (headOf start fields) method target version routing path
      duplicateHeaders).body.head =
      { startLine := [], headers := fields, contentLength := (headOf start fields).contentLength,
        chunked := (headOf start fields).chunked } := rfl

/-- A well-formed request without an expectation and without a content coding to be removed, framed
as its head says, is read in buffered mode whatever the cuts. -/
theorem readRequest_of_plain {decoder : Decoder} {options : HttpReadOptions}
    (hbuf : options.Buffered) {input : Input}
    {output : Output} {start rest method target word payload : Bytes} {version : ℕ}
    {lines : List Bytes} {fields : Headers}
    (havail : input.available = headBytes start lines ++ (crlf ++ (word ++ rest)))
    (hsize : (headBytes start lines).length + 2 ≤ options.maxHeaderSize)
    (hfields : List.Forall₂ (fun line f => FieldLine line f.1 f.2) lines fields)
    (hframing : FramingFields fields) (hline : RequestLine start method target version)
    (hrules : WellFormedRequest target version fields)
    (hexpect : fields.contains (bytes "Expect") = false)
    (hplain : contentCoding options fields = none)
    (hframe : BodyFrame options.maxHeaderSize (headOf start fields) word [] payload)
    (hlimit : payload.length ≤ options.maxBodySize) :
    ∃ request after, readRequest decoder options input output = (.ok request, after, output) ∧
      request.method = method ∧ request.version = version ∧ request.target = target ∧
      request.body = payload ∧ request.headers = fields ∧ after.available = rest := by
  obtain ⟨routing, path, middle, -, -, hmiddle, hread⟩ :=
    @readRequestHead_of_wellFormed options.maxHeaderSize version true input start (word ++ rest)
      method target lines fields havail hsize hfields hframing hline hrules
  have hcontinue : (headOf start fields).expectContinue = false := by
    have hnone : fields.any (fun f => iequals f.1 (bytes "Expect")) = false := hexpect
    show hasToken fields (bytes "Expect") (bytes "100-continue") = false
    rw [hasToken, List.any_eq_false]
    intro f hf
    have := List.any_eq_false.mp hnone f hf
    simp [this]
  -- the frame speaks of lengths and codings only, which the head result passes on
  have hframe' : BodyFrame options.maxHeaderSize
      (requestHeadResult (headOf start fields) method target version routing path true).body.head
      word [] payload := by
    rw [head_requestHeadResult]
    cases hframe with
    | chunked h hvalid => exact .chunked h hvalid
    | fixed h hlen => exact .fixed h hlen
    | empty h hlen => exact .empty h hlen
  obtain ⟨r, hr, hok, hheaders, hrest⟩ :=
    readBody_of_bodyFrame hbuf hframe' hmiddle hlimit fun _ => rfl
  -- nothing is written: the head does not expect a continuation
  have hsend : sendContinue (requestHeadResult (headOf start fields) method target version routing
      path true).body output = (none, (requestHeadResult (headOf start fields) method target version
        routing path true).body, output) := by
    simp [sendContinue, requestHeadResult, hcontinue]
  have hcoding : contentCoding options (requestHeadResult (headOf start fields) method target
      version routing path true).body.headers = none := hplain
  have hbody : readRequestBody decoder options (requestHeadResult (headOf start fields) method
      target version routing path true).body middle output =
        { result := .ok payload
          state := { (requestHeadResult (headOf start fields) method target version routing
            path true).body with headers := r.headers }
          input := r.input
          output
          delivered := r.delivery.blocks } := by
    simp only [readRequestBody, hsend, hcoding, readPlainRequestBody, hr, hok]
  refine ⟨{ (requestHeadResult (headOf start fields) method target version routing path
    true).request with body := payload, headers := r.headers }, r.input, ?_, rfl, rfl, rfl, rfl, ?_,
    hrest⟩
  · simp only [readRequest, hread, hbody]
  · simp only [hheaders, List.append_nil]
    rfl

/-- So is one whose content coding the server leaves alone. -/
theorem readRequest_of_wellFormed {decoder : Decoder} {options : HttpReadOptions}
    (hbuf : options.Buffered) (hplain : options.autoDecompress = false) {input : Input}
    {output : Output} {start rest method target word payload : Bytes} {version : ℕ}
    {lines : List Bytes} {fields : Headers}
    (havail : input.available = headBytes start lines ++ (crlf ++ (word ++ rest)))
    (hsize : (headBytes start lines).length + 2 ≤ options.maxHeaderSize)
    (hfields : List.Forall₂ (fun line f => FieldLine line f.1 f.2) lines fields)
    (hframing : FramingFields fields) (hline : RequestLine start method target version)
    (hrules : WellFormedRequest target version fields)
    (hexpect : fields.contains (bytes "Expect") = false)
    (hframe : BodyFrame options.maxHeaderSize (headOf start fields) word [] payload)
    (hlimit : payload.length ≤ options.maxBodySize) :
    ∃ request after, readRequest decoder options input output = (.ok request, after, output) ∧
      request.method = method ∧ request.version = version ∧ request.target = target ∧
      request.body = payload ∧ request.headers = fields ∧ after.available = rest :=
  readRequest_of_plain hbuf havail hsize hfields hframing hline hrules hexpect
    (by simp [contentCoding, hplain]) hframe hlimit

end Chhttp
