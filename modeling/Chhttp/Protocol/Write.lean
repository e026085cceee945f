import Chhttp.Protocol.Delivery
import Chhttp.Protocol.Output
import Chhttp.Protocol.Serialize

/-!
# Writing requests and responses

`writeRequest`, `writeResponseHead` and `writeResponse` choose the framing of a message, serialise
its head with the overrides this needs, and write head and body.  A streamed request body is what
its producer writes to a `RequestBodySink`.

`outbound_framing` says which framing fields the head of a message carries on the wire, whatever
fields the caller supplied.
-/

namespace Chhttp

open ListSearch

/-! ### Requests -/

/-- The mode of a streamed request without a declared length. -/
def Request.isChunked (request : Request) : Bool :=
  request.bodyStream.isSome && request.bodyStreamLength.isNone

/-- The length that a request that is not chunked declares. -/
def Request.declaredLength (request : Request) : ℕ :=
  if request.bodyStream.isSome then request.bodyStreamLength.getD 0 else request.body.length

/-- The overrides of a request head. -/
def requestOverrides (request : Request) : List HeadOverride :=
  (if request.isChunked then [(bytes "Transfer-Encoding", bytes "chunked")]
    else [(bytes "Content-Length", toChars 10 request.declaredLength)]) ++
  (if findHeader request.headers (bytes "Connection") = none then
    [(bytes "Connection", if request.keepAlive then bytes "keep-alive" else bytes "close")]
    else []) ++
  (if findHeader request.headers (bytes "User-Agent") = none then
    [(bytes "User-Agent", bytes "chhttp/0.4")] else [])

/-- The fields a request head omits. -/
def requestOmitted (request : Request) : List Bytes :=
  if request.isChunked then [bytes "Content-Length"] else [bytes "Transfer-Encoding"]

/-- The start line of a request. -/
def requestStartLine (request : Request) (wireTarget : Bytes) : Bytes :=
  request.method ++ (bytes " " ++ (wireTarget ++
    if request.version = 10 then bytes " HTTP/1.0" else bytes " HTTP/1.1"))

/-- The head of a request: the checks of `write_request`, and its serialisation.  Nothing is on the
wire before all of these have passed. -/
def serializeRequest (request : Request) (wireTarget : Bytes) : Result Bytes :=
  if !validHeaderName request.method || wireTarget.isEmpty ||
      (wireTarget.any fun c => decide (c ≤ 0x20) || c == 0x7f) ||
      (request.version != 10 && request.version != 11) then
    .error (protocolError "Invalid outbound HTTP request line")
  else if request.bodyStream.isSome ∧ request.body ≠ [] then
    .error { code := .invalidArgument,
             message := "Configure either a buffered or streamed request body" }
  else if request.isChunked ∧ request.version = 10 then
    .error { code := .invalidArgument,
             message := "HTTP/1.0 streamed request bodies require a Content-Length" }
  else
    serializeHead (requestStartLine request wireTarget) request.headers
      (requestOverrides request) (requestOmitted request)

/-- The error of the upload progress callback. -/
def uploadError : Reaction → Option ErrorInfo :=
  Reaction.error "HTTP upload progress callback cancelled the transfer"
    "HTTP upload progress callback failed"

/-- The class `RequestBodySink`; `written` are the blocks it has accepted.  `remaining` is what is
left of a declared length, and without one there is no bound. -/
structure RequestBodySink where
  output : Output
  chunked : Bool
  total : Option ℕ
  remaining : Option ℕ
  onProgress : Option (List Bytes → Option ℕ → Reaction) := none
  written : List Bytes := []
  uploaded : ℕ := 0
  error : Option ErrorInfo := none
  finished : Bool := false

namespace RequestBodySink

/-- `attach_context`. -/
def attachContext (s : RequestBodySink) (e : ErrorInfo) : ErrorInfo :=
  { e with transfer := some { phase := .requestBody, uploaded := s.uploaded } }

/-- Remember an error. -/
def fail (s : RequestBodySink) (e : ErrorInfo) : RequestBodySink :=
  { s with error := some (s.attachContext e) }

/-- The upload progress after a block. -/
def progress (s : RequestBodySink) : Bool × RequestBodySink :=
  match s.onProgress.bind fun onProgress => uploadError (onProgress s.written s.total) with
  | none => (true, s)
  | some e => (false, s.fail e)

/-- Hand a block on, in the framing of the request. -/
def transmit (s : RequestBodySink) (data : Bytes) : Option ErrorInfo × Output :=
  if s.chunked then writeChunk data s.output else s.output.write data

/-- `RequestBodySink::write`. -/
def write (s : RequestBodySink) (data : Bytes) : Bool × RequestBodySink :=
  if s.error.isSome ∨ s.finished ∨ ¬ s.output.isOpen then (false, s)
  else if data.isEmpty then (true, s)
  else if s.remaining.any fun remaining => decide (remaining < data.length) then
    (false, s.fail (protocolError "Streamed request body exceeds declared Content-Length"))
  else
    match s.transmit data with
    | (some e, output) => (false, { s with output }.fail e)
    | (none, output) =>
      { s with
        output
        remaining := s.remaining.map (· - data.length)
        uploaded := s.uploaded + data.length
        written := s.written ++ [data] }.progress

/-- `RequestBodySink::open`. -/
def isOpen (s : RequestBodySink) : Bool := s.error.isNone && !s.finished && s.output.isOpen

/-- `RequestBodySink::finish`. -/
def finish (s : RequestBodySink) : Option ErrorInfo × Output :=
  if s.finished then (s.error, s.output)
  else
    match s.error with
    | some e => (some e, s.output)
    | none =>
      if s.remaining.any fun remaining => decide (remaining ≠ 0) then
        (some (s.attachContext (protocolError
          "Streamed request body is shorter than declared Content-Length")), s.output)
      else if s.chunked then
        match writeLastChunk s.output with
        | (some e, output) => (some (s.attachContext e), output)
        | (none, output) => (none, output)
      else (none, s.output)

/-- The sink as a producer sees it. -/
def ops : SinkOps RequestBodySink := { write, isOpen }

end RequestBodySink

/-- One iteration of the loop that writes a long buffered body. -/
def sinkBodyStep : Bytes × RequestBodySink → Loop.Next (Bytes × RequestBodySink) RequestBodySink
  | (body, s) =>
    if body.isEmpty then .leave s
    else
      match s.write (body.take blockSize) with
      | (false, s) => .leave s
      | (true, s) => .again (body.drop blockSize, s)

/-- Every block shortens what is left of the body. -/
lemma sinkBodyStep_decreases : Loop.Decreases sinkBodyStep fun s => s.1.length := by
  rintro ⟨body, s⟩ ⟨body', s'⟩ h
  simp only [sinkBodyStep] at h
  split_ifs at h with hempty
  split at h
  · cases h
  · cases h
    have hpos := List.length_pos_of_ne_nil (by simpa using hempty : body ≠ [])
    simp only [List.length_drop, blockSize]
    omega

/-- The loop that writes a long buffered body. -/
def sinkBody (body : Bytes) (s : RequestBodySink) : RequestBodySink :=
  Loop.run sinkBodyStep (fun s => s.1.length) sinkBodyStep_decreases (body, s)

/-- The error of a producer that threw. -/
def producerError : Thrown → ErrorInfo
  | .streamError e => e
  | .exception what =>
    { code := .internal, message := "Streamed request producer failed: " ++ what }
  | .unknown => { code := .internal, message := "Streamed request producer failed" }

/-- The head of a long or streamed request is written alone. -/
def writeRequestHead (head : Bytes) (output : Output) : Option ErrorInfo × Output :=
  match output.write head with
  | (some e, output) => (some { e with transfer := some { phase := .requestHead } }, output)
  | (none, output) => (none, output)

/-- The streamed body of a request. -/
def writeStreamedBody (request : Request) (producer : Producer)
    (onUploadProgress : Option (List Bytes → Option ℕ → Reaction)) (output : Output) :
    Option ErrorInfo × Output :=
  let sink : RequestBodySink :=
    { output, chunked := request.isChunked, total := request.bodyStreamLength,
      remaining := request.bodyStreamLength, onProgress := onUploadProgress }
  match producer.run RequestBodySink.ops sink with
  | (some thrown, s) => (some (s.attachContext (producerError thrown)), s.output)
  | (none, s) => s.finish

/-- The progress report of a body that was written together with its head. -/
def coalescedProgress (body : Bytes)
    (onUploadProgress : Option (List Bytes → Option ℕ → Reaction)) : Option ErrorInfo :=
  if body.isEmpty then none
  else
    (onUploadProgress.bind fun onProgress => uploadError (onProgress [body] (some body.length))).map
      fun e => { e with transfer := some { phase := .requestBody, uploaded := body.length } }

/-- `write_request`: the head, then the body from its producer or from the buffer. -/
def writeRequest (request : Request) (wireTarget : Bytes)
    (onUploadProgress : Option (List Bytes → Option ℕ → Reaction)) (output : Output) :
    Option ErrorInfo × Output :=
  match serializeRequest request wireTarget with
  | .error e => (some e, output)
  | .ok head =>
    match request.bodyStream with
    | some producer =>
      match writeRequestHead head output with
      | (some e, output) => (some e, output)
      | (none, output) => writeStreamedBody request producer onUploadProgress output
    | none =>
      if blockSize < request.body.length then
        match writeRequestHead head output with
        | (some e, output) => (some e, output)
        | (none, output) =>
          (sinkBody request.body
            { output, chunked := false, total := some request.body.length,
              remaining := some request.body.length, onProgress := onUploadProgress }).finish
      else
        match output.write (head ++ request.body) with
        | (some e, output) =>
          let phase := if request.body.isEmpty then TransferPhase.requestHead
            else TransferPhase.requestBody
          (some { e with transfer := some { phase } }, output)
        | (none, output) => (coalescedProgress request.body onUploadProgress, output)

/-! ### Responses -/

/-- `status_has_no_body`. -/
def statusHasNoBody (status : ℤ) : Bool :=
  (decide (100 ≤ status) && decide (status < 200)) || status == 204 || status == 205 ||
    status == 304

/-- `status_reason_view`. -/
def statusReason (status : ℤ) : Bytes :=
  bytes <| match status with
  | 100 => "Continue" | 101 => "Switching Protocols" | 102 => "Processing"
  | 103 => "Early Hints" | 200 => "OK" | 201 => "Created" | 202 => "Accepted"
  | 203 => "Non-Authoritative Information" | 204 => "No Content" | 205 => "Reset Content"
  | 206 => "Partial Content" | 207 => "Multi-Status" | 208 => "Already Reported"
  | 226 => "IM Used" | 300 => "Multiple Choices" | 301 => "Moved Permanently"
  | 302 => "Found" | 303 => "See Other" | 304 => "Not Modified" | 305 => "Use Proxy"
  | 307 => "Temporary Redirect" | 308 => "Permanent Redirect" | 400 => "Bad Request"
  | 401 => "Unauthorized" | 402 => "Payment Required" | 403 => "Forbidden"
  | 404 => "Not Found" | 405 => "Method Not Allowed" | 406 => "Not Acceptable"
  | 407 => "Proxy Authentication Required" | 408 => "Request Timeout" | 409 => "Conflict"
  | 410 => "Gone" | 411 => "Length Required" | 412 => "Precondition Failed"
  | 413 => "Payload Too Large" | 414 => "URI Too Long" | 415 => "Unsupported Media Type"
  | 416 => "Range Not Satisfiable" | 417 => "Expectation Failed" | 418 => "I'm a teapot"
  | 421 => "Misdirected Request" | 422 => "Unprocessable Content" | 423 => "Locked"
  | 424 => "Failed Dependency" | 425 => "Too Early" | 426 => "Upgrade Required"
  | 428 => "Precondition Required" | 429 => "Too Many Requests"
  | 431 => "Request Header Fields Too Large" | 451 => "Unavailable For Legal Reasons"
  | 500 => "Internal Server Error" | 501 => "Not Implemented" | 502 => "Bad Gateway"
  | 503 => "Service Unavailable" | 504 => "Gateway Timeout"
  | 505 => "HTTP Version Not Supported" | 506 => "Variant Also Negotiates"
  | 507 => "Insufficient Storage" | 508 => "Loop Detected" | 510 => "Not Extended"
  | 511 => "Network Authentication Required" | _ => "Unknown"

/-- How the body of a response is framed.  Chunked coding wins over a length, and with neither the
body goes on to the end of the connection. -/
structure BodyFraming where
  chunked : Bool := false
  contentLength : Option ℕ := none

/-- The overrides that the framing of a response body needs. -/
def framingOverrides (status : ℤ) (framing : BodyFraming) : List HeadOverride :=
  if (100 ≤ status ∧ status < 200) ∨ status = 204 then []
  else if status = 205 then [(bytes "Content-Length", bytes "0")]
  else if framing.chunked then [(bytes "Transfer-Encoding", bytes "chunked")]
  else
    match framing.contentLength with
    | some length => [(bytes "Content-Length", toChars 10 length)]
    | none => []

/-- The fields that the framing of a response body omits. -/
def framingOmitted (status : ℤ) (framing : BodyFraming) : List Bytes :=
  if (100 ≤ status ∧ status < 200) ∨ status = 204 then
    [bytes "Content-Length", bytes "Transfer-Encoding"]
  else if status = 205 then [bytes "Transfer-Encoding"]
  else if framing.chunked then [bytes "Content-Length"]
  else
    match framing.contentLength with
    | some _ => [bytes "Transfer-Encoding"]
    | none => [bytes "Transfer-Encoding", bytes "Content-Length"]

/-- The overrides of a response head. -/
def responseOverrides (request : Request) (response : Response) (framing : BodyFraming) :
    List HeadOverride :=
  (if findHeader response.headers (bytes "Server") = none then
    [(bytes "Server", bytes "chhttp/0.4")] else []) ++
  ((bytes "Connection",
      if request.keepAlive && response.keepAlive then bytes "keep-alive" else bytes "close") ::
    framingOverrides response.status framing)

/-- The start line of a response. -/
def responseStartLine (response : Response) : Bytes :=
  (if response.version = 10 then bytes "HTTP/1.0 " else bytes "HTTP/1.1 ") ++
    (toChars 10 response.status.toNat ++ (bytes " " ++ statusReason response.status))

/-- `build_response_head`: the status and the version are checked, then the head is serialised with
the framing as overrides. -/
def buildResponseHead (request : Request) (response : Response) (framing : BodyFraming) :
    Result Bytes :=
  if (response.version ≠ 10 ∧ response.version ≠ 11) ∨ response.status < 100 ∨
      999 < response.status then
    .error (protocolError "Invalid outbound HTTP response line")
  else
    serializeHead (responseStartLine response) response.headers
      (responseOverrides request response framing) (framingOmitted response.status framing)

/-- `write_response_head`: the head alone, for a body that is streamed or a file. -/
def writeResponseHead (request : Request) (response : Response) (framing : BodyFraming)
    (output : Output) : Option ErrorInfo × Output :=
  match buildResponseHead request response framing with
  | .error e => (some e, output)
  | .ok head => output.write head

/-- `write_response`: head and body in one block if the body is short, else one after the other. -/
def writeResponse (request : Request) (response : Response) (output : Output) :
    Option ErrorInfo × Output :=
  let omitBody := iequals request.method (bytes "HEAD") || statusHasNoBody response.status
  let framing : BodyFraming := { contentLength := some response.body.length }
  if !omitBody && !response.body.isEmpty && decide (response.body.length ≤ blockSize) then
    match buildResponseHead request response framing with
    | .error e => (some e, output)
    | .ok head => output.write (head ++ response.body)
  else
    match writeResponseHead request response framing output with
    | (some e, output) => (some e, output)
    | (none, output) =>
      if omitBody || response.body.isEmpty then (none, output)
      else writeBodyBytes response.body output

/-! ### What is handed on first -/

/-- Writing to the sink only adds blocks. -/
lemma RequestBodySink.blocks_prefix_write (s : RequestBodySink) (data : Bytes) :
    s.output.blocks <+: (s.write data).2.output.blocks := by
  have hprogress : ∀ s : RequestBodySink, s.progress.2.output = s.output := by
    intro s
    unfold RequestBodySink.progress
    split <;> rfl
  have hblocks : s.output.blocks <+: (s.transmit data).2.blocks := by
    unfold RequestBodySink.transmit
    split_ifs
    · exact blocks_prefix_writeChunk data s.output
    · exact ⟨_, (s.output.blocks_write data).symm⟩
  unfold RequestBodySink.write
  split_ifs
  · exact List.prefix_rfl
  · exact List.prefix_rfl
  · exact List.prefix_rfl
  · split
    · rename_i hwrite
      rw [hwrite] at hblocks
      exact hblocks
    · rename_i hwrite
      rw [hwrite] at hblocks
      rw [hprogress]
      exact hblocks

/-- Finishing the sink only adds blocks. -/
lemma RequestBodySink.blocks_prefix_finish (s : RequestBodySink) :
    s.output.blocks <+: s.finish.2.blocks := by
  have hblocks := s.output.blocks_write (bytes "0\r\n\r\n")
  unfold RequestBodySink.finish writeLastChunk
  by_cases hfinished : s.finished = true
  · simp only [if_pos hfinished]
    exact List.prefix_rfl
  · simp only [if_neg hfinished]
    cases s.error with
    | some e => exact List.prefix_rfl
    | none =>
      simp only
      split_ifs
      · exact List.prefix_rfl
      · cases hwrite : s.output.write (bytes "0\r\n\r\n") with
        | mk error output =>
          rw [hwrite] at hblocks
          cases error <;> exact ⟨_, hblocks.symm⟩
      · exact List.prefix_rfl

/-- A streamed body comes after what has been handed on. -/
lemma blocks_prefix_writeStreamedBody (request : Request) (producer : Producer)
    (onUploadProgress : Option (List Bytes → Option ℕ → Reaction)) (output : Output) :
    output.blocks <+: (writeStreamedBody request producer onUploadProgress output).2.blocks := by
  unfold writeStreamedBody
  extract_lets sink
  have hrun : output.blocks <+: (producer.run RequestBodySink.ops sink).2.output.blocks := by
    refine @Producer.run_invariant _ RequestBodySink.ops
      (fun s => output.blocks <+: s.output.blocks) ?_ producer _ List.prefix_rfl
    intro s data hs
    exact hs.trans (s.blocks_prefix_write data)
  split
  · rename_i hs
    rw [hs] at hrun
    exact hrun
  · rename_i hs
    rw [hs] at hrun
    exact hrun.trans (RequestBodySink.blocks_prefix_finish _)

/-- A long body comes after what has been handed on. -/
lemma blocks_prefix_sinkBody (body : Bytes) (s : RequestBodySink) :
    s.output.blocks <+: (sinkBody body s).output.blocks := by
  let Post : Bytes × RequestBodySink → RequestBodySink → Prop := fun t a =>
    t.2.output.blocks <+: a.output.blocks
  have hrun : Post (body, s) (sinkBody body s) := by
    refine Loop.run_induct sinkBodyStep_decreases ?_ ?_ (body, s)
    · rintro ⟨body, s⟩ a hb
      have hblocks := s.blocks_prefix_write (body.take blockSize)
      simp only [sinkBodyStep] at hb
      split_ifs at hb
      · cases hb
        exact List.prefix_rfl
      · split at hb
        · rename_i hwrite
          cases hb
          rw [hwrite] at hblocks
          exact hblocks
        · cases hb
    · rintro ⟨body, s⟩ ⟨body', s'⟩ a hb ih
      have hblocks := s.blocks_prefix_write (body.take blockSize)
      simp only [sinkBodyStep] at hb
      split_ifs at hb
      split at hb
      · cases hb
      · rename_i hwrite
        cases hb
        rw [hwrite] at hblocks
        exact hblocks.trans ih
  exact hrun

/-- The first block of a message begins with `head`.  A short body may follow the head in the same
block, which the source does to save a write. -/
def StartsWith (head : Bytes) (output output' : Output) : Prop :=
  ∃ rest more, output'.blocks = output.blocks ++ (head ++ rest) :: more

/-- A block that begins with the head may be followed by others. -/
lemma StartsWith.of_prefix {head rest : Bytes} {output output' : Output}
    (h : output.blocks ++ [head ++ rest] <+: output'.blocks) : StartsWith head output output' := by
  obtain ⟨more, hmore⟩ := h
  exact ⟨rest, more, by rw [← hmore, List.append_assoc, List.singleton_append]⟩

/-- The head of a request comes first. -/
lemma startsWith_writeRequest {request : Request} {wireTarget head : Bytes}
    (onUploadProgress : Option (List Bytes → Option ℕ → Reaction)) (output : Output)
    (h : serializeRequest request wireTarget = .ok head) :
    StartsWith head output (writeRequest request wireTarget onUploadProgress output).2 := by
  have halone := output.blocks_write head
  have htogether := output.blocks_write (head ++ request.body)
  unfold writeRequest writeRequestHead
  simp only [h]
  cases hstream : request.bodyStream with
  | some producer =>
    refine @StartsWith.of_prefix _ [] _ _ ?_
    rw [List.append_nil, ← halone]
    simp only
    cases hwrite : output.write head with
    | mk error output1 =>
      cases error with
      | some e => exact List.prefix_rfl
      | none => exact blocks_prefix_writeStreamedBody _ _ _ _
  | none =>
    by_cases hlong : blockSize < request.body.length
    · refine @StartsWith.of_prefix _ [] _ _ ?_
      rw [List.append_nil, ← halone]
      simp only [if_pos hlong]
      cases hwrite : output.write head with
      | mk error output1 =>
        cases error with
        | some e => exact List.prefix_rfl
        | none =>
          exact (blocks_prefix_sinkBody request.body
            { output := output1, chunked := false, total := some request.body.length,
              remaining := some request.body.length, onProgress := onUploadProgress }).trans
            (RequestBodySink.blocks_prefix_finish _)
    · refine @StartsWith.of_prefix _ request.body _ _ ?_
      rw [← htogether]
      simp only [if_neg hlong]
      cases hwrite : output.write (head ++ request.body) with
      | mk error output1 => cases error <;> exact List.prefix_rfl

/-- The head of a response comes first. -/
lemma startsWith_writeResponse {request : Request} {response : Response} {head : Bytes}
    (output : Output)
    (h : buildResponseHead request response { contentLength := some response.body.length } =
      .ok head) :
    StartsWith head output (writeResponse request response output).2 := by
  have halone := output.blocks_write head
  have htogether := output.blocks_write (head ++ response.body)
  unfold writeResponse writeResponseHead
  extract_lets omitBody framing
  rw [h]
  by_cases hshort : (!omitBody && !response.body.isEmpty &&
      decide (response.body.length ≤ blockSize)) = true
  · rw [if_pos hshort]
    refine @StartsWith.of_prefix _ response.body _ _ ?_
    rw [← htogether]
  · rw [if_neg hshort]
    refine @StartsWith.of_prefix _ [] _ _ ?_
    rw [List.append_nil, ← halone]
    simp only
    cases hwrite : output.write head with
    | mk error output1 =>
      cases error with
      | some e => exact List.prefix_rfl
      | none =>
        by_cases hnone : (omitBody || response.body.isEmpty) = true
        · simp only [if_pos hnone]
          exact List.prefix_rfl
        · simp only [if_neg hnone]
          exact blocks_prefix_writeBlocks _ _ _ _

/-! ### The framing of serialised heads -/

/-- A serialised head: a start line and field lines without CR, LF and NUL, and the empty line.  So
no value of a caller can end a line or the head. -/
structure OutboundHead (head startLine : Bytes) (fields : Headers) : Prop where
  eq : head = headBytes startLine (fields.map fieldLine) ++ crlf
  startLine : ∀ c ∈ startLine, isLineControl c = false
  names : ∀ f ∈ fields, validHeaderName f.1 = true
  lines : ∀ f ∈ fields, ∀ c ∈ fieldLine f, isLineControl c = false

/-- The lines of a serialised head are line texts. -/
lemma OutboundHead.lineTexts {head startLine : Bytes} {fields : Headers}
    (h : OutboundHead head startLine fields) :
    LineText startLine ∧ ∀ line ∈ fields.map fieldLine, LineText line ∧ line ≠ [] := by
  have htext : ∀ line : Bytes, (∀ c ∈ line, isLineControl c = false) → LineText line := by
    intro line hline
    refine lineText_of_not_mem fun hmem => ?_
    exact absurd (hline cr hmem) (by decide)
  refine ⟨htext startLine h.startLine, ?_⟩
  intro line hline
  obtain ⟨f, hf, rfl⟩ := List.mem_map.mp hline
  refine ⟨htext _ (h.lines f hf), ?_⟩
  simp [fieldLine, bytes]

/-- What a head announces is determined by the bytes of the message.  There is one way to cut the
bytes into lines, and one way to cut a line into name and value. -/
theorem OutboundHead.fields_unique {head head' startLine startLine' rest rest' : Bytes}
    {fields fields' : Headers} (h : OutboundHead head startLine fields)
    (h' : OutboundHead head' startLine' fields') (heq : head ++ rest = head' ++ rest') :
    fields = fields' := by
  rw [h.eq, h'.eq, List.append_assoc, List.append_assoc] at heq
  obtain ⟨-, hlines, -⟩ := headBytes_append_inj h.lineTexts.1 h'.lineTexts.1 h.lineTexts.2
    h'.lineTexts.2 heq
  have hnames := h.names
  have hnames' := h'.names
  clear h h' heq
  induction fields generalizing fields' with
  | nil => exact (List.map_eq_nil_iff.mp hlines.symm).symm
  | cons f fields ih =>
    cases fields' with
    | nil => cases hlines
    | cons f' fields' =>
      rw [List.map_cons, List.map_cons, List.cons.injEq] at hlines
      rw [fieldLine_inj (hnames f List.mem_cons_self) (hnames' f' List.mem_cons_self) hlines.1,
        ih hlines.2 (fun g hg => hnames g (List.mem_cons_of_mem _ hg))
          fun g hg => hnames' g (List.mem_cons_of_mem _ hg)]

/-- Digits and letters may stand in a field value. -/
lemma validHeaderValue_toChars {base : ℕ} (hb : 1 < base) (hb' : base ≤ 36) (n : ℕ) :
    validHeaderValue (toChars base n) = true := by
  refine List.all_eq_true.mpr fun c hc => ?_
  obtain ⟨d, hd, rfl⟩ := mem_toChars hb hb' hc
  have hall : ∀ d < 36, fieldValueCharacter (digitByte d) = true := by decide
  exact hall d hd

/-- A head that `serialize_head` returns. -/
lemma outboundHead_of_serializeHead {startLine head : Bytes} {headers : Headers}
    {overrides : List HeadOverride} {omitted : List Bytes}
    (hstart : validHeaderValue startLine = true)
    (h : serializeHead startLine headers overrides omitted = .ok head) :
    OutboundHead head startLine (mergeFields overrides omitted headers) := by
  obtain ⟨-, -, hheaders, hoverrides, rfl⟩ := (serializeHead_eq_ok).mp h
  have hvalid : ∀ f ∈ mergeFields overrides omitted headers, validField f = true := by
    intro f hf
    rcases mem_mergeFields hf with hf | hf
    · exact hheaders f hf
    · exact hoverrides f hf
  refine ⟨rfl, ?_, ?_, ?_⟩
  · intro c hc
    by_contra hcontrol
    rw [Bool.not_eq_false] at hcontrol
    exact not_mem_of_validHeaderValue hstart (fieldValueCharacter_of_lineControl hcontrol) hc
  · intro f hf
    exact (Bool.and_eq_true _ _ ▸ hvalid f hf).1
  · intro f hf c hc
    by_contra hcontrol
    rw [Bool.not_eq_false] at hcontrol
    exact not_mem_fieldLine (hvalid f hf) hcontrol hc

/-- The request overrides have different names. -/
lemma distinct_requestOverrides (request : Request) : Distinct (requestOverrides request) := by
  unfold requestOverrides
  split_ifs <;> simp [Distinct] <;> decide

/-- The response overrides have different names. -/
lemma distinct_responseOverrides (request : Request) (response : Response)
    (framing : BodyFraming) : Distinct (responseOverrides request response framing) := by
  unfold responseOverrides framingOverrides
  split_ifs <;> (try split) <;> simp [Distinct] <;> decide

/-- The framing that a message announces.  There is none, a length, or chunked coding; a message
that announces two of them has no value of this type. -/
inductive Framing where
  | none
  | length (n : ℕ)
  | chunked

namespace Framing

/-- The values of `Transfer-Encoding`. -/
def transferEncoding : Framing → List Bytes
  | .chunked => [bytes "chunked"]
  | _ => []

/-- The values of `Content-Length`. -/
def contentLength : Framing → List Bytes
  | .length n => [toChars 10 n]
  | _ => []

end Framing

/-- A field list announces exactly one framing, in at most one field.  Both names are looked up in
any case, and a field that does not belong to the framing is not there at all. -/
structure Announces (fields : Headers) (framing : Framing) : Prop where
  transferEncoding : fields.getAll (bytes "Transfer-Encoding") = framing.transferEncoding
  contentLength : fields.getAll (bytes "Content-Length") = framing.contentLength

/-- The framing of a request: its mode, and the declared or buffered length.  A request without a
body declares the length zero. -/
def requestFraming (request : Request) : Framing :=
  if request.isChunked then .chunked else .length request.declaredLength

/-- The framing of a response: statuses without a body come first, then the mode.  For 205 the
source announces the length zero, and for 1xx and 204 nothing. -/
def responseFraming (status : ℤ) (framing : BodyFraming) : Framing :=
  if (100 ≤ status ∧ status < 200) ∨ status = 204 then .none
  else if status = 205 then .length 0
  else if framing.chunked then .chunked
  else framing.contentLength.elim .none .length

/-- The fields of a request announce its framing. -/
lemma announces_request (request : Request) :
    Announces (mergeFields (requestOverrides request) (requestOmitted request) request.headers)
      (requestFraming request) := by
  have hdistinct := distinct_requestOverrides request
  unfold requestFraming
  by_cases hchunked : request.isChunked = true
  · rw [if_pos hchunked]
    constructor
    · apply getAll_mergeFields_of_mem hdistinct
      simp [requestOverrides, hchunked]
    · apply getAll_mergeFields_of_omitted hdistinct
      · unfold requestOverrides
        rw [if_pos hchunked]
        split_ifs <;> decide
      · rw [requestOmitted, if_pos hchunked]
        decide
  · rw [if_neg hchunked]
    constructor
    · apply getAll_mergeFields_of_omitted hdistinct
      · unfold requestOverrides
        rw [if_neg hchunked]
        generalize toChars 10 request.declaredLength = digits
        split_ifs <;> simp <;> decide
      · rw [requestOmitted, if_neg hchunked]
        decide
    · apply getAll_mergeFields_of_mem hdistinct
      simp [requestOverrides, hchunked]

/-- The overrides that a response has in every mode do not concern its framing. -/
lemma forall_mem_responseOverrides {request : Request} {response : Response}
    {framing : BodyFraming} {p : HeadOverride → Prop} (hserver : p (bytes "Server", bytes "chhttp/0.4"))
    (hconnection : ∀ value, p (bytes "Connection", value))
    (hframing : ∀ o ∈ framingOverrides response.status framing, p o) :
    ∀ o ∈ responseOverrides request response framing, p o := by
  intro o ho
  rw [responseOverrides, List.mem_append, List.mem_cons] at ho
  rcases ho with ho | rfl | ho
  · split_ifs at ho
    · rw [List.mem_singleton] at ho
      exact ho ▸ hserver
    · cases ho
  · exact hconnection _
  · exact hframing o ho

/-- The fields of a response announce its framing. -/
lemma announces_response (request : Request) (response : Response) (framing : BodyFraming) :
    Announces (mergeFields (responseOverrides request response framing)
      (framingOmitted response.status framing) response.headers)
      (responseFraming response.status framing) := by
  have hdistinct := distinct_responseOverrides request response framing
  -- a framing override is emitted, and an omitted framing field is not
  have hemitted : ∀ name value, framingOverrides response.status framing = [(name, value)] →
      (mergeFields (responseOverrides request response framing)
        (framingOmitted response.status framing) response.headers).getAll name = [value] := by
    intro name value hover
    apply getAll_mergeFields_of_mem hdistinct
    simp [responseOverrides, hover]
  have habsent : ∀ name, iequals name (bytes "Server") = false →
      iequals name (bytes "Connection") = false →
      (∀ o ∈ framingOverrides response.status framing, iequals name o.1 = false) →
      isOmitted (framingOmitted response.status framing) name = true →
      (mergeFields (responseOverrides request response framing)
        (framingOmitted response.status framing) response.headers).getAll name = [] := by
    intro name hserver hconnection hframing homit
    apply getAll_mergeFields_of_omitted hdistinct
    · exact forall_mem_responseOverrides hserver (fun _ => hconnection) hframing
    · exact homit
  unfold responseFraming
  unfold framingOverrides framingOmitted at hemitted habsent
  unfold framingOmitted
  split_ifs at hemitted habsent ⊢
  · constructor
    · exact habsent _ (by decide) (by decide) (by simp) (by decide)
    · exact habsent _ (by decide) (by decide) (by simp) (by decide)
  · constructor
    · exact habsent _ (by decide) (by decide) (by simp; decide) (by decide)
    · exact hemitted _ _ rfl
  · constructor
    · exact hemitted _ _ rfl
    · exact habsent _ (by decide) (by decide) (by simp; decide) (by decide)
  · cases hlength : framing.contentLength with
    | none =>
      rw [hlength] at hemitted habsent
      constructor
      · exact habsent _ (by decide) (by decide) (by simp) (by decide)
      · exact habsent _ (by decide) (by decide) (by simp) (by decide)
    | some length =>
      rw [hlength] at hemitted habsent
      constructor
      · exact habsent _ (by decide) (by decide) (by simp; decide) rfl
      · exact hemitted _ _ rfl

/-- A response carries exactly one Connection field. -/
lemma getAll_connection_response (request : Request) (response : Response)
    (framing : BodyFraming) :
    (mergeFields (responseOverrides request response framing)
      (framingOmitted response.status framing) response.headers).getAll (bytes "Connection") =
      [if request.keepAlive && response.keepAlive then bytes "keep-alive" else bytes "close"] := by
  apply getAll_mergeFields_of_mem (distinct_responseOverrides request response framing)
  simp [responseOverrides]

/-- The reason phrases are printable. -/
lemma validHeaderValue_statusReason (status : ℤ) :
    validHeaderValue (statusReason status) = true := by
  unfold statusReason
  split <;> decide +kernel

/-- Valid texts may be joined. -/
lemma validHeaderValue_append {u v : Bytes} :
    validHeaderValue (u ++ v) = true ↔ validHeaderValue u = true ∧ validHeaderValue v = true := by
  simp [validHeaderValue]

/-- The start line of a response is printable. -/
lemma validHeaderValue_responseStartLine (response : Response) :
    validHeaderValue (responseStartLine response) = true := by
  rw [responseStartLine, validHeaderValue_append, validHeaderValue_append, validHeaderValue_append]
  refine ⟨?_, validHeaderValue_toChars (by norm_num) (by norm_num) _, by decide,
    validHeaderValue_statusReason _⟩
  split_ifs <;> decide

/-- A head that `write_request` serialises. -/
lemma serializeRequest_eq_ok {request : Request} {wireTarget head : Bytes}
    (h : serializeRequest request wireTarget = .ok head) :
    validHeaderName request.method = true ∧ wireTarget ≠ [] ∧
      (∀ c ∈ wireTarget, 0x20 < c ∧ c ≠ 0x7f) ∧ (request.version = 10 ∨ request.version = 11) ∧
      (request.bodyStream.isSome = true → request.body = []) ∧
      (request.isChunked = true → request.version = 11) ∧
      serializeHead (requestStartLine request wireTarget) request.headers
        (requestOverrides request) (requestOmitted request) = .ok head := by
  unfold serializeRequest at h
  split_ifs at h with hline hbody hversion
  simp only [Bool.or_eq_true, Bool.not_eq_true', List.isEmpty_iff, List.any_eq_true,
    Bool.and_eq_true, bne_iff_ne, beq_iff_eq, decide_eq_true_eq, not_or, not_and, not_exists,
    not_not, Bool.not_eq_false] at hline hbody hversion
  obtain ⟨⟨⟨hmethod, hne⟩, htarget⟩, hknown⟩ := hline
  have hversion' : request.version = 10 ∨ request.version = 11 := by
    by_cases h10 : request.version = 10
    · exact Or.inl h10
    · exact Or.inr (hknown h10)
  refine ⟨hmethod, hne, ?_, hversion', hbody, ?_, h⟩
  · intro c hc
    obtain ⟨hlow, hdel⟩ := htarget c hc
    exact ⟨UInt8.not_le.mp hlow, hdel⟩
  · intro hchunked
    exact hversion'.resolve_left (hversion hchunked)

/-- The start line of a request is printable. -/
lemma validHeaderValue_requestStartLine {request : Request} {wireTarget : Bytes}
    (hmethod : validHeaderName request.method = true)
    (htarget : ∀ c ∈ wireTarget, 0x20 < c ∧ c ≠ 0x7f) :
    validHeaderValue (requestStartLine request wireTarget) = true := by
  rw [requestStartLine, validHeaderValue_append, validHeaderValue_append, validHeaderValue_append]
  refine ⟨validHeaderValue_of_name hmethod, by decide, ?_, by split_ifs <;> decide⟩
  refine List.all_eq_true.mpr fun c hc => ?_
  obtain ⟨hlow, hdel⟩ := htarget c hc
  rw [fieldValueCharacter_iff]
  exact Or.inr ⟨UInt8.le_of_lt hlow, hdel⟩

/-- A head that `build_response_head` returns. -/
lemma buildResponseHead_eq_ok {request : Request} {response : Response} {framing : BodyFraming}
    {head : Bytes} (h : buildResponseHead request response framing = .ok head) :
    (response.version = 10 ∨ response.version = 11) ∧ 100 ≤ response.status ∧
      response.status ≤ 999 ∧
      serializeHead (responseStartLine response) response.headers
        (responseOverrides request response framing) (framingOmitted response.status framing) =
        .ok head := by
  unfold buildResponseHead at h
  split_ifs at h with hline
  push Not at hline
  exact ⟨by tauto, hline.2.1, hline.2.2, h⟩

/-- Whatever fields the caller supplied, a message that is handed on begins with a clean head that
announces the one framing of its mode; and a response carries one Connection field. -/
theorem outbound_framing :
    (∀ request wireTarget onUploadProgress output,
      (∃ e, writeRequest request wireTarget onUploadProgress output = (some e, output)) ∨
      ∃ head fields,
        StartsWith head output (writeRequest request wireTarget onUploadProgress output).2 ∧
        OutboundHead head (requestStartLine request wireTarget) fields ∧
        Announces fields (requestFraming request)) ∧
    (∀ request response output,
      (∃ e, writeResponse request response output = (some e, output)) ∨
      ∃ head fields,
        StartsWith head output (writeResponse request response output).2 ∧
        OutboundHead head (responseStartLine response) fields ∧
        Announces fields
          (responseFraming response.status { contentLength := some response.body.length }) ∧
        (fields.getAll (bytes "Connection")).length = 1) ∧
    (∀ request response framing output,
      (∃ e, writeResponseHead request response framing output = (some e, output)) ∨
      ∃ head fields,
        StartsWith head output (writeResponseHead request response framing output).2 ∧
        OutboundHead head (responseStartLine response) fields ∧
        Announces fields (responseFraming response.status framing) ∧
        (fields.getAll (bytes "Connection")).length = 1) := by
  refine ⟨?_, ?_, ?_⟩
  · intro request wireTarget onUploadProgress output
    -- either the head is refused before a byte is written, or it stands first on the wire
    cases hhead : serializeRequest request wireTarget with
    | error e => exact Or.inl ⟨e, by rw [writeRequest, hhead]⟩
    | ok head =>
      obtain ⟨hmethod, -, htarget, -, -, -, hserialize⟩ := serializeRequest_eq_ok hhead
      exact Or.inr ⟨head, _, startsWith_writeRequest onUploadProgress output hhead,
        outboundHead_of_serializeHead (validHeaderValue_requestStartLine hmethod htarget)
          hserialize, announces_request request⟩
  · intro request response output
    cases hhead : buildResponseHead request response
        { contentLength := some response.body.length } with
    | error e =>
      refine Or.inl ⟨e, ?_⟩
      rw [writeResponse, writeResponseHead]
      simp only [hhead]
      split_ifs <;> rfl
    | ok head =>
      obtain ⟨-, -, -, hserialize⟩ := buildResponseHead_eq_ok hhead
      exact Or.inr ⟨head, _, startsWith_writeResponse output hhead,
        outboundHead_of_serializeHead (validHeaderValue_responseStartLine response) hserialize,
        announces_response request response _, by rw [getAll_connection_response]; rfl⟩
  · intro request response framing output
    cases hhead : buildResponseHead request response framing with
    | error e => exact Or.inl ⟨e, by rw [writeResponseHead, hhead]⟩
    | ok head =>
      obtain ⟨-, -, -, hserialize⟩ := buildResponseHead_eq_ok hhead
      refine Or.inr ⟨head, _, ⟨[], [], ?_⟩,
        outboundHead_of_serializeHead (validHeaderValue_responseStartLine response) hserialize,
        announces_response request response framing, by rw [getAll_connection_response]; rfl⟩
      rw [writeResponseHead, hhead, List.append_nil]
      exact output.blocks_write head

end Chhttp
