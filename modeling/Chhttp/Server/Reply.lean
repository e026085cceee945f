import Chhttp.Protocol.Decoding
import Chhttp.Protocol.Write

/-!
# Sending a response

`sendResponse` sends a file, a stream or a buffered response.  It may still change the response: a
file that does not open becomes an error response, and a stream to a client before HTTP/1.1 ends
with the connection.  Both turn persistence off (`ClosesLate`).

`Announced` says which persistence the head of a sent response announces
(`announced_of_sendResponse`).
-/

namespace Chhttp

/-! ### Responses -/

/-- `Response::set_content`. -/
def Response.setContent (response : Response) (value : Bytes)
    (contentType : Bytes := bytes "text/plain; charset=utf-8") : Response :=
  { response with
    body := value
    filePath := none
    streamHandler := none
    headers := response.headers.set (bytes "Content-Type") contentType }

/-- The content coding of responses: `select_encoding` for an `Accept-Encoding` value, and
`compress`, which may fail. -/
structure Compressor where
  selectEncoding : Bytes → Bytes
  compress : Bytes → Bytes → Option Bytes

/-- A build without compression. -/
def Compressor.disabled : Compressor where
  selectEncoding _ := []
  compress _ _ := none

/-- The fields of `ServerOptions` that sessions use, with the compression the server was built
with. -/
structure ServerOptions where
  maxBodySize : ℕ := 64 * 1024 * 1024
  maxHeaderSize : ℕ := 64 * 1024
  keepAliveMaxRequests : ℕ := 1000
  compressionThreshold : ℕ := 1024
  autoDecompressRequest : Bool := true
  autoCompressResponse : Bool := true
  decoder : Decoder
  compressor : Compressor

/-! ### Files -/

/-- What `parse_range` does behind the unit. -/
def parseRangeText (value : Bytes) (size : ℕ) : Option (ℕ × ℕ) :=
  match ListSearch.find [dash] value with
  | none => none
  | some 0 =>
    match fromChars 10 uint64Limit (value.drop 1) with
    | none => none
    | some 0 => none
    | some suffix => some (size - min suffix size, size - 1)
  | some dashAt =>
    match fromChars 10 uint64Limit (value.take dashAt) with
    | none => none
    | some first =>
      if size ≤ first then none
      else if dashAt + 1 = value.length then some (first, size - 1)
      else
        match fromChars 10 uint64Limit (value.drop (dashAt + 1)) with
        | none => none
        | some last => if last < first then none else some (first, min last (size - 1))

/-- `parse_range`: the first and the last byte that a `Range` value asks for.  It is none for
several ranges, for another unit, for an empty file and for bounds that are malformed. -/
def parseRange (value : Bytes) (size : ℕ) : Option (ℕ × ℕ) :=
  if !iequals (value.take 6) (bytes "bytes=") || value.contains comma || size == 0 then none
  else parseRangeText (value.drop 6) size

/-- A file that was opened: the size it had then, and the bytes that reading it will find.  The two
differ if the file changes while it is sent, which the source notices by a short read. -/
structure OpenFile where
  size : ℕ
  content : Bytes

/-- `block_size` of `send_file`. -/
def fileBlockSize : ℕ := 256 * 1024

/-- One block of a file; a short read fails. -/
def OpenFile.read (file : OpenFile) (offset count : ℕ) : Option Bytes :=
  let chunk := (file.content.drop offset).take count
  if chunk.length = count then some chunk else none

/-- The state of the loop that sends a file.  The offset grows as the remaining length falls, so
their sum is the end of what was asked for. -/
structure FileTransfer where
  offset : ℕ
  remaining : ℕ
  output : Output

/-- One iteration of the loop that sends a file. -/
def fileStep (file : OpenFile) (s : FileTransfer) :
    Loop.Next FileTransfer (Option ErrorInfo × Output) :=
  if s.remaining = 0 then .leave (none, s.output)
  else if !s.output.isOpen then
    .leave (some { code := .write, message := "File transfer connection closed" }, s.output)
  else
    match file.read s.offset (min s.remaining fileBlockSize) with
    | none =>
      .leave (some { code := .read, message := "Static file read was truncated" }, s.output)
    | some chunk =>
      match s.output.write chunk with
      | (some e, output) => .leave (some e, output)
      | (none, output) =>
        .again { offset := s.offset + chunk.length, remaining := s.remaining - chunk.length, output }

/-- Every block shortens what is left of the file. -/
lemma fileStep_decreases (file : OpenFile) :
    Loop.Decreases (fileStep file) fun s => s.remaining := by
  intro s s' h
  unfold fileStep at h
  split_ifs at h with hzero hopen
  split at h
  · cases h
  · rename_i chunk hread
    unfold OpenFile.read at hread
    dsimp only at hread
    split_ifs at hread with hlen
    cases hread
    split at h
    · cases h
    · cases h
      have hpos : 0 < min s.remaining fileBlockSize := by
        simp only [fileBlockSize]
        omega
      show s.remaining - (List.take _ _).length < s.remaining
      rw [hlen]
      omega

/-- The loop that sends a file. -/
def writeFile (file : OpenFile) (s : FileTransfer) : Option ErrorInfo × Output :=
  Loop.run (fileStep file) (fun s => s.remaining) (fileStep_decreases file) s

/-- The validator of a conditional range matches. -/
def validatorMatches (request : Request) (response : Response) : Bool :=
  match findHeader request.headers (bytes "If-Range") with
  | none => true
  | some validator =>
    decide (2 ≤ validator.length) && validator.head? == some 0x22 &&
      validator.getLast? == some 0x22 &&
      findHeader response.headers (bytes "ETag") == some validator

/-- The `Range` value that `send_file` answers.  A range is only looked at for `GET` and a status of
200, and if the validator of `If-Range` matches. -/
def requestedRange (request : Request) (response : Response) : Option Bytes :=
  if response.status = 200 ∧ iequals request.method (bytes "GET") ∧
      validatorMatches request response then
    (findHeader request.headers (bytes "Range")).filter (istartsWith · (bytes "bytes="))
  else none

/-- The part of a file, given as first byte and length. -/
def sendFilePart (request : Request) (response : Response) (file : OpenFile) (first length : ℕ)
    (output : Output) : Option ErrorInfo × Output :=
  match writeResponseHead request response { contentLength := some length } output with
  | (some e, output) => (some e, output)
  | (none, output) =>
    if iequals request.method (bytes "HEAD") || length == 0 || statusHasNoBody response.status then
      (none, output)
    else writeFile file { offset := first, remaining := length, output }

/-- The transfer of an open file. -/
def transferFile (request : Request) (response : Response) (file : OpenFile) (output : Output) :
    Option ErrorInfo × Output :=
  match requestedRange request response with
  | some range =>
    match parseRange range file.size with
    | none =>
      let response := { response with
        status := 416
        headers := response.headers.set (bytes "Content-Range")
          (bytes "bytes */" ++ toChars 10 file.size)
        body := [] }
      writeResponse request response output
    | some (first, last) =>
      let response := { response with
        status := 206
        headers := response.headers.set (bytes "Content-Range")
          (bytes "bytes " ++ (toChars 10 first ++ (bytes "-" ++ (toChars 10 last ++
            (bytes "/" ++ toChars 10 file.size))))) }
      sendFilePart request response file first (last - first + 1) output
  | none => sendFilePart request response file 0 file.size output

/-- `send_file`; `opened` is the file, if it could be opened.  Otherwise the answer is 500, and the
connection closes. -/
def sendFile (request : Request) (response : Response) (opened : Option OpenFile)
    (output : Output) : Option ErrorInfo × Output :=
  match opened with
  | none =>
    let response := { response with status := 500, keepAlive := false }
    writeResponse request (response.setContent (bytes "Unable to open response file")) output
  | some file => transferFile request response file output

/-! ### Streams -/

/-- The class `ChunkSink`, to which a stream handler of the server writes.  It is open until a write
fails. -/
structure ChunkSink where
  output : Output
  chunked : Bool
  isOpen : Bool := true

namespace ChunkSink

/-- `ChunkSink::write`. -/
def write (s : ChunkSink) (data : Bytes) : Bool × ChunkSink :=
  if !s.isOpen then (false, s)
  else if data.isEmpty then (true, s)
  else
    match if s.chunked then writeChunk data s.output else s.output.write data with
    | (some _, output) => (false, { s with output, isOpen := false })
    | (none, output) => (true, { s with output })

/-- `ChunkSink::open`. -/
def isWritable (s : ChunkSink) : Bool := s.isOpen && s.output.isOpen

/-- The sink as a producer sees it. -/
def ops : SinkOps ChunkSink := { write, isOpen := isWritable }

end ChunkSink

/-- The body of a streamed response. -/
def sendStreamBody (producer : Producer) (chunked : Bool) (output : Output) :
    Option ErrorInfo × Output :=
  match producer.run ChunkSink.ops { output, chunked } with
  | (some _, s) =>
    (some { code := .write, message := "Streaming response handler failed" }, s.output)
  | (none, s) =>
    if !s.isWritable then
      (some { code := .write, message := "Streaming connection closed" }, s.output)
    else if chunked then writeLastChunk s.output
    else (none, s.output)

/-- A streamed response: without chunks it ends with the connection. -/
def sendStream (request : Request) (response : Response) (producer : Producer)
    (output : Output) : Option ErrorInfo × Output :=
  let omitBody := iequals request.method (bytes "HEAD") || statusHasNoBody response.status
  let chunked := decide (11 ≤ request.version)
  let response := if chunked then response else { response with keepAlive := false }
  let contentLength := if chunked then some 0 else none
  match writeResponseHead request response { chunked, contentLength } output with
  | (some e, output) => (some e, output)
  | (none, output) =>
    if omitBody then (none, output) else sendStreamBody producer chunked output

/-! ### Buffered responses -/

/-- The content coding that a buffered response gets, if it is not empty. -/
def responseEncoding (options : ServerOptions) (request : Request) (response : Response) : Bytes :=
  if options.autoCompressResponse && decide (options.compressionThreshold ≤ response.body.length) &&
      !response.headers.contains (bytes "Content-Encoding") &&
      !iequals request.method (bytes "HEAD") && !statusHasNoBody response.status then
    options.compressor.selectEncoding
      ((findHeader request.headers (bytes "Accept-Encoding")).getD [])
  else []

/-- The response with its body compressed, if it should and can be.  A compression that fails leaves
the response as it is, without a coding. -/
def compressResponse (options : ServerOptions) (request : Request) (response : Response) :
    Response :=
  let encoding := responseEncoding options request response
  if encoding.isEmpty then response
  else
    match options.compressor.compress response.body encoding with
    | none => response
    | some body =>
      let headers := response.headers.set (bytes "Content-Encoding") encoding
      { response with
        body
        headers :=
          if !hasToken headers (bytes "Vary") (bytes "Accept-Encoding") &&
              !hasToken headers (bytes "Vary") (bytes "*") then
            headers.add (bytes "Vary") (bytes "Accept-Encoding")
          else headers }

/-- `send_response`; `openFile` is the file system. -/
def sendResponse (options : ServerOptions) (openFile : Bytes → Option OpenFile)
    (request : Request) (response : Response) (output : Output) : Option ErrorInfo × Output :=
  match response.filePath with
  | some path => sendFile request response (openFile path) output
  | none =>
    match response.streamHandler with
    | some producer => sendStream request response producer output
    | none => writeResponse request (compressResponse options request response) output

/-! ### What the head announces -/

/-- What was handed on starts with a head that announces the given persistence. -/
def Announced (output output' : Output) (keep : Bool) : Prop :=
  ∃ head startLine fields, StartsWith head output output' ∧ OutboundHead head startLine fields ∧
    fields.getAll (bytes "Connection") = [if keep then bytes "keep-alive" else bytes "close"]

/-- Persistence is turned off after the session has decided about it. -/
def ClosesLate (openFile : Bytes → Option OpenFile) (request : Request) (response : Response) :
    Prop :=
  match response.filePath with
  | some path => openFile path = none
  | none => response.streamHandler.isSome = true ∧ request.version < 11

/-- A head that `write_response_head` hands on announces the persistence of its response. -/
lemma announced_of_writeResponseHead {request : Request} {response : Response}
    {framing : BodyFraming} {output output' : Output}
    (h : writeResponseHead request response framing output = (none, output')) :
    Announced output output' (request.keepAlive && response.keepAlive) := by
  unfold writeResponseHead at h
  split at h
  · cases h
  · rename_i head hbuild
    obtain ⟨-, -, -, hserialize⟩ := buildResponseHead_eq_ok hbuild
    refine ⟨head, _, _, ⟨[], [], ?_⟩,
      outboundHead_of_serializeHead (validHeaderValue_responseStartLine response) hserialize,
      getAll_connection_response request response framing⟩
    have hblocks := output.blocks_write head
    rw [h] at hblocks
    rw [List.append_nil]
    exact hblocks

/-- A response that `write_response` hands on announces its persistence. -/
lemma announced_of_writeResponse {request : Request} {response : Response}
    {output output' : Output} (h : writeResponse request response output = (none, output')) :
    Announced output output' (request.keepAlive && response.keepAlive) := by
  cases hbuild : buildResponseHead request response
      { contentLength := some response.body.length } with
  | error e =>
    rw [writeResponse, writeResponseHead] at h
    simp only [hbuild] at h
    split_ifs at h <;> cases h
  | ok head =>
    obtain ⟨-, -, -, hserialize⟩ := buildResponseHead_eq_ok hbuild
    have hstarts := startsWith_writeResponse output hbuild
    rw [h] at hstarts
    exact ⟨head, _, _, hstarts,
      outboundHead_of_serializeHead (validHeaderValue_responseStartLine response) hserialize,
      getAll_connection_response request response _⟩

/-- What follows a head does not change what it announces. -/
lemma Announced.mono {output middle output' : Output} {keep : Bool}
    (h : Announced output middle keep) (hextends : middle.blocks <+: output'.blocks) :
    Announced output output' keep := by
  obtain ⟨head, startLine, fields, ⟨rest, more, hblocks⟩, hhead, hconnection⟩ := h
  obtain ⟨tail, htail⟩ := hextends
  refine ⟨head, startLine, fields, ⟨rest, more ++ tail, ?_⟩, hhead, hconnection⟩
  rw [← htail, hblocks, List.append_assoc, List.cons_append]

/-- Sending a file only adds blocks. -/
lemma blocks_prefix_writeFile (file : OpenFile) (s : FileTransfer) :
    s.output.blocks <+: (writeFile file s).2.blocks := by
  let Post : FileTransfer → Option ErrorInfo × Output → Prop := fun s a =>
    s.output.blocks <+: a.2.blocks
  have hrun : Post s (writeFile file s) := by
    refine Loop.run_induct (fileStep_decreases file) ?_ ?_ s
    · intro s a hb
      unfold fileStep at hb
      split_ifs at hb
      · cases hb
        exact List.prefix_rfl
      · cases hb
        exact List.prefix_rfl
      · split at hb
        · cases hb
          exact List.prefix_rfl
        · rename_i chunk _
          have hblocks := s.output.blocks_write chunk
          split at hb
          · rename_i hwrite
            cases hb
            rw [hwrite] at hblocks
            exact ⟨_, hblocks.symm⟩
          · cases hb
    · intro s s' a hb ih
      unfold fileStep at hb
      split_ifs at hb
      split at hb
      · cases hb
      · rename_i chunk _
        have hblocks := s.output.blocks_write chunk
        split at hb
        · cases hb
        · rename_i hwrite
          cases hb
          rw [hwrite] at hblocks
          exact List.IsPrefix.trans ⟨_, hblocks.symm⟩ ih
  exact hrun

/-- A streamed body only adds blocks. -/
lemma blocks_prefix_sendStreamBody (producer : Producer) (chunked : Bool) (output : Output) :
    output.blocks <+: (sendStreamBody producer chunked output).2.blocks := by
  have hwrite : ∀ (s : ChunkSink) data, output.blocks <+: s.output.blocks →
      output.blocks <+: (ChunkSink.ops.write s data).2.output.blocks := by
    intro s data hs
    show _ <+: (s.write data).2.output.blocks
    have hblocks : s.output.blocks <+:
        (if s.chunked then writeChunk data s.output else s.output.write data).2.blocks := by
      split_ifs
      · exact blocks_prefix_writeChunk data s.output
      · exact ⟨_, (s.output.blocks_write data).symm⟩
    unfold ChunkSink.write
    by_cases hopen : (!s.isOpen) = true
    · rw [if_pos hopen]
      exact hs
    · rw [if_neg hopen]
      by_cases hempty : data.isEmpty = true
      · rw [if_pos hempty]
        exact hs
      · rw [if_neg hempty]
        generalize (if s.chunked then writeChunk data s.output else s.output.write data) = written
          at hblocks
        obtain ⟨error, middle⟩ := written
        cases error <;> exact hs.trans hblocks
  have hrun := @Producer.run_invariant _ ChunkSink.ops
    (fun s => output.blocks <+: s.output.blocks) hwrite producer { output, chunked }
    List.prefix_rfl
  unfold sendStreamBody
  split
  · rename_i hp
    rw [hp] at hrun
    exact hrun
  · rename_i s hp
    rw [hp] at hrun
    split_ifs
    · exact hrun
    · exact hrun.trans ⟨_, (s.output.blocks_write _).symm⟩
    · exact hrun

/-- The part of a file is announced like its response. -/
lemma announced_of_sendFilePart {request : Request} {response : Response} {file : OpenFile}
    {first length : ℕ} {output output' : Output}
    (h : sendFilePart request response file first length output = (none, output')) :
    Announced output output' (request.keepAlive && response.keepAlive) := by
  unfold sendFilePart at h
  split at h
  · cases h
  · rename_i middle hhead
    have hannounced := announced_of_writeResponseHead hhead
    split_ifs at h
    · cases h
      exact hannounced
    · refine hannounced.mono ?_
      have hblocks := blocks_prefix_writeFile file
        { offset := first, remaining := length, output := middle }
      rw [h] at hblocks
      exact hblocks

/-- A file is announced like its response, whether a range of it is sent or all. -/
lemma announced_of_transferFile {request : Request} {response : Response} {file : OpenFile}
    {output output' : Output} (h : transferFile request response file output = (none, output')) :
    Announced output output' (request.keepAlive && response.keepAlive) := by
  unfold transferFile at h
  split at h
  · split at h
    · have := announced_of_writeResponse h
      exact this
    · have := announced_of_sendFilePart h
      exact this
  · exact announced_of_sendFilePart h

/-- Compression does not concern persistence. -/
lemma keepAlive_compressResponse (options : ServerOptions) (request : Request)
    (response : Response) :
    (compressResponse options request response).keepAlive = response.keepAlive := by
  unfold compressResponse
  by_cases hempty : (responseEncoding options request response).isEmpty = true
  · simp only [if_pos hempty]
  · simp only [if_neg hempty]
    cases options.compressor.compress response.body (responseEncoding options request response) <;>
      rfl

/-- A response that was sent announces the persistence of its session, unless this was turned off
late: then it announces that the connection closes. -/
theorem announced_of_sendResponse {options : ServerOptions} {openFile : Bytes → Option OpenFile}
    {request : Request} {response : Response} {output output' : Output}
    (h : sendResponse options openFile request response output = (none, output')) :
    (¬ ClosesLate openFile request response →
      Announced output output' (request.keepAlive && response.keepAlive)) ∧
    (ClosesLate openFile request response → Announced output output' false) := by
  unfold sendResponse at h
  unfold ClosesLate
  cases hfile : response.filePath with
  | some path =>
    rw [hfile] at h
    simp only at h ⊢
    cases hopen : openFile path with
    -- a file that cannot be opened: the head is built again, as an error that closes
    | none =>
      rw [hopen] at h
      refine ⟨fun hne => absurd rfl hne, fun _ => ?_⟩
      have := announced_of_writeResponse h
      rwa [Response.setContent, Bool.and_false] at this
    | some file =>
      rw [hopen] at h
      refine ⟨fun _ => ?_, fun hne => by cases hne⟩
      exact announced_of_transferFile h
  | none =>
    rw [hfile] at h
    simp only at h ⊢
    cases hstream : response.streamHandler with
    | none =>
      rw [hstream] at h
      refine ⟨fun _ => ?_, fun hlate => by simp at hlate⟩
      have := announced_of_writeResponse h
      rwa [keepAlive_compressResponse] at this
    | some producer =>
      rw [hstream] at h
      simp only [sendStream] at h
      split at h
      · cases h
      · rename_i middle hhead
        have hannounced := announced_of_writeResponseHead hhead
        have hsent : Announced output output' (request.keepAlive &&
            (if decide (11 ≤ request.version) then response
              else { response with keepAlive := false }).keepAlive) := by
          split_ifs at h
          · cases h
            exact hannounced
          · refine hannounced.mono ?_
            have hblocks := blocks_prefix_sendStreamBody producer (decide (11 ≤ request.version))
              middle
            rw [h] at hblocks
            exact hblocks
        -- HTTP/1.0 has no chunks, so the stream ends with its connection
        by_cases hversion : 11 ≤ request.version
        · rw [if_pos (by simpa using hversion)] at hsent
          exact ⟨fun _ => hsent, fun hlate => by omega⟩
        · rw [if_neg (by simpa using hversion)] at hsent
          refine ⟨fun hnot => absurd ⟨rfl, by omega⟩ hnot, fun _ => ?_⟩
          simpa using hsent

end Chhttp
