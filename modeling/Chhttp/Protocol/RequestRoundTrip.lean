import Chhttp.Protocol.Request
import Chhttp.Protocol.Sent
import Chhttp.Protocol.Written

/-!
# Requests survive the wire

A request that the client writes on a reliable transport is read by the server as the same request
(`readRequest_of_writeRequest`): its method, version, target and body, and the fields that the
writer does not set itself.
-/

namespace Chhttp

open ListSearch Fragment

/-- The body of a written request has the frame that its head announces. -/
lemma bodyFrame_of_requestWord {request : Request} {word : Bytes} (h : RequestWord request word)
    {head : ParsedHead} {maxHeaderSize : ℕ} (hroom : 2 ≤ maxHeaderSize)
    (hlength : head.contentLength = (requestFraming request).length?)
    (hchunked : head.chunked = (requestFraming request).isChunked) :
    BodyFrame maxHeaderSize head word [] (sentBody request) := by
  unfold RequestWord at h
  unfold requestFraming at hlength hchunked
  by_cases hmode : request.isChunked = true
  · rw [if_pos hmode] at h hlength hchunked
    obtain ⟨pieces, hpieces, rfl⟩ := h
    obtain ⟨hvalid, hpayload, hencode⟩ := writtenFrame_valid hpieces hroom
    have hframe : BodyFrame maxHeaderSize head _ [] _ := .chunked hchunked hvalid
    rwa [hpayload, hencode] at hframe
  · rw [if_neg hmode] at h hlength hchunked
    obtain ⟨rfl, hlen⟩ := h
    exact .fixed hchunked (by rw [hlength, hlen]; rfl)

/-- The fields that the writer of a request sets or removes.  All other fields of the caller are
written as they are. -/
def writerSets (request : Request) (name : Bytes) : Bool :=
  iequals name (bytes "Content-Length") || iequals name (bytes "Transfer-Encoding") ||
    (iequals name (bytes "Connection") &&
      (findHeader request.headers (bytes "Connection")).isNone) ||
    (iequals name (bytes "User-Agent") &&
      (findHeader request.headers (bytes "User-Agent")).isNone)

/-- These are the fields with an override and the omitted ones. -/
lemma writerSets_eq (request : Request) (name : Bytes) :
    (!writerSets request name) = ((overrideIndex (requestOverrides request) name).isNone &&
      !isOmitted (requestOmitted request) name) := by
  have hindex : (overrideIndex (requestOverrides request) name).isNone =
      !(requestOverrides request).any (fun o => iequals name o.1) := by
    rw [overrideIndex, List.findIdx?_isNone, List.not_any_eq_all_not]
    congr 1
    funext o
    cases iequals name o.1 <;> rfl
  rw [hindex]
  unfold writerSets isOmitted requestOverrides requestOmitted
  by_cases hchunked : request.isChunked = true <;>
    cases findHeader request.headers (bytes "Connection") <;>
    cases findHeader request.headers (bytes "User-Agent") <;>
    simp [hchunked, Bool.and_comm, Bool.and_left_comm, Bool.and_assoc]

/-- The other fields of a request are written in order. -/
lemma filter_written (request : Request) :
    (mergeFields (requestOverrides request) (requestOmitted request) request.headers).filter
        (fun f => !writerSets request f.1) =
      request.headers.filter fun f => !writerSets request f.1 := by
  have h := congrArg (List.filter fun f => !isOmitted (requestOmitted request) f.1)
    (filter_mergeFields (requestOverrides request) (requestOmitted request) request.headers)
  rw [List.filter_filter, List.filter_filter] at h
  simp only [writerSets_eq]
  simpa [Bool.and_comm, Bool.and_left_comm] using h

/-- Other names are left alone. -/
lemma writerSets_eq_false (request : Request) {name : Bytes}
    (h : ∀ set ∈ [bytes "Content-Length", bytes "Transfer-Encoding", bytes "Connection",
      bytes "User-Agent"], iequals name set = false) : writerSets request name = false := by
  simp only [List.mem_cons, List.not_mem_nil, or_false, forall_eq_or_imp, forall_eq] at h
  simp [writerSets, h]

/-- A name that the writer leaves alone keeps its values. -/
lemma getAll_written {request : Request} {name : Bytes} (h : writerSets request name = false) :
    (mergeFields (requestOverrides request) (requestOmitted request) request.headers).getAll name =
      request.headers.getAll name := by
  have hboth := writerSets_eq request name
  rw [h, Bool.not_false, eq_comm, Bool.and_eq_true, Option.isNone_iff_eq_none,
    Bool.not_eq_true'] at hboth
  rw [getAll_mergeFields (distinct_requestOverrides request), hboth.1, hboth.2]
  simp

/-- The start line of a request is its request line. -/
lemma requestLine_of_serializeRequest {request : Request} {wireTarget head : Bytes}
    (h : serializeRequest request wireTarget = .ok head) :
    RequestLine (requestStartLine request wireTarget) request.method wireTarget
      request.version := by
  obtain ⟨hmethod, hne, htarget, hversion, -, -, -⟩ := serializeRequest_eq_ok h
  refine ⟨?_, hversion, hmethod, hne, htarget⟩
  unfold requestStartLine versionText
  rcases hversion with hv | hv <;> rw [hv] <;> rfl

/-- The fields of a request as they are written. -/
def writtenRequestFields (request : Request) : Headers :=
  mergeFields (requestOverrides request) (requestOmitted request) request.headers

/-- What a reader finds in a written request: the lines of its head, the rules of requests, and the
frame of its body. -/
structure WrittenRequest (request : Request) (wireTarget : Bytes) (maxHeaderSize : ℕ)
    (word : Bytes) : Prop where
  size : (headBytes (requestStartLine request wireTarget)
    ((writtenRequestFields request).map fieldLine)).length + 2 ≤ maxHeaderSize
  fields : List.Forall₂ (fun line f => FieldLine line f.1 f.2)
    ((writtenRequestFields request).map fieldLine) ((writtenRequestFields request).map trimField)
  framing : FramingFields ((writtenRequestFields request).map trimField)
  line : RequestLine (requestStartLine request wireTarget) request.method wireTarget request.version
  rules : WellFormedRequest wireTarget request.version ((writtenRequestFields request).map trimField)
  expect : Headers.contains ((writtenRequestFields request).map trimField) (bytes "Expect") = false
  frame : BodyFrame maxHeaderSize (headOf (requestStartLine request wireTarget)
    ((writtenRequestFields request).map trimField)) word [] (sentBody request)

/-- A request on a reliable transport is its head and its body. -/
lemma writtenRequest_of_writeRequest {request : Request} {wireTarget : Bytes} {maxHeaderSize : ℕ}
    {onUploadProgress : Option (List Bytes → Option ℕ → Reaction)} {output output' : Output}
    {host path : Bytes} (hreliable : output.Reliable)
    (hwrite : writeRequest request wireTarget onUploadProgress output = (none, output'))
    (htarget : wireTarget.head? = some slash) (hpath : urlDecode (rawPath wireTarget) = .ok path)
    (hhost : request.headers.getAll (bytes "Host") = [host]) (hblank : trimOws host ≠ [])
    (hcomma : comma ∉ host) (hexpect : request.headers.contains (bytes "Expect") = false)
    (hlength : request.declaredLength < 2 ^ 64)
    (hhead : ∀ head, serializeRequest request wireTarget = .ok head → head.length ≤ maxHeaderSize) :
    ∃ word, output'.bytes = output.bytes ++ (headBytes (requestStartLine request wireTarget)
        ((writtenRequestFields request).map fieldLine) ++ (crlf ++ word)) ∧
      WrittenRequest request wireTarget maxHeaderSize word := by
  obtain ⟨head, word, hserialize, hword, hbytes⟩ := written_of_writeRequest hreliable hwrite
  obtain ⟨-, -, -, -, -, -, hmerged⟩ := serializeRequest_eq_ok hserialize
  obtain ⟨-, -, hheaders, hoverrides, hlines⟩ := (serializeHead_eq_ok).mp hmerged
  have hvalid : ∀ f ∈ writtenRequestFields request, validField f = true := by
    intro f hf
    rcases mem_mergeFields hf with hf | hf
    · exact hheaders f hf
    · exact hoverrides f hf
  have hmax := hhead head hserialize
  rw [hlines, List.length_append, crlf_length] at hmax
  have hlimit : ∀ n, (requestFraming request).length? = some n → n < uint64Limit := by
    intro n hn
    unfold requestFraming at hn
    split_ifs at hn
    · cases hn
    · cases hn
      exact hlength
  obtain ⟨hframing, hheadLength, hheadChunked⟩ :=
    headOf_of_announces (announces_request request) hlimit (requestStartLine request wireTarget)
  have hnoexpect : (writtenRequestFields request).contains (bytes "Expect") = false := by
    rw [Headers.contains_eq_false_iff] at hexpect ⊢
    rw [writtenRequestFields, getAll_written (writerSets_eq_false request (by decide)), hexpect]
  refine ⟨word, by rw [hbytes, hlines, List.append_assoc]; rfl, hmax, fieldLines_of_validFields hvalid,
    hframing, requestLine_of_serializeRequest hserialize, ?_, contains_map_trimField hnoexpect,
    bodyFrame_of_requestWord hword (by omega) hheadLength hheadChunked⟩
  refine ⟨fun _ => ⟨trimOws host, ?_, hblank, ?_⟩, ⟨wireTarget, ?_, path, hpath⟩, ?_⟩
  · rw [getAll_map_trimField, writtenRequestFields,
      getAll_written (writerSets_eq_false request (by decide)), hhost]
    rfl
  · intro hmem
    exact hcomma (mem_of_mem_trimWith hmem)
  · simp [routingTarget, isAbsoluteForm, htarget]
  · intro hcontains
    rw [contains_map_trimField hnoexpect] at hcontains
    cases hcontains

/-- Requests survive the wire.  What the client writes on a reliable transport is read by the
server, in all cuts and whatever follows, as a request with the same method, version, target and
body, and with the caller's fields in order; and nothing of what follows is read. -/
theorem readRequest_of_writeRequest (request : Request) (wireTarget : Bytes)
    (onUploadProgress : Option (List Bytes → Option ℕ → Reaction)) (output output' : Output)
    (decoder : Decoder) (options : HttpReadOptions) (input : Input) (serverOutput : Output)
    (rest host path : Bytes) (hreliable : output.Reliable)
    (hwrite : writeRequest request wireTarget onUploadProgress output = (none, output'))
    (htarget : wireTarget.head? = some slash) (hpath : urlDecode (rawPath wireTarget) = .ok path)
    (hhost : request.headers.getAll (bytes "Host") = [host]) (hblank : trimOws host ≠ [])
    (hcomma : comma ∉ host) (hexpect : request.headers.contains (bytes "Expect") = false)
    (hlength : request.declaredLength < 2 ^ 64) (hbuf : options.Buffered)
    (hplain : options.autoDecompress = false)
    (hhead : ∀ head, serializeRequest request wireTarget = .ok head →
      head.length ≤ options.maxHeaderSize)
    (hbody : (sentBody request).length ≤ options.maxBodySize)
    (havail : output.bytes ++ input.available = output'.bytes ++ rest) :
    ∃ received after,
      readRequest decoder options input serverOutput = (.ok received, after, serverOutput) ∧
      received.method = request.method ∧ received.version = request.version ∧
      received.target = wireTarget ∧ received.body = sentBody request ∧
      after.available = rest ∧
      received.headers.filter (fun f => !writerSets request f.1) =
        (request.headers.filter fun f => !writerSets request f.1).map trimField := by
  -- the bytes on the wire are a serialized head and the word of its framing
  obtain ⟨head, word, hserialize, hword, hbytes⟩ := written_of_writeRequest hreliable hwrite
  obtain ⟨-, -, -, -, -, -, hmerged⟩ := serializeRequest_eq_ok hserialize
  obtain ⟨-, -, hheaders, hoverrides, hlines⟩ := (serializeHead_eq_ok).mp hmerged
  let fields := mergeFields (requestOverrides request) (requestOmitted request) request.headers
  have hvalid : ∀ f ∈ fields, validField f = true := by
    intro f hf
    rcases mem_mergeFields hf with hf | hf
    · exact hheaders f hf
    · exact hoverrides f hf
  have hmax := hhead head hserialize
  rw [hlines, List.length_append, crlf_length] at hmax
  have hlimit : ∀ n, (requestFraming request).length? = some n → n < uint64Limit := by
    intro n hn
    unfold requestFraming at hn
    split_ifs at hn
    · cases hn
    · cases hn
      exact hlength
  obtain ⟨hframing, hheadLength, hheadChunked⟩ :=
    headOf_of_announces (announces_request request) hlimit (requestStartLine request wireTarget)
  have hnoexpect : fields.contains (bytes "Expect") = false := by
    rw [Headers.contains_eq_false_iff] at hexpect ⊢
    rw [getAll_written (writerSets_eq_false request (by decide)), hexpect]
  -- the rules of the reader: `Host` once, and a target in origin form; the writer does not
  -- touch the caller's `Host`
  have hrules : WellFormedRequest wireTarget request.version (fields.map trimField) := by
    refine ⟨fun _ => ⟨trimOws host, ?_, hblank, ?_⟩, ⟨wireTarget, ?_, path, hpath⟩, ?_⟩
    · have hkept : writerSets request (bytes "Host") = false :=
        writerSets_eq_false request (by decide)
      rw [getAll_map_trimField, getAll_written hkept, hhost]
      rfl
    · intro hmem
      exact hcomma (mem_of_mem_trimWith hmem)
    · simp [routingTarget, isAbsoluteForm, htarget]
    · intro hcontains
      rw [contains_map_trimField hnoexpect] at hcontains
      cases hcontains
  have hframe := @bodyFrame_of_requestWord request word hword _ options.maxHeaderSize (by omega)
    hheadLength hheadChunked
  have hinput : input.available = headBytes (requestStartLine request wireTarget)
      (fields.map fieldLine) ++ (crlf ++ (word ++ rest)) := by
    rw [hbytes, hlines] at havail
    simpa using havail
  -- head and body together, from the theorem on well-formed requests
  obtain ⟨received, after, hread, hmethod, hversion, htarget', hbody', hfields, hrest⟩ :=
    @readRequest_of_wellFormed decoder options hbuf hplain input serverOutput _ _ _ _ _ _ _ _ _
      hinput hmax
      (fieldLines_of_validFields hvalid) hframing (requestLine_of_serializeRequest hserialize) hrules
      (contains_map_trimField hnoexpect) hframe hbody
  refine ⟨received, after, hread, hmethod, hversion, htarget', hbody', hrest, ?_⟩
  rw [hfields, ← filter_written request, List.filter_map]
  rfl

/-- An upload in one chunk, without a declared length. -/
def upload : Request where
  method := bytes "PUT"
  headers := [(bytes "Host", bytes "a"), (bytes "x", bytes " b ")]
  bodyStream := some (.write (bytes "hi") fun _ => .finished)

/-- The upload, followed by two more bytes and cut inside its chunk, is read. -/
theorem readRequest_of_writeRequest_upload :
    ∃ received after,
      readRequest .disabled (bufferedOptions 256 16)
        ⟨bytes "PUT /f HTTP/1.1\r\nHost: a\r\nx:  b \r\nTransfer-Encoding: chunked\r\n" ++
            bytes "Connection: keep-alive\r\nUser-Agent: chhttp/0.4\r\n\r\n2\r\nh",
          [.data (bytes "i\r\n0\r\n\r\nGE")]⟩ {} = (.ok received, after, {}) ∧
      received.method = upload.method ∧ received.version = upload.version ∧
      received.target = bytes "/f" ∧ received.body = sentBody upload ∧
      after.available = bytes "GE" ∧
      received.headers.filter (fun f => !writerSets upload f.1) =
        (upload.headers.filter fun f => !writerSets upload f.1).map trimField :=
  readRequest_of_writeRequest upload (bytes "/f") none {}
    (writeRequest upload (bytes "/f") none {}).2 .disabled (bufferedOptions 256 16) _ {}
    (bytes "GE") (bytes "a") (bytes "/f") ⟨rfl, rfl, fun _ => rfl⟩ rfl rfl rfl rfl (by decide)
    (by decide) (by decide) (by decide) (bufferedOptions_buffered _ _) rfl
    (fun head h => by cases h; decide +kernel) (by decide) (by decide +kernel)

end Chhttp
