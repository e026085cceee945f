import Chhttp.Protocol.Decoding
import Chhttp.Protocol.RequestHead
import Chhttp.Protocol.Write

/-!
# Reading a response

`readResponse` skips informational responses and reads the final one: its head, and the body that
the method, the status and the head leave it.  A head that is there is read
(`readResponse_of_head`), and then the body it announces (`responseOfHead_body`) or none
(`responseOfHead_noBody`).
-/

namespace Chhttp

open ListSearch Fragment

/-! ### The source -/

/-- The version and the status of a start line.  A negative status fails the same check as one below
100, so only digits are read. -/
def parseStatusLine (startLine : Bytes) : Result (ℕ × ℕ) :=
  match find [sp] startLine with
  | none => .error (protocolError "Malformed HTTP status line")
  | some firstSpace =>
    match parseVersion (startLine.take firstSpace) with
    | none => .error (protocolError "Unsupported HTTP response version")
    | some version =>
      let statusText :=
        match findFrom [sp] startLine (firstSpace + 1) with
        | none => startLine.drop (firstSpace + 1)
        | some secondSpace =>
          (startLine.drop (firstSpace + 1)).take (secondSpace - firstSpace - 1)
      match fromChars 10 (2 ^ 31) statusText with
      | none => .error (protocolError "Invalid HTTP response status")
      | some status =>
        if statusText.length ≠ 3 ∨ status < 100 then
          .error (protocolError "Invalid HTTP response status")
        else .ok (version, status)

/-- `no_body` of `read_response`: the reader knows the `CONNECT` rule. -/
def responseHasNoBody (method : Bytes) (status : ℕ) : Bool :=
  iequals method (bytes "HEAD") ||
    (iequals method (bytes "CONNECT") && decide (200 ≤ status) && decide (status < 300)) ||
    statusHasNoBody status

/-- The response is followed by another one. -/
def isInformational (status : ℕ) : Bool :=
  decide (100 ≤ status) && decide (status < 200) && status != 101

/-- The error of the response head callback. -/
def responseHeadError (options : HttpReadOptions) (head : ResponseHead) : Option ErrorInfo :=
  match options.onResponseHead with
  | none => none
  | some onResponseHead =>
    match (onResponseHead head).error "HTTP response head callback rejected the response"
        "HTTP response head callback failed" with
    | some e => some e
    | none => if options.expired [] then some Interruption.deadline.error else none

/-- The headers of a response whose content coding was removed. -/
def decodedHeaders (options : HttpReadOptions) (headers : Headers) (body : Bytes) : Headers :=
  let headers := headers.erase (bytes "Content-Encoding")
  if options.onData.isSome || options.onDataAsync.isSome then
    headers.erase (bytes "Content-Length")
  else headers.set (bytes "Content-Length") (toChars 10 body.length)

/-- The body of a response that has one, and the headers that go with it. -/
def readResponseBody (decoder : Decoder) (options : HttpReadOptions) (untilEof : Bool)
    (head : ParsedHead) (input : Input) : Result (Bytes × Headers) × Input :=
  match contentCoding options head.headers with
  | none =>
    let r := readBody options head untilEof false input
    (r.result.map fun body => (body, r.headers), r.input)
  | some encoding =>
    match decoder.create encoding options.maxBodySize with
    | some e => (.error e, input)
    | none =>
      let r := readBody (decodedOptions decoder responseDecoded options encoding) head untilEof
        false input
      match r.result with
      | .error e =>
        let decodeError :=
          (decodeBlocks decoder responseDecoded options encoding r.delivery.blocks).1
        (.error (decodeError.getD e), r.input)
      | .ok _ =>
        match decodeEnd decoder responseDecoded options encoding r.delivery.blocks with
        | (some e, _) => (.error e, r.input)
        | (none, d) => (.ok (d.body, decodedHeaders options r.headers d.body), r.input)

/-- What `read_response` does once it has consumed a head.  An informational response has no body
and is followed by another one. -/
def responseOfHead (decoder : Decoder) (method : Bytes) (options : HttpReadOptions)
    (head : ParsedHead) (version status : ℕ) (input : Input) :
    Loop.Next Input (Result Response × Input) :=
  let noBody := responseHasNoBody method status
  let untilEof := !noBody && !head.chunked && head.contentLength.isNone
  let keep := keepAlive version head && !untilEof
  if isInformational status then .again input
  else
    match responseHeadError options
        { status, version, headers := head.headers, keepAlive := keep } with
    | some e => .leave (.error e, input)
    | none =>
      if noBody then
        .leave (.ok { status, version, headers := head.headers, keepAlive := keep }, input)
      else
        match readResponseBody decoder options untilEof head input with
        | (.error e, input) => .leave (.error e, input)
        | (.ok (body, headers), input) =>
          .leave (.ok { status, version, headers, body, keepAlive := keep }, input)

/-- One iteration of the loop of `read_response`. -/
def responseStep (decoder : Decoder) (method : Bytes) (options : HttpReadOptions)
    (input : Input) : Loop.Next Input (Result Response × Input) :=
  match takeHeadBytes options.maxHeaderSize input with
  | (.error e, input) => .leave (.error e, input)
  | (.ok view, input) =>
    match parseHead view with
    | .error e => .leave (.error e, input)
    | .ok head =>
      match parseStatusLine head.startLine with
      | .error e => .leave (.error e, input)
      | .ok (version, status) =>
        responseOfHead decoder method options head version status
          (input.consume (view.length + 2))

/-- Only an informational response is followed by another one, from where its head ends. -/
lemma responseOfHead_again {decoder : Decoder} {method : Bytes} {options : HttpReadOptions}
    {head : ParsedHead} {version status : ℕ} {input input' : Input}
    (h : responseOfHead decoder method options head version status input = .again input') :
    input' = input := by
  unfold responseOfHead at h
  dsimp only at h
  split_ifs at h
  · cases h
    rfl
  · split at h <;> cases h
  · split at h
    · cases h
    · split at h <;> cases h

/-- An informational response that is skipped has been consumed. -/
lemma responseStep_decreases (decoder : Decoder) (method : Bytes) (options : HttpReadOptions) :
    Loop.Decreases (responseStep decoder method options) fun input => input.available.length := by
  intro input input' h
  unfold responseStep at h
  split at h
  · cases h
  · rename_i view middle htake
    obtain ⟨havail, -⟩ := (headTaken_of_takeHeadBytes htake).consume
    split at h
    · cases h
    · split at h
      · cases h
      · obtain rfl := responseOfHead_again h
        simp only
        rw [havail]
        simp only [List.length_append, crlf_length]
        omega

/-- `read_response`.  The loop skips informational responses; it ends, because each round consumes a
head. -/
def readResponse (decoder : Decoder) (method : Bytes) (options : HttpReadOptions)
    (input : Input) : Result Response × Input :=
  Loop.run (responseStep decoder method options) (fun input => input.available.length)
    (responseStep_decreases decoder method options) input

/-! ### What is read -/

/-- A status line: a supported version, a status of three digits and a reason.  The reason may be
empty, but the space before it must be there. -/
structure StatusLine (startLine : Bytes) (version status : ℕ) : Prop where
  split : ∃ digits reason, startLine = versionText version ++ sp :: (digits ++ sp :: reason) ∧
    digits.length = 3 ∧ sp ∉ digits ∧ fromChars 10 (2 ^ 31) digits = some status
  version : version = 10 ∨ version = 11
  status : 100 ≤ status

/-- A status line is read. -/
lemma parseStatusLine_of_statusLine {startLine : Bytes} {version status : ℕ}
    (h : StatusLine startLine version status) :
    parseStatusLine startLine = .ok (version, status) := by
  obtain ⟨⟨digits, reason, rfl, hlen, hsp, hstatus⟩, hversion, hlow⟩ := h
  have hfirst : find [sp] (versionText version ++ sp :: (digits ++ sp :: reason)) =
      some (versionText version).length := find_singleton_append (sp_not_mem_versionText version)
  have hdrop : (versionText version ++ sp :: (digits ++ sp :: reason)).drop
      ((versionText version).length + 1) = digits ++ sp :: reason := by
    rw [← List.drop_drop, List.drop_left]
    rfl
  have hsecond : findFrom [sp] (versionText version ++ sp :: (digits ++ sp :: reason))
      ((versionText version).length + 1) =
        some ((versionText version).length + (digits.length + 1)) := by
    rw [findFrom, hdrop, find_singleton_append hsp, Option.map_some, Option.some.injEq]
    omega
  have hcount : (versionText version).length + (digits.length + 1) -
      (versionText version).length - 1 = digits.length := by omega
  have hparsed : parseVersion (versionText version) = some version :=
    parseVersion_eq_some.mpr ⟨hversion, rfl⟩
  simp only [parseStatusLine, hfirst, List.take_left, hparsed, hsecond, hdrop, hcount, hstatus]
  rw [if_neg (by omega)]

/-- A head that is there brings `read_response` to what follows it. -/
lemma readResponse_of_head {decoder : Decoder} {method : Bytes} {options : HttpReadOptions}
    {input : Input} {start rest : Bytes} {version status : ℕ} {lines : List Bytes}
    {fields : Headers} (havail : input.available = headBytes start lines ++ (crlf ++ rest))
    (hsize : (headBytes start lines).length + 2 ≤ options.maxHeaderSize)
    (hvalid : validHeaderValue start = true)
    (hfields : List.Forall₂ (fun line f => FieldLine line f.1 f.2) lines fields)
    (hframing : FramingFields fields) (hline : StatusLine start version status) :
    ∃ middle, middle.available = rest ∧ responseStep decoder method options input =
      responseOfHead decoder method options (headOf start fields) version status middle := by
  have hstart := lineText_of_validHeaderValue hvalid
  obtain ⟨hlines, hne⟩ := lineTexts_of_fieldLines hfields
  have hstart' : start ≠ [] := by
    obtain ⟨digits, reason, heq, -⟩ := hline.split
    rw [heq]
    simp
  have hfind : find crlfCrlf input.available = some ((headBytes start lines).length - 2) := by
    rw [havail]
    exact find_headBytes hstart hlines hne rest
  have htwo : 2 ≤ (headBytes start lines).length := by
    simp only [headBytes, List.length_append, crlf_length]
    omega
  obtain ⟨view, after, htake, htaken⟩ :=
    takeHeadBytes_of_find hfind (by omega : _ + 4 ≤ options.maxHeaderSize)
  obtain ⟨rfl, hrest⟩ := htaken.view_eq hstart hlines hne havail
  have hhead : parseHead (headBytes start lines) = .ok (headOf start fields) :=
    (parseHead_eq_ok hstart hlines hne).mpr ⟨hstart', hvalid, fields, hfields, hframing, rfl⟩
  have hparsed : parseStatusLine (headOf start fields).startLine = .ok (version, status) :=
    parseStatusLine_of_statusLine hline
  refine ⟨_, hrest, ?_⟩
  simp only [responseStep, htake, hhead, hparsed]

/-- A final response whose method or status forbids a body ends with its head. -/
lemma responseOfHead_noBody {decoder : Decoder} {method : Bytes} {options : HttpReadOptions}
    {head : ParsedHead} {version status : ℕ} (input : Input)
    (hcallback : options.onResponseHead = none) (hfinal : isInformational status = false)
    (hbody : responseHasNoBody method status = true) :
    responseOfHead decoder method options head version status input =
      .leave (.ok { status, version, headers := head.headers, keepAlive := keepAlive version head },
        input) := by
  simp [responseOfHead, responseHeadError, hcallback, hfinal, hbody]

/-- A final response with a framed body ends with this body. -/
lemma responseOfHead_body {decoder : Decoder} {method : Bytes} {options : HttpReadOptions}
    (hbuf : options.Buffered) (hplain : options.autoDecompress = false) {head : ParsedHead}
    {version status : ℕ} {input : Input} {data rest : Bytes}
    (hcallback : options.onResponseHead = none) (hfinal : isInformational status = false)
    (hbody : responseHasNoBody method status = false) (hchunked : head.chunked = false)
    (hlength : head.contentLength = some data.length) (havail : input.available = data ++ rest)
    (hlimit : data.length ≤ options.maxBodySize) :
    ∃ after, after.available = rest ∧
      responseOfHead decoder method options head version status input =
        .leave (.ok { status, version, headers := head.headers, body := data,
                      keepAlive := keepAlive version head }, after) := by
  obtain ⟨r, hr, hok, hheaders, hrest⟩ :=
    readBody_of_bodyFrame hbuf (.fixed hchunked hlength) havail hlimit fun _ => rfl
  refine ⟨r.input, hrest, ?_⟩
  have hcoding : contentCoding options head.headers = none := by simp [contentCoding, hplain]
  simp [responseOfHead, responseHeadError, hcallback, hfinal, hbody, hchunked, hlength,
    readResponseBody, hcoding, hr, hok, hheaders, Except.map]

end Chhttp
