import Chhttp.Multipart.Consume
import Chhttp.Multipart.Length
import Chhttp.Server.Conversation

/-!
# Uploads

A client puts a form into a request with `MultipartWriter::apply`, `write_request` sends it, and a
stream route of the server reads its head and hands its body to `consume_multipart`.  The callbacks
get the parts that the client has added (`upload_received`).
-/

namespace Chhttp

namespace Multipart

open MultipartWriter RequestBodySource

/-! ### The source -/

/-- `apply`. -/
def MultipartWriter.apply (writer : MultipartWriter) (request : Request) : Request :=
  { request with
    headers := request.headers.set (bytes "Content-Type") writer.contentType
    body := [], bodyStream := some writer.write, bodyStreamLength := writer.contentLength }

/-! ### What is sent -/

/-- A producer that meets an accepting writer writes its data. -/
lemma run_accepting_eq (producer : Producer) (written : Bytes) :
    (producer.run accepting written).2 = written ++ producer.data := by
  induction producer generalizing written with
  | finished => exact (List.append_nil written).symm
  | threw thrown => exact (List.append_nil written).symm
  | write data next ih =>
    rw [Producer.run, Producer.data, ← List.append_assoc]
    exact ih true (written ++ data)
  | flush next ih => exact ih true written
  | isOpen next ih => exact ih true written

/-- A declared length fits into 64 bits. -/
lemma lengthOfParts_lt {boundary : Bytes} {parts : List WriterPart} {total length : ℕ}
    (htotal : total < uint64Limit) (h : lengthOfParts boundary parts total = some length) :
    length < uint64Limit := by
  have hadd : ∀ {total value length : ℕ}, total < uint64Limit →
      addLength total value = some length → length < uint64Limit := by
    intro total value length htotal h
    rw [addLength_eq htotal, fitting] at h
    split_ifs at h with hfit
    cases h
    exact hfit
  induction parts generalizing total with
  | nil => exact hadd htotal h
  | cons part parts ih =>
    rw [lengthOfParts] at h
    cases hsize : part.size with
    | none =>
      rw [hsize] at h
      cases h
    | some size =>
      rw [hsize] at h
      obtain ⟨behind, hbehind, hrest⟩ := Option.bind_eq_some_iff.mp h
      obtain ⟨first, hfirst, hbehind⟩ := Option.bind_eq_some_iff.mp hbehind
      obtain ⟨second, hsecond, hbehind⟩ := Option.bind_eq_some_iff.mp hbehind
      exact ih (hadd (hadd (hadd htotal hfirst) hsecond) hbehind) hrest

/-- There is nothing to trim at the content type of a writer. -/
lemma trimOws_contentType {writer : MultipartWriter} (h : validBoundary writer.boundary = true) :
    trimOws writer.contentType = writer.contentType := by
  obtain ⟨hne, -, hlast, hall⟩ := (validBoundary_iff).mp h
  have howsSpace : ∀ c : UInt8, isOws c = true → isSpace c = true := by decide +kernel
  refine ListSearch.trimWith_eq_self ?_ fun c hc => ?_
  · rintro c ⟨⟩
    decide
  · rw [contentType, List.getLast?_append_of_ne_nil _ hne] at hc
    by_contra hows
    rw [Bool.not_eq_false] at hows
    have hsp := (boundaryCharacter_spec (hall c (List.mem_of_getLast? hc))).2.2.2.2
      (howsSpace c hows)
    rw [hsp] at hc
    exact hlast hc

/-- The bytes on the wire of an upload: a request that carries a form, written without an error on a
reliable transport, in blocks of less than 2 ^ 32 bytes (with a declared length these are the head
and the pieces that the producers write).  Excluded are requests with an expectation or a content
coding, with no `Host` or one that is blank or has a comma, with a target that does not begin with a
slash or cannot be decoded, and heads beyond the limit of the server. -/
structure Uploaded (readOptions : HttpReadOptions) (writer : MultipartWriter) (request : Request)
    (wireTarget word : Bytes) : Prop where
  written : ∃ onUploadProgress output output', output.Reliable ∧
    writeRequest (writer.apply request) wireTarget onUploadProgress output = (none, output') ∧
    output'.wire = output.wire ++ word ∧ Output.ShortSince output output'
  target : wireTarget.head? = some slash
  path : ∃ path, urlDecode (rawPath wireTarget) = .ok path
  host : ∃ host, request.headers.getAll (bytes "Host") = [host] ∧ trimOws host ≠ [] ∧ comma ∉ host
  plain : request.headers.contains (bytes "Expect") = false ∧
    request.headers.contains (bytes "Content-Encoding") = false
  head : ∀ head, serializeRequest (writer.apply request) wireTarget = .ok head →
    head.length ≤ readOptions.maxHeaderSize

/-- The fields of a request that carries a form, but for its content type. -/
lemma getAll_apply (writer : MultipartWriter) (request : Request) {name : Bytes}
    (h : iequals (bytes "Content-Type") name = false) :
    (writer.apply request).headers.getAll name = request.headers.getAll name :=
  Headers.getAll_set_of_ne writer.contentType h

/-- A source whose head announces a body that is not empty waits for it. -/
lemma create_complete_eq_false {state : RequestBodyState} {options : HttpReadOptions}
    {input : Input} {output : Output} {maxHeaderSize : ℕ} {word body : Bytes}
    (hframe : BodyFrame maxHeaderSize state.head word [] body) (hbody : body ≠ []) :
    (RequestBodySource.create state options input output).complete = false := by
  rw [RequestBodySource.create]
  cases hframe with
  | chunked h _ =>
    rw [show state.chunked = true from h]
    rfl
  | fixed h hlen =>
    rw [show state.contentLength = some _ from hlen]
    simp [hbody]
  | empty h hlen => exact absurd rfl hbody

/-- A length that a head announces is the length of the body. -/
lemma length_le_of_bodyFrame {start : Bytes} {fields : Headers} {maxHeaderSize limit : ℕ}
    {word body : Bytes} (hfields : FramingFields fields)
    (hframe : BodyFrame maxHeaderSize (headOf start fields) word [] body)
    (hlimit : body.length ≤ limit) {length : ℕ}
    (hlength : (headOf start fields).contentLength = some length) : length ≤ limit := by
  cases hframe with
  | chunked h _ =>
    have hchunked : (!(elements fields (bytes "Transfer-Encoding")).isEmpty) = true := h
    rcases hfields.codings with hnone | ⟨coding, -, -, hnone⟩
    · rw [hnone] at hchunked
      cases hchunked
    · have hlengths : lengthOf (elements fields (bytes "Content-Length")) = some length := hlength
      rw [hnone] at hlengths
      cases hlengths
  | fixed h hlen =>
    rw [hlen] at hlength
    cases hlength
    exact hlimit
  | empty h hlen =>
    rw [hlen] at hlength
    cases hlength

/-! ### Uploads are received -/

/-- An upload is received.  The server reads the head of the request, which has the content type of
the writer; when the stream route hands the body to `consume_multipart`, with callbacks that accept
every event, it ends without an error, and the callbacks have got the parts of the writer in order,
with their names, file names, content types, custom fields and contents.  The source is complete,
and what follows the request on the connection is untouched. -/
theorem upload_received {readOptions : HttpReadOptions} {options : MultipartParserOptions}
    {writer : MultipartWriter} {body word rest : Bytes} {request : Request} {wireTarget : Bytes}
    {decoder : Decoder} {callbacks : MultipartCallbacks} {input : Input} {output : Output}
    (hform : Form options writer body) (hsent : Uploaded readOptions writer request wireTarget word)
    (hbuffered : readOptions.Buffered) (hlimit : body.length ≤ readOptions.maxBodySize)
    (haccepts : ∀ events, callbacks events = .accepted)
    (havail : input.available = word ++ rest) :
    ∃ parsed middle after events,
      readRequestHead readOptions.maxHeaderSize false input = (.ok parsed, middle) ∧
      parsed.body.headers.getAll (bytes "Content-Type") = [writer.contentType] ∧
      consumeMultipart decoder callbacks writer.contentType options
        (.create parsed.body readOptions middle output) = (.ok none, after, events) ∧
      List.Forall₂ Received writer.parts (collectParts none events) ∧
      after.complete = true ∧ after.input.available = rest := by
  obtain ⟨onUploadProgress, start, finish, hreliable, hwrite, hwire, hshort⟩ := hsent.written
  have hwritten := (hshort.wire_iff).mp hwire
  obtain ⟨path, hpath⟩ := hsent.path
  obtain ⟨host, hhost, hblank, hcomma⟩ := hsent.host
  obtain ⟨hnoexpect, hnocoding⟩ := hsent.plain
  let carrier := writer.apply request
  rw [Headers.contains_eq_false_iff] at hnoexpect hnocoding
  have hcarrierExpect : carrier.headers.contains (bytes "Expect") = false := by
    rw [Headers.contains_eq_false_iff, getAll_apply writer request (by decide), hnoexpect]
  have hlength : carrier.declaredLength < 2 ^ 64 := by
    show writer.contentLength.getD 0 < 2 ^ 64
    cases hdeclared : writer.contentLength with
    | none => exact Nat.two_pow_pos 64
    | some length => exact lengthOfParts_lt (Nat.two_pow_pos 64) hdeclared
  obtain ⟨payload, hbytes, hrequest⟩ := @writtenRequest_of_writeRequest carrier wireTarget
    readOptions.maxHeaderSize onUploadProgress start finish host path hreliable hwrite hsent.target
    hpath (by rw [getAll_apply writer request (by decide), hhost]) hblank hcomma hcarrierExpect
    hlength hsent.head
  obtain rfl := List.append_cancel_left (hwritten.symm.trans hbytes)
  have hpayload : sentBody carrier = body := by
    have hrun := run_accepting_eq writer.write []
    rw [hform.written, List.nil_append] at hrun
    exact hrun.symm
  -- the head of the request
  rw [List.append_assoc, List.append_assoc] at havail
  obtain ⟨routing, path', middle, parsed, hparsed, hread, hmiddle, hfields, hexpect, hframe⟩ :=
    hrequest.readHead havail
  have htype : parsed.body.headers.getAll (bytes "Content-Type") = [writer.contentType] := by
    have hset : carrier.headers.getAll (bytes "Content-Type") = [writer.contentType] :=
      Headers.getAll_set_self request.headers (bytes "Content-Type") writer.contentType
    rw [hfields, getAll_writtenRequestFields carrier (by decide), hset, List.map_singleton,
      trimOws_contentType hform.boundary.1]
  have hcoding : contentCoding readOptions parsed.body.headers = none := by
    have hnone : carrier.headers.getAll (bytes "Content-Encoding") = [] := by
      rw [getAll_apply writer request (by decide), hnocoding]
    rw [contentCoding, Headers.findHeader_eq_head?, hfields,
      getAll_writtenRequestFields carrier (by decide), hnone]
    split_ifs <;> rfl
  rw [hpayload] at hframe
  -- the source waits for the body, which is not empty
  have hnonempty : body ≠ [] := by
    have hbody := run_writeParts hform.written
    rw [List.nil_append] at hbody
    rw [hbody]
    exact List.cons_ne_nil _ _
  have hfresh : Fresh (.create parsed.body readOptions middle output) := by
    refine ⟨rfl, create_complete_eq_false hframe hnonempty, rfl, fun length hlength => ?_⟩
    rw [hparsed] at hlength
    exact length_le_of_bodyFrame hrequest.framing hrequest.frame (hpayload ▸ hlimit) hlength
  obtain ⟨after, events, hconsume, hreceived, hcomplete, hrest⟩ :=
    @Form.consumed writer body payload rest decoder callbacks options
      (.create parsed.body readOptions middle output) hform haccepts hbuffered hfresh hexpect
      hcoding hframe hmiddle hlimit
  exact ⟨parsed, middle, after, events, hread, htype, hconsume, hreceived, hcomplete, hrest⟩

/-- A request that a form is put into. -/
def formRequest : Request := { method := bytes "POST", headers := [(bytes "Host", bytes "h")] }

/-- Its bytes, with a form of which the length is not known. -/
def formWord : Bytes := (writeRequest (formWriter.apply formRequest) (bytes "/") none {}).2.bytes

/-- The form can be written and read. -/
lemma form_formWriter : Form {} formWriter (formWriter.write.run accepting []).2 where
  boundary := ⟨by decide, by decide⟩
  added := ⟨[], [.field (bytes "x") (bytes "a") [],
    .stream (bytes "f") (bytes "a\"b") (bytes "text/plain")
      (some (.write (bytes "d") fun _ => .finished)) none [(bytes "X-Y", bytes " z")]], rfl⟩
  written := rfl
  content := by decide +kernel
  limits := ⟨by decide, by decide +kernel, by decide +kernel, by decide +kernel⟩
  plain := List.forall_mem_cons.mpr ⟨⟨by decide, by decide, by decide⟩,
    List.forall_mem_singleton.mpr ⟨by decide +kernel, by decide +kernel, by decide +kernel⟩⟩

set_option maxRecDepth 4000 in
/-- The request is sent. -/
lemma uploaded_formRequest : Uploaded {} formWriter formRequest (bytes "/") formWord where
  written := by
    have hshort : Output.ShortSince {} (writeRequest (formWriter.apply formRequest) (bytes "/") none
        {}).2 := ⟨_, rfl, by decide +kernel⟩
    exact ⟨none, {}, _, ⟨rfl, rfl, fun _ => rfl⟩, rfl, (hshort.wire_iff).mpr rfl, hshort⟩
  target := rfl
  path := ⟨bytes "/", rfl⟩
  host := ⟨bytes "h", rfl, by decide, by decide⟩
  plain := ⟨by decide, by decide⟩
  head := fun head h => by
    cases h
    decide +kernel

/-- It is received in two reads. -/
theorem upload_received_form : ∃ parsed middle after events,
    readRequestHead (64 * 1024) false ⟨formWord.take 20, [.data (formWord.drop 20)]⟩ =
      (.ok parsed, middle) ∧
    consumeMultipart .disabled (fun _ => .accepted) formWriter.contentType {}
      (.create parsed.body {} middle {}) = (.ok none, after, events) ∧
    (collectParts none events).length = 2 := by
  obtain ⟨parsed, middle, after, events, hread, -, hconsume, hreceived, -⟩ :=
    @upload_received {} {} formWriter _ formWord [] formRequest (bytes "/") .disabled
      (fun _ => .accepted) ⟨formWord.take 20, [.data (formWord.drop 20)]⟩ {} form_formWriter
      uploaded_formRequest ⟨rfl, rfl, rfl, fun _ => rfl, fun _ => rfl⟩ (by decide +kernel)
      (fun _ => rfl) (by decide +kernel)
  exact ⟨parsed, middle, after, events, hread, hconsume, hreceived.length_eq.symm⟩

end Multipart

end Chhttp
