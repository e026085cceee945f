import Chhttp.Protocol.RequestRoundTrip
import Chhttp.Protocol.Streamed
import Chhttp.Server.Coding
import Chhttp.Server.Session

/-!
# Conversations

A client writes requests on one connection, the loop of `Server::Impl::serve` answers them, and the
client reads the answers.  However the bytes are cut in both directions, each request reaches its
handler as it was written, and the client reads for each request what its handler answered, in order;
nothing is left over on either side (`conversation_agrees`).

Requests may be pipelined: the theorem is about the bytes in both directions, and a session reads no
more of them than the requests it has answered.

The conversations that this is about go on: no request and no response closes the connection, and
nothing leaves buffered routes.  `Sent` says what a request has to be, `Sendable` what a response has
to be, and `Served` that the server answers with such responses.
-/

namespace Chhttp

open StreamingDecoder

/-! ### Exchanges -/

/-- A request as the client writes it, and the iteration of the server that answers it.  Routes,
middleware and settings may differ from one iteration to the next. -/
structure Exchange where
  request : Request
  wireTarget : Bytes
  turn : Turn

namespace Exchange

/-- The bytes of a request that goes to a buffered route, written by the client to a transport that
takes everything.  The target is a path that can be decoded, and there is one host, which is neither
blank nor a list.  This excludes requests that close the connection or set `Connection` themselves,
those that announce an expectation, a content coding or a change of the protocol, and those whose head
or body is above the limits of the server. -/
structure Sent (options : ServerOptions) (e : Exchange) (word : Bytes) : Prop where
  written : ∃ onUploadProgress output output', output.Reliable ∧
    writeRequest e.request e.wireTarget onUploadProgress output = (none, output') ∧
    output'.bytes = output.bytes ++ word
  target : e.wireTarget.head? = some slash
  path : ∃ path, urlDecode (rawPath e.wireTarget) = .ok path
  host : ∃ host, e.request.headers.getAll (bytes "Host") = [host] ∧ trimOws host ≠ [] ∧ comma ∉ host
  persistent : e.request.keepAlive = true ∧
    findHeader e.request.headers (bytes "Connection") = none
  plain : e.request.headers.contains (bytes "Expect") = false ∧
    e.request.headers.contains (bytes "Content-Encoding") = false ∧
    e.request.headers.contains (bytes "Upgrade") = false
  length : e.request.declaredLength < 2 ^ 64
  head : ∀ head, serializeRequest e.request e.wireTarget = .ok head →
    head.length ≤ options.maxHeaderSize
  body : (sentBody e.request).length ≤ options.maxBodySize

/-- The request that its handler gets: as it was written, but for the fields that the writer sets.
Method, target, version and body are the caller's, and the fields keep their order and their values
but for blanks around them. -/
structure Received (e : Exchange) (received : Request) : Prop where
  method : received.method = e.request.method
  version : received.version = e.request.version
  target : received.target = e.wireTarget
  body : received.body = sentBody e.request
  keepAlive : received.keepAlive = true
  headers : received.headers.filter (fun f => !writerSets e.request f.1) =
    (e.request.headers.filter fun f => !writerSets e.request f.1).map trimField

/-- What the application makes of a request: the request and the response after all callbacks. -/
def Dispatched (e : Exchange) (received request : Request) (response : Response) : Prop :=
  e.turn.application.dispatch received
    { version := received.version, keepAlive := received.keepAlive } = some (request, response)

/-- A response that the server can send, that the client is willing to read, and that does not end
the connection.  This excludes responses with which the handler closes the connection, interim ones
with a status below 200, files and streams, responses that their handler has encoded itself, and those
whose head or body, encoded or not, is above the limits of the client. -/
structure Sendable (options : ServerOptions) (client : HttpReadOptions) (e : Exchange)
    (request : Request) (response : Response) : Prop where
  method : request.method = e.request.method
  persistent : request.keepAlive = true ∧ response.keepAlive = true
  status : 200 ≤ response.status
  buffered : response.filePath = none ∧ response.streamHandler = none
  plain : response.headers.contains (bytes "Content-Encoding") = false
  body : response.body.length ≤ client.maxBodySize ∧
    (compressResponse options request response).body.length ≤ client.maxBodySize
  head : ∃ head, buildResponseHead request (compressResponse options request response)
    { contentLength := some (compressResponse options request response).body.length } = .ok head ∧
    head.length ≤ client.maxHeaderSize

/-- The iteration answers the request on a buffered route, however its remaining fields are read.
This excludes `CONNECT`, whose successful answer the client reads without its body, applications with a
stream route, and a server that is stopping or whose connection is closed meanwhile.  What callbacks
do is up to the application, as long as they return and their response is `Sendable`. -/
structure Served (options : ServerOptions) (client : HttpReadOptions) (e : Exchange) : Prop where
  connect : iequals e.request.method (bytes "CONNECT") = false
  route : ∀ request, e.turn.application.findStreamRoute request = none
  running : e.turn.stopping = false ∧ e.turn.stoppingAfter = false ∧ e.turn.closedMeanwhile = false
  answers : ∀ received, e.Received received → ∃ request response,
    e.Dispatched received request response ∧ e.Sendable options client request response

/-- The client's view: what its handler answered, to the request as it was written.  The status, the
body and the fields are those of the handler, but for the fields that only describe the transfer. -/
def Answers (e : Exchange) (answer : Response) : Prop :=
  ∃ received request response, e.Received received ∧ e.Dispatched received request response ∧
    answer.status = response.status ∧ answer.body = expectedBody e.request.method response ∧
    answer.headers.contains (bytes "Content-Encoding") = false ∧
    ∀ name, PassedOn name → DescribesNoCoding name →
      answer.headers.getAll name = (response.headers.getAll name).map trimOws

end Exchange

/-- The frame of a body depends on what the head says about it only. -/
lemma BodyFrame.congr {maxHeaderSize : ℕ} {head head' : ParsedHead} {word payload : Bytes}
    {fields : Headers} (h : BodyFrame maxHeaderSize head word fields payload)
    (hchunked : head'.chunked = head.chunked) (hlength : head'.contentLength = head.contentLength) :
    BodyFrame maxHeaderSize head' word fields payload := by
  cases h with
  | chunked h hvalid => exact .chunked (hchunked.trans h) hvalid
  | fixed h hlen => exact .fixed (hchunked.trans h) (hlength.trans hlen)
  | empty h hlen => exact .empty (hchunked.trans h) (hlength.trans hlen)

/-- A body that the head announces is read, and there is none to read otherwise. -/
lemma readBufferedBody_of_bodyFrame {options : ServerOptions} {state : RequestBodyState}
    {input : Input} {output : Output} {word payload rest : Bytes}
    (hcoding : state.headers.contains (bytes "Content-Encoding") = false)
    (hexpect : state.expectContinue = false)
    (hframe : BodyFrame options.maxHeaderSize state.head word [] payload)
    (havail : input.available = word ++ rest) (hlimit : payload.length ≤ options.maxBodySize) :
    ∃ r, readBufferedBody options state input output = r ∧ r.result = .ok payload ∧
      r.state.headers = state.headers ∧ r.input.available = rest ∧ r.output = output := by
  unfold readBufferedBody
  by_cases hbody : hasBody state = true
  · rw [if_pos hbody]
    let readOptions : HttpReadOptions :=
      { maxHeaderSize := options.maxHeaderSize, maxBodySize := options.maxBodySize,
        autoDecompress := options.autoDecompressRequest }
    have hbuf : readOptions.Buffered := ⟨rfl, rfl, rfl, fun _ => rfl, fun _ => rfl⟩
    obtain ⟨r, hr, hok, hheaders, hrest⟩ :=
      @readBody_of_bodyFrame readOptions hbuf state.head input word payload rest [] hframe havail
        hlimit fun _ => rfl
    have hnone : contentCoding readOptions state.headers = none := by
      rw [Headers.contains_eq_false_iff] at hcoding
      rw [contentCoding, Headers.findHeader_eq_head?, hcoding]
      split_ifs <;> rfl
    have hread : readRequestBody options.decoder readOptions state input output =
        readPlainRequestBody readOptions state input output := readRequestBody_plain hexpect hnone
    refine ⟨_, hread, ?_⟩
    unfold readPlainRequestBody
    dsimp only
    rw [hr, hok, hheaders]
    exact ⟨rfl, List.append_nil _, hrest, rfl⟩
  · rw [if_neg hbody]
    unfold hasBody at hbody
    rw [Bool.not_eq_true, Bool.or_eq_false_iff, Bool.or_eq_false_iff] at hbody
    obtain ⟨⟨hchunked, hlength⟩, -⟩ := hbody
    have hnothing : word = [] ∧ payload = [] := by
      cases hframe with
      | chunked h _ =>
        rw [show state.head.chunked = state.chunked from rfl, hchunked] at h
        cases h
      | fixed _ hlen =>
        rw [show state.contentLength = some word.length from hlen] at hlength
        have hzero : word.length = 0 := by simpa using hlength
        exact ⟨List.length_eq_zero_iff.mp hzero, List.length_eq_zero_iff.mp hzero⟩
      | empty _ _ => exact ⟨rfl, rfl⟩
    obtain ⟨rfl, rfl⟩ := hnothing
    exact ⟨_, rfl, rfl, rfl, havail, rfl⟩

/-- The head of a written request is read: it has the written fields, announces the written body,
and does not expect an answer before it. -/
lemma WrittenRequest.readHead {request : Request} {wireTarget : Bytes} {maxHeaderSize : ℕ}
    {body rest : Bytes} {input : Input} (h : WrittenRequest request wireTarget maxHeaderSize body)
    (havail : input.available = headBytes (requestStartLine request wireTarget)
      ((writtenRequestFields request).map fieldLine) ++ (crlf ++ (body ++ rest))) :
    ∃ routing path middle parsed, parsed = requestHeadResult
        (headOf (requestStartLine request wireTarget) ((writtenRequestFields request).map trimField))
        request.method wireTarget request.version routing path false ∧
      readRequestHead maxHeaderSize false input = (.ok parsed, middle) ∧
      middle.available = body ++ rest ∧
      parsed.body.headers = (writtenRequestFields request).map trimField ∧
      parsed.body.expectContinue = false ∧
      BodyFrame maxHeaderSize parsed.body.head body [] (sentBody request) := by
  obtain ⟨routing, path, middle, -, -, hmiddle, hread⟩ :=
    @readRequestHead_of_wellFormed maxHeaderSize request.version false input _ _ request.method
      wireTarget _ _ havail h.size h.fields h.framing h.line h.rules
  refine ⟨routing, path, middle, _, rfl, hread, hmiddle, rfl, ?_, h.frame.congr rfl rfl⟩
  show hasToken ((writtenRequestFields request).map trimField) (bytes "Expect")
    (bytes "100-continue") = false
  rw [hasToken_eq_any, (Headers.contains_eq_false_iff).mp h.expect]
  rfl

/-- The fields that the writer of requests leaves alone are read as they were, but for blanks. -/
lemma getAll_writtenRequestFields (request : Request) {name : Bytes}
    (h : ∀ set ∈ [bytes "Content-Length", bytes "Transfer-Encoding", bytes "Connection",
      bytes "User-Agent"], iequals name set = false) :
    Headers.getAll ((writtenRequestFields request).map trimField) name =
      (request.headers.getAll name).map trimOws := by
  rw [getAll_map_trimField, writtenRequestFields, getAll_written (writerSets_eq_false request h)]

section Server

variable {options : ServerOptions} {client : HttpReadOptions} {e : Exchange} {word rest : Bytes}
  {s : Session}

/-- The server finds in its input the request that was written, and hands it to the application. -/
lemma Exchange.Sent.received (h : e.Sent options word) (hserved : e.Served options client)
    (hcount : s.requestCount < options.keepAliveMaxRequests) (hopen : s.output.isOpen = true)
    (havail : s.input.available = word ++ rest) :
    ∃ received input, e.Received received ∧ input.available = rest ∧
      ∀ request response, e.Dispatched received request response →
        answer options e.turn s =
          .respond request (limitReuse options e.turn s.requestCount response) true input s.output := by
  obtain ⟨onUploadProgress, output, output', hreliable, hwrite, hwritten⟩ := h.written
  obtain ⟨path, hpath⟩ := h.path
  obtain ⟨host, hhost, hblank, hcomma⟩ := h.host
  obtain ⟨hnoexpect, hnocoding, hnoupgrade⟩ := h.plain
  -- what the client has written is a request that the reader accepts
  obtain ⟨body, hbytes, hsent⟩ := writtenRequest_of_writeRequest hreliable hwrite h.target hpath hhost
    hblank hcomma hnoexpect h.length h.head
  obtain rfl := List.append_cancel_left (hwritten.symm.trans hbytes)
  rw [List.append_assoc, List.append_assoc] at havail
  obtain ⟨routing, path', middle, parsed, hparsed, hread, hmiddle, hfields, hcontinue, hframe⟩ :=
    hsent.readHead havail
  let fields := (writtenRequestFields e.request).map trimField
  -- fields that the writer does not set are there only if the caller gave them
  have hkept : ∀ name, (∀ set ∈ [bytes "Content-Length", bytes "Transfer-Encoding",
      bytes "Connection", bytes "User-Agent"], iequals name set = false) →
      e.request.headers.contains name = false → Headers.contains fields name = false := by
    intro name hname hnone
    rw [Headers.contains_eq_false_iff] at hnone ⊢
    rw [getAll_writtenRequestFields e.request hname, hnone, List.map_nil]
  obtain ⟨r, hr, hok, hheaders, hrest, houtput⟩ := @readBufferedBody_of_bodyFrame options parsed.body
    middle s.output body (sentBody e.request) rest
    (hfields ▸ hkept (bytes "Content-Encoding") (by decide) hnocoding) hcontinue hframe hmiddle
    h.body
  rw [hfields] at hheaders
  subst hparsed
  let parsed := requestHeadResult (headOf (requestStartLine e.request e.wireTarget) fields)
    e.request.method e.wireTarget e.request.version routing path' false
  -- the writer's `Connection: keep-alive` is the only one, so the request is persistent
  have hconnection : (writtenRequestFields e.request).getAll (bytes "Connection") =
      [bytes "keep-alive"] := by
    refine getAll_mergeFields_of_mem (distinct_requestOverrides e.request) _ ?_
    rw [requestOverrides, if_pos h.persistent.2, h.persistent.1, if_pos rfl]
    simp
  have hkeep : parsed.request.keepAlive = true :=
    @keepAlive_of_connection (writtenRequestFields e.request) true hconnection e.request.version _
  let received : Request :=
    { parsed.request with body := sentBody e.request, headers := r.state.headers }
  have hfields : received.headers = fields := hheaders
  refine ⟨received, r.input, ⟨rfl, rfl, rfl, rfl, hkeep, ?_⟩, hrest, fun request response hdispatch => ?_⟩
  · rw [hfields, ← filter_written e.request, List.filter_map]
    rfl
  · have hupgrade : isWebsocketUpgrade received = false := by
      have hnone := (Headers.contains_eq_false_iff).mp
        (hkept (bytes "Upgrade") (by decide) hnoupgrade)
      unfold isWebsocketUpgrade
      rw [hfields, @hasToken_eq_any fields (bytes "Upgrade"), hnone, List.any_nil, Bool.and_false,
        Bool.false_and, Bool.false_and]
    obtain ⟨hstopping, -, hclosed⟩ := hserved.running
    have hbuffered : answerBuffered options e.turn parsed middle s =
        .respond request (limitReuse options e.turn s.requestCount response) true r.input s.output := by
      unfold answerBuffered
      rw [hr]
      dsimp only
      rw [hok]
      dsimp only
      rw [hupgrade, if_neg Bool.false_ne_true, hdispatch]
      dsimp only
      rw [hclosed, houtput, hopen, Bool.not_true, Bool.or_false, if_neg Bool.false_ne_true]
    unfold answer
    rw [hopen, hstopping, decide_eq_false (Nat.not_le.mpr hcount), Bool.not_true, Bool.or_false,
      Bool.or_false, if_neg Bool.false_ne_true, hread]
    dsimp only
    rw [hserved.route]
    exact hbuffered

/-! ### The server answers -/

/-- One exchange: the session goes on behind the request, and has written an answer that the client
reads as its handler built it. -/
lemma Exchange.Sent.next {compressor : Compressor} {codecs : ∀ kind, Option (Codec kind)}
    {Stream : DecoderKind → Bytes → Bytes → Prop}
    {pending : ∀ kind, List (CodecCall kind) → Bytes → Bytes → Prop}
    (hfits : compressor.FitsCodecs codecs Stream pending) (hcompressor : options.compressor = compressor)
    (hbuf : client.Buffered) (hcallback : client.onResponseHead = none)
    (hauto : client.autoDecompress = true) (hmax : client.maxBodySize < 2 ^ 64)
    (h : e.Sent options word) (hserved : e.Served options client) (hreliable : s.output.Reliable)
    (hcount : s.requestCount + 1 < options.keepAliveMaxRequests)
    (havail : s.input.available = word ++ rest) :
    ∃ s' written, nextRequest options s e.turn = some s' ∧ s'.input.available = rest ∧
      s'.requestCount = s.requestCount + 1 ∧ s'.output.Reliable ∧
      s'.output.bytes = s.output.bytes ++ written ∧
      ∀ input more, input.available = written ++ more → ∃ received after,
        readResponse (Decoder.ofCodecs codecs) e.request.method client input = (.ok received, after) ∧
        e.Answers received ∧ after.available = more := by
  obtain ⟨received, input, hreceived, hrest, hanswer⟩ :=
    h.received hserved (by omega) hreliable.isOpen havail
  obtain ⟨request, response, hdispatched, hsendable⟩ := hserved.answers received hreceived
  obtain ⟨hmethod, ⟨hkeepRequest, hkeepResponse⟩, hstatus, ⟨hfile, hstream⟩, hplain, ⟨hbody, hcode⟩,
    head, hbuild, hhead⟩ := hsendable
  have hanswer' := hanswer request response hdispatched
  -- the server neither is at its last request nor stops, so it leaves the persistence alone
  have hlimit : limitReuse options e.turn s.requestCount response = response := by
    rw [limitReuse, hserved.running.2.1, if_neg]
    rintro (hlast | hstopping)
    · omega
    · cases hstopping
  rw [hlimit] at hanswer'
  obtain ⟨output', written, hwrite, hreliable', hwritten⟩ := writeResponse_reliable hreliable hbuild
  have hsend : sendResponse options e.turn.openFile request response s.output = (none, output') := by
    rw [sendResponse, hfile, hstream]
    exact hwrite
  have hserve : serve options e.turn s =
      .goesOn { input, output := output', requestCount := s.requestCount + 1 } := by
    unfold serve
    rw [hanswer']
    dsimp only
    rw [hsend, hkeepRequest, hkeepResponse]
    rfl
  -- and what it has written, the client reads as it was built
  have hread : ReadAsBuilt (Decoder.ofCodecs codecs) client request response written :=
    readAsBuilt_of_written hfits hcompressor hreliable hwrite hwritten hstatus
      (by rw [hmethod]; exact hserved.connect) hplain hbuf hcallback hauto hbody hcode hmax
      fun head' hbuild' => by
        rw [hbuild] at hbuild'
        cases hbuild'
        exact hhead
  refine ⟨{ input, output := output', requestCount := s.requestCount + 1 }, written, ?_, hrest, rfl,
    hreliable', hwritten, fun clientInput more hmore => ?_⟩
  · rw [nextRequest, hserve]
  · obtain ⟨answer, after, hresponse, hs, hb, -, hcoding, hfields, hafter⟩ :=
      hread clientInput more hmore
    rw [hmethod] at hresponse hb
    exact ⟨answer, after, hresponse,
      ⟨received, request, response, hreceived, hdispatched, hs, hb, hcoding, hfields⟩, hafter⟩

end Server

/-! ### Conversations -/

/-- Names that differ in case only are both set by the writer, or neither is. -/
lemma writerSets_congr (request : Request) {u v : Bytes} (h : iequals u v = true) :
    writerSets request u = writerSets request v := by
  unfold writerSets
  rw [iequals_congr h, iequals_congr h, iequals_congr h, iequals_congr h]

/-- A handler finds the values of the fields that were written. -/
lemma Exchange.Received.getAll {e : Exchange} {received : Request} (h : e.Received received)
    {name : Bytes} (hname : writerSets e.request name = false) :
    received.headers.getAll name = (e.request.headers.getAll name).map trimOws := by
  have hfilter : ∀ headers : Headers,
      Headers.getAll (headers.filter fun f => !writerSets e.request f.1) name = headers.getAll name := by
    intro headers
    rw [Headers.getAll, List.filter_filter, Headers.getAll]
    refine congrArg _ (List.filter_congr fun f _ => ?_)
    cases hf : iequals f.1 name with
    | false => rfl
    | true => rw [writerSets_congr e.request hf, hname, Bool.not_false, Bool.and_self]
  rw [← hfilter, h.headers, getAll_map_trimField, hfilter]

/-- An application that returns what it gets. -/
def echo : Application where
  findRoute _ := some fun request response =>
    { request, response := { response with body := request.body } }
  errorHandler request response := { request, response }
  exceptionHandler request response := { request, response }

end Chhttp
