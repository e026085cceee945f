import Chhttp.Lib.Run
import Chhttp.Server.BodySource
import Chhttp.Server.Reply

/-!
# Sessions of the server

`Session` is a connection in the loop of `Server::Impl::serve`, and `serve` is one iteration of this
loop; `nextRequest` is the transition system of sessions.  What the application and the environment
contribute to an iteration is its `Turn`: the behaviour of routes, middleware and error handlers,
the files there are, and whether the server is stopping.  Turns are independent of each other, so the
application may keep any state.

An iteration first brings a request to its answer (`answer`), with one path for stream routes and
one for the others, and then sends it.
-/

namespace Chhttp

/-! ### Applications -/

/-- What a callback made of a request and its response: what it answered, and whether it threw.  If
it threw, the changes that it had made until then stay. -/
structure Outcome where
  request : Request
  response : Response
  handled : Bool := false
  threw : Bool := false

/-- Handlers and middleware. -/
abbrev Callback := Request → Response → Outcome

/-- A stream route: the options of the route, and its handler. -/
structure StreamRoute where
  maxBodySize : ℕ := 0
  autoDecompress : Bool := true
  handler : StreamHandler

/-- The routes and callbacks of a server in one iteration.  `serveStatic` is the static file that
a mount has for a request. -/
structure Application where
  preRouting : Option Callback := none
  findRoute : Request → Option Callback := fun _ => none
  findStreamRoute : Request → Option StreamRoute := fun _ => none
  findWsRoute : Request → Bool := fun _ => false
  serveStatic : Request → Response → Option Response := fun _ _ => none
  postRouting : Option Callback := none
  errorHandler : Callback
  exceptionHandler : Callback

/-- What one iteration of the loop meets: the application, the files that can be opened, the
deadline of a stream route, and whether the server is stopping or the connection was closed in
between. -/
structure Turn where
  application : Application
  openFile : Bytes → Option OpenFile := fun _ => none
  interrupted : List Bytes → Option Interruption := fun _ => none
  expired : List Bytes → Bool := fun _ => false
  stopping : Bool := false
  stoppingAfter : Bool := false
  closedMeanwhile : Bool := false

namespace Application

/-- Post routing, unless something threw. -/
def finish (app : Application) (o : Outcome) : Outcome :=
  if o.threw then o
  else
    match app.postRouting with
    | none => o
    | some postRouting => postRouting o.request o.response

/-- The `catch` of `dispatch` and `dispatch_stream`; an exception handler that throws leaves
nothing to send. -/
def guard (app : Application) (o : Outcome) : Option (Request × Response) :=
  if o.threw then
    let o := app.exceptionHandler o.request o.response
    if o.threw then none else some (o.request, o.response)
  else some (o.request, o.response)

/-- Pre routing, and then `next` unless the request was handled.  Pre routing may answer by itself,
and then no route is looked for. -/
def routed (app : Application) (next : Callback) (request : Request) (response : Response) :
    Outcome :=
  match app.preRouting with
  | none => next request response
  | some preRouting =>
    let o := preRouting request response
    if o.threw || o.handled then o else next o.request o.response

/-- The route of a request, a static file or the error handler. -/
def handle (app : Application) : Callback := fun request response =>
  match app.findRoute request with
  | some handler => app.finish (handler request response)
  | none =>
    match app.serveStatic request response with
    | some response => app.finish { request, response }
    | none => app.finish (app.errorHandler request { response with status := 404 })

/-- `dispatch`. -/
def dispatch (app : Application) (request : Request) (response : Response) :
    Option (Request × Response) :=
  app.guard (app.routed app.handle request response)

/-- `dispatch_stream`, with the source afterwards. -/
def dispatchStream (app : Application) (decoder : Decoder) (handler : StreamHandler)
    (c : StreamCall) : Option (Request × Response) × RequestBodySource :=
  let pre := app.routed (fun request response => { request, response }) c.request c.response
  if pre.threw || pre.handled then (app.guard pre, c.source)
  else
    let (threw, c) :=
      handler.run decoder { c with request := pre.request, response := pre.response }
    (app.guard (app.finish { request := c.request, response := c.response, threw }), c.source)

end Application

/-! ### Sessions -/

/-- A connection in the loop of `serve`.  The input may already hold bytes of the next request,
which is what pipelining comes to. -/
structure Session where
  input : Input
  output : Output := {}
  requestCount : ℕ := 0

/-- What becomes of a request before its response is sent: the connection is closed, perhaps after
a rejection, it is handed to a WebSocket, or there is a response to send.  `complete` says that the
request body has been consumed. -/
inductive Answer where
  | close (output : Output)
  | upgrade (input : Input) (output : Output)
  | respond (request : Request) (response : Response) (complete : Bool) (input : Input)
      (output : Output)

/-- Close the connection after a rejection. -/
def reject (request : Request) (status : ℤ) (message : Bytes) (output : Output) : Answer :=
  let response : Response := { status, keepAlive := false }
  .close (writeResponse request (response.setContent message) output).2

/-- The status for a body that could not be read. -/
def bodyErrorStatus (e : ErrorInfo) : ℤ :=
  match e.code with
  | .bodyTooLarge => 413
  | .timeout => 408
  | _ => 400

/-- The answer to a head that could not be read. -/
def rejectHead (e : ErrorInfo) (output : Output) : Answer :=
  match e.code with
  | .bodyTooLarge => reject { keepAlive := false } 413 (statusReason 413) output
  | .protocol => reject { keepAlive := false } 400 (statusReason 400) output
  | _ => .close output

/-- The response to a source that failed, if the handler left it at the default. -/
def sourceErrorResponse (e : ErrorInfo) (response : Response) : Response :=
  if response.status = 200 ∧ response.body = [] ∧ response.streamHandler.isNone then
    { response with status := bodyErrorStatus e }.setContent (bytes e.message)
  else response

/-- The last request of a connection is not answered with persistence. -/
def limitReuse (options : ServerOptions) (turn : Turn) (requestCount : ℕ) (response : Response) :
    Response :=
  if options.keepAliveMaxRequests ≤ requestCount + 1 ∨ turn.stoppingAfter then
    { response with keepAlive := false }
  else response

/-- The options that a stream route reads its body with. -/
def streamOptions (options : ServerOptions) (turn : Turn) (route : StreamRoute) :
    HttpReadOptions where
  maxHeaderSize := options.maxHeaderSize
  maxBodySize := if route.maxBodySize = 0 then options.maxBodySize else route.maxBodySize
  autoDecompress := options.autoDecompressRequest && route.autoDecompress
  interrupted := turn.interrupted
  expired := turn.expired

/-- The answer of a stream route. -/
def answerStream (options : ServerOptions) (turn : Turn) (route : StreamRoute)
    (parsed : RequestHeadResult) (input : Input) (s : Session) : Answer :=
  let request := { parsed.request with headers := parsed.body.headers }
  let readOptions := streamOptions options turn route
  if parsed.body.contentLength.any fun length => decide (readOptions.maxBodySize < length) then
    reject request 413 (statusReason 413) s.output
  else
    let source := RequestBodySource.create parsed.body readOptions input s.output
    let response : Response := { version := request.version, keepAlive := request.keepAlive }
    match turn.application.dispatchStream options.decoder route.handler
        { source, request, response } with
    | (none, source) => .close source.output
    | (some (request, response), source) =>
      if turn.closedMeanwhile || !source.output.isOpen then .close source.output
      else
        let request := { request with headers := source.state.headers }
        let response :=
          match source.error with
          | none => response
          | some e => sourceErrorResponse e response
        let response :=
          if source.complete then response else { response with keepAlive := false }
        .respond request (limitReuse options turn s.requestCount response) source.complete
          source.input source.output

/-- The request announces a body, or wants an answer before it sends one. -/
def hasBody (state : RequestBodyState) : Bool :=
  state.chunked || state.contentLength.getD 0 != 0 || state.expectContinue

/-- The body of a request outside stream routes, with the fields after it. -/
def readBufferedBody (options : ServerOptions) (state : RequestBodyState) (input : Input)
    (output : Output) : RequestBodyRead :=
  if hasBody state then
    readRequestBody options.decoder
      { maxHeaderSize := options.maxHeaderSize, maxBodySize := options.maxBodySize,
        autoDecompress := options.autoDecompressRequest } state input output
  else { result := .ok [], state, input, output }

/-- `is_websocket_upgrade`. -/
def isWebsocketUpgrade (request : Request) : Bool :=
  iequals request.method (bytes "GET") &&
    hasToken request.headers (bytes "Connection") (bytes "upgrade") &&
    hasToken request.headers (bytes "Upgrade") (bytes "websocket") &&
    request.headers.getAll (bytes "Sec-WebSocket-Version") == [bytes "13"] &&
    (request.headers.getAll (bytes "Sec-WebSocket-Key")).length == 1

/-- The answer outside stream routes. -/
def answerBuffered (options : ServerOptions) (turn : Turn) (parsed : RequestHeadResult)
    (input : Input) (s : Session) : Answer :=
  let r := readBufferedBody options parsed.body input s.output
  match r.result with
  | .error e => reject parsed.request (bodyErrorStatus e) (bytes e.message) r.output
  | .ok body =>
    let request := { parsed.request with body, headers := r.state.headers }
    if isWebsocketUpgrade request then
      if turn.application.findWsRoute request then .upgrade r.input r.output
      else reject request 404 (bytes "Not Found") r.output
    else
      let response : Response := { version := request.version, keepAlive := request.keepAlive }
      match turn.application.dispatch request response with
      | none => .close r.output
      | some (request, response) =>
        if turn.closedMeanwhile || !r.output.isOpen then .close r.output
        else
          .respond request (limitReuse options turn s.requestCount response) true r.input r.output

/-- One iteration of the loop up to the response. -/
def answer (options : ServerOptions) (turn : Turn) (s : Session) : Answer :=
  if !s.output.isOpen || decide (options.keepAliveMaxRequests ≤ s.requestCount) ||
      turn.stopping then .close s.output
  else
    match readRequestHead options.maxHeaderSize false s.input with
    | (.error e, _) => rejectHead e s.output
    | (.ok parsed, input) =>
      match turn.application.findStreamRoute parsed.request with
      | some route => answerStream options turn route parsed input s
      | none => answerBuffered options turn parsed input s

/-- How an iteration of the loop ends.  It closes the connection, hands it to a WebSocket, or goes
on with what is left of the input. -/
inductive Served where
  | closed (output : Output)
  | upgraded (input : Input) (output : Output)
  | goesOn (s : Session)

/-- One iteration of the loop of `serve`. -/
def serve (options : ServerOptions) (turn : Turn) (s : Session) : Served :=
  match answer options turn s with
  | .close output => .closed output
  | .upgrade input output => .upgraded input output
  | .respond request response complete input output =>
    let reusable := response.keepAlive && request.keepAlive && complete
    match sendResponse options turn.openFile request response output with
    | (some _, output) => .closed output
    | (none, output) =>
      if reusable then .goesOn { input, output, requestCount := s.requestCount + 1 }
      else .closed output

/-- The session that goes on with its next request, if there is one. -/
def nextRequest (options : ServerOptions) (s : Session) (turn : Turn) : Option Session :=
  match serve options turn s with
  | .goesOn s => some s
  | _ => none

end Chhttp
