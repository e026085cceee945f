import Chhttp.Lib.Run

/-!
# The lifetime of sessions

`Server` is the bookkeeping of a server with any number of sessions, and of `stop`, which runs on
another thread.  A session is in one `Place` of `serve`: in a callback, or at an operation that it
waits for.  When this ends, the session goes on, without a pause, to its next place.  This stretch of
`serve` is `Session.resume`.

What the code learns between two places from the request, the response and the routes is its
`Findings`, and they are arbitrary; so is the time that a callback takes.  Only `serve` and `stop`
decide what is called and when.
-/

namespace Chhttp.Lifetime

/-! ### Sessions -/

/-- What a server was set up with.  Only whether a callback is there matters, for each one that is
there may throw or be waited for. -/
structure Config where
  tls : Bool := false
  keepAliveMaxRequests : ℕ := 1000
  mounts : Bool := false
  preRouting : Bool := false
  postRouting : Bool := false
  errorHandler : Bool := false
  exceptionHandler : Bool := false
  logger : Bool := false

/-- Where a session is.  Between two places the coroutine runs without interruption; at a place
other sessions and `stop` may run. -/
inductive Place where
  /-- There is no such session yet. -/
  | absent
  | handshaking
  | readingHead
  | readingBody
  /-- The response to a request that the server rejects. -/
  | rejecting
  | preRouting (stream : Bool)
  | streamHandler
  | asyncHandler
  /-- The handler of a route, as a job of the worker pool. -/
  | syncHandler
  | servingStatic
  | errorHandler
  | postRouting
  | exceptionHandler
  /-- The compression of a response, as a job of the worker pool. -/
  | compressing
  | sendingHead
  | producing
  | sending
  | logging
  | selecting
  | upgrading
  | webSocketHandler
  | closingWebSocket
  | finished
  /-- An exception has left `serve`, and `DetachedTask` has dropped it. -/
  | escaped
  deriving DecidableEq

/-- The session is a job of the worker pool. -/
def Place.onPool : Place → Bool
  | .syncHandler | .compressing => true
  | _ => false

/-- The session waits for bytes of a request. -/
def Place.reading : Place → Bool
  | .readingHead | .readingBody => true
  | _ => false

/-- The coroutine of the session has ended. -/
def Place.ended : Place → Bool
  | .finished | .escaped => true
  | _ => false

/-- There is a session, and its coroutine has not ended. -/
def Place.live : Place → Bool
  | .absent => false
  | place => !place.ended

/-- A session with its connection.  `finishes` is not in the source: it counts the executions of
`session_finished`, which the claims are about. -/
structure Session where
  place : Place := .absent
  /-- `Connection::open`. -/
  isOpen : Bool := true
  /-- `close_on_loop` has been carried out. -/
  closed : Bool := false
  inRequest : Bool := false
  requestCount : ℕ := 0
  /-- The connection persists after the response that is being sent. -/
  reusable : Bool := false
  /-- `open_` of the WebSocket channel. -/
  channelOpen : Bool := false
  /-- How often `session_finished` was executed. -/
  finishes : ℕ := 0

/-- How a callback or an operation ends.  An operation returns or fails; a callback returns or
throws. -/
inductive Ending where
  | returned
  | failed
  | threw
  deriving DecidableEq

/-- The route that `find_route` finds.  Async handlers run on the loop, the others as jobs of the
worker pool. -/
inductive Target where
  | asyncRoute
  | syncRoute
  | noRoute

/-- The branch of `send_response`.  It decides where the session is suspended while the response
goes out. -/
inductive Reply where
  | plain
  | compressed
  | file
  | stream

/-- What the code finds out on its way to the next place.  Each is a question that the code asks on
its way, like whether there is a route; the environment answers. -/
structure Findings where
  /-- A head that was refused is answered. -/
  answered : Bool := false
  streamRoute : Bool := false
  tooLarge : Bool := false
  hasBody : Bool := false
  websocketUpgrade : Bool := false
  wsRoute : Bool := false
  selector : Bool := false
  handled : Bool := false
  target : Target := .syncRoute
  served : Bool := false
  keepAlive : Bool := true
  reply : Reply := .plain
  omitBody : Bool := false
  chunked : Bool := true
  sinkOpen : Bool := true

/-- How a stretch of `serve` ends.  An exception that leaves `serve` ends the coroutine without
`session_finished`. -/
inductive Stretch where
  /-- In a callback or at an operation. -/
  | waits (s : Session)
  /-- With `session_finished` and `co_return`. -/
  | finishes (s : Session)
  /-- With an exception. -/
  | escapes (s : Session)

namespace Session

/-- `Connection::close`. -/
def close (s : Session) : Session := { s with isOpen := false }

/-- What `stop` does at first about a session. -/
def closeIdle (s : Session) : Session := if s.inRequest then s else s.close

/-- The stretch ends in a place. -/
def goto (s : Session) (place : Place) : Stretch := .waits { s with place }

/-- The end of `serve`, after the loop. -/
def leave (s : Session) : Stretch := .finishes s.close

/-- The head of the loop. -/
def loopHead (c : Config) (stopping : Bool) (s : Session) : Stretch :=
  if s.isOpen ∧ s.requestCount < c.keepAliveMaxRequests then
    let s := { s with inRequest := false }
    if stopping then s.leave else s.goto .readingHead
  else s.leave

/-- The end of an iteration of the loop. -/
def nextRequest (c : Config) (stopping : Bool) (s : Session) : Stretch :=
  let s := { s with requestCount := s.requestCount + 1, inRequest := false }
  if s.reusable then s.loopHead c stopping else s.leave

/-- After `send_response`; a logger that throws is not noticed. -/
def sent (c : Config) (stopping : Bool) (s : Session) (error : Bool) : Stretch :=
  let s := { s with reusable := s.reusable && !error }
  if c.logger then s.goto .logging else s.nextRequest c stopping

/-- `send_response`. -/
def sendResponse (s : Session) : Reply → Stretch
  | .plain => s.goto .sending
  | .compressed => s.goto .compressing
  | .file => s.goto .sending
  | .stream => s.goto .sendingHead

/-- After `dispatch` or `dispatch_stream`.  Here it is decided whether the connection persists; what
happens while the response is sent can only revoke it. -/
def dispatched (c : Config) (stopping : Bool) (s : Session) (f : Findings) : Stretch :=
  if s.isOpen then
    let limit := decide (c.keepAliveMaxRequests ≤ s.requestCount + 1) || stopping
    { s with reusable := f.keepAlive && !limit }.sendResponse f.reply
  else s.leave

/-- The `catch` of `dispatch` and `dispatch_stream`. -/
def caught (c : Config) (stopping : Bool) (s : Session) (f : Findings) : Stretch :=
  if c.exceptionHandler then s.goto .exceptionHandler else s.dispatched c stopping f

/-- Post routing. -/
def finish (c : Config) (stopping : Bool) (s : Session) (f : Findings) : Stretch :=
  if c.postRouting then s.goto .postRouting else s.dispatched c stopping f

/-- There is neither a route nor a file. -/
def notFound (c : Config) (stopping : Bool) (s : Session) (f : Findings) : Stretch :=
  if c.errorHandler then s.goto .errorHandler else s.finish c stopping f

/-- `dispatch` and `dispatch_stream` after pre routing. -/
def route (c : Config) (stopping : Bool) (s : Session) (f : Findings) (stream : Bool) : Stretch :=
  if stream then s.goto .streamHandler
  else
    match f.target with
    | .asyncRoute => s.goto .asyncHandler
    | .syncRoute => s.goto .syncHandler
    | .noRoute => if c.mounts then s.goto .servingStatic else s.notFound c stopping f

/-- `dispatch` and `dispatch_stream`. -/
def dispatch (c : Config) (stopping : Bool) (s : Session) (f : Findings) (stream : Bool) :
    Stretch :=
  if c.preRouting then s.goto (.preRouting stream) else s.route c stopping f stream

/-- A request outside stream routes, once its body is there. -/
def received (c : Config) (stopping : Bool) (s : Session) (f : Findings) : Stretch :=
  if f.websocketUpgrade then
    if f.wsRoute then
      if f.selector then s.goto .selecting else s.goto .upgrading
    else s.goto .rejecting
  else s.dispatch c stopping f false

/-- A head was read. -/
def headRead (c : Config) (stopping : Bool) (s : Session) (f : Findings) : Stretch :=
  let s := { s with inRequest := true }
  if f.streamRoute then
    if f.tooLarge then s.goto .rejecting else s.dispatch c stopping f true
  else if f.hasBody then s.goto .readingBody
  else s.received c stopping f

/-- The handler of a WebSocket has ended, in whichever way. -/
def webSocketDone (s : Session) : Stretch :=
  if s.channelOpen && s.isOpen then { s with channelOpen := false }.goto .closingWebSocket
  else .finishes s

/-- The producer of a stream has returned. -/
def produced (c : Config) (stopping : Bool) (s : Session) (f : Findings) : Stretch :=
  if f.sinkOpen then
    if f.chunked then s.goto .sending else s.sent c stopping false
  else s.sent c stopping true

/-- The stretch of `serve` after a callback or an operation.  The operations of a connection whose
`close_on_loop` was carried out do not succeed; until then, they may. -/
def resume (c : Config) (stopping : Bool) (s : Session) (f : Findings) (e : Ending) :
    Option Stretch :=
  match s.place, e with
  | .handshaking, .returned => some (s.loopHead c stopping)
  | .handshaking, .failed => some s.leave
  | .readingHead, .returned => if s.closed then none else some (s.headRead c stopping f)
  | .readingHead, .failed => some (if f.answered then s.goto .rejecting else s.leave)
  | .readingBody, .returned => if s.closed then none else some (s.received c stopping f)
  | .readingBody, .failed => some (s.goto .rejecting)
  | .rejecting, .returned => some s.leave
  | .rejecting, .failed => some s.leave
  | .preRouting stream, .returned =>
    some (if f.handled then s.dispatched c stopping f else s.route c stopping f stream)
  | .preRouting _, .threw => some (s.caught c stopping f)
  | .streamHandler, .returned => some (s.finish c stopping f)
  | .streamHandler, .threw => some (s.caught c stopping f)
  | .asyncHandler, .returned => some (s.finish c stopping f)
  | .asyncHandler, .threw => some (s.caught c stopping f)
  | .syncHandler, .returned => some (s.finish c stopping f)
  | .syncHandler, .threw => some (s.caught c stopping f)
  | .servingStatic, .returned =>
    some (if f.served then s.finish c stopping f else s.notFound c stopping f)
  | .servingStatic, .threw => some (s.caught c stopping f)
  | .errorHandler, .returned => some (s.finish c stopping f)
  | .errorHandler, .threw => some (s.caught c stopping f)
  | .postRouting, .returned => some (s.dispatched c stopping f)
  | .postRouting, .threw => some (s.caught c stopping f)
  | .exceptionHandler, .returned => some (s.dispatched c stopping f)
  | .exceptionHandler, .threw => some (.escapes s)
  | .compressing, .returned => some (s.goto .sending)
  | .sendingHead, .returned =>
    some (if f.omitBody then s.sent c stopping false else s.goto .producing)
  | .sendingHead, .failed => some (s.sent c stopping true)
  | .producing, .returned => some (s.produced c stopping f)
  | .producing, .threw => some (s.sent c stopping true)
  | .sending, .returned => some (s.sent c stopping false)
  | .sending, .failed => some (s.sent c stopping true)
  | .logging, .returned => some (s.nextRequest c stopping)
  | .logging, .threw => some (s.nextRequest c stopping)
  | .selecting, .returned => some (s.goto .upgrading)
  | .selecting, .threw => some (.escapes s)
  | .upgrading, .returned => some ({ s with channelOpen := true }.goto .webSocketHandler)
  | .upgrading, .failed => some s.leave
  | .webSocketHandler, .returned => some s.webSocketDone
  | .webSocketHandler, .threw => some s.webSocketDone
  | .closingWebSocket, .returned => some s.leave
  | .closingWebSocket, .failed => some s.leave
  | _, _ => none

/-- The first stretch of `serve`. -/
def serve (c : Config) (stopping : Bool) (s : Session) : Stretch :=
  if c.tls then s.goto .handshaking else s.loopHead c stopping

end Session

/-! ### The server -/

/-- Where `stop` is.  While it closes connections, it holds `sessions_mutex`, and `rest` are the
sessions that its loop has still to look at. -/
inductive StopPlace where
  | serving
  | closingIdle (rest : List ℕ)
  | draining
  | closingAll (rest : List ℕ)
  | lastWait
  | stopped
  deriving DecidableEq

/-- `stop` holds `sessions_mutex`. -/
def StopPlace.locked : StopPlace → Bool
  | .closingIdle _ | .closingAll _ => true
  | _ => false

/-- A server that was started.  The sessions are numbered in the order in which the listener
accepted them. -/
structure Server where
  sessions : List ℕ := []
  session : ℕ → Session := fun _ => {}
  accepted : ℕ := 0
  activeSessions : ℕ := 0
  stop : StopPlace := .serving
  /-- The worker pool exists. -/
  workers : Bool := true

/-- The steps of a server.  Each is an uninterrupted stretch of one of the parties: the listener, a
session, a connection, or `stop`. -/
inductive Action where
  /-- The listener has a connection; `ready` says that `set_no_delay` succeeds. -/
  | accept (ready : Bool)
  /-- A callback or an operation of a session ends. -/
  | resume (i : ℕ) (e : Ending) (f : Findings)
  /-- The connection of a session closes for a reason of its own. -/
  | close (i : ℕ)
  | closeOnLoop (i : ℕ)
  /-- A WebSocket handler reads the end of the transport, which closes the channel only. -/
  | transportEnds (i : ℕ)
  /-- A WebSocket handler reads a close frame, or closes; a closed channel does nothing more. -/
  | channelCloses (i : ℕ)
  /-- `stop` is called. -/
  | stop
  /-- `stop` goes on with its loop. -/
  | closeNext
  /-- A wait of `stop` ends, or times out. -/
  | waitEnds

namespace Server

/-- `stopping`. -/
def stopping (s : Server) : Bool := decide (s.stop ≠ .serving)

/-- A session in a new state. -/
def set (s : Server) (i : ℕ) (t : Session) : Server :=
  { s with session := Function.update s.session i t }

/-- `session_finished`. -/
def sessionFinished (s : Server) (i : ℕ) (t : Session) : Server :=
  { s.set i { t with place := .finished, finishes := t.finishes + 1 } with
    sessions := s.sessions.erase i
    activeSessions := s.activeSessions - 1 }

/-- What a stretch of a session does to the server; `session_finished` waits for `stop`. -/
def settle (s : Server) (i : ℕ) : Stretch → Option Server
  | .waits t => some (s.set i t)
  | .finishes t => if s.stop.locked then none else some (s.sessionFinished i t)
  | .escapes t => some (s.set i { t with place := .escaped })

/-- The callback of the listener. -/
def accept (c : Config) (s : Server) (ready : Bool) : Option Server :=
  if s.stopping || !ready then some s
  else
    settle
      { s with
        sessions := s.sessions ++ [s.accepted]
        accepted := s.accepted + 1
        activeSessions := s.activeSessions + 1 }
      s.accepted (Session.serve c s.stopping {})

/-- An iteration of a loop of `stop`. -/
def closeNext (s : Server) : Option Server :=
  match s.stop with
  | .closingIdle [] => some { s with stop := .draining }
  | .closingIdle (i :: rest) =>
    some { s.set i (s.session i).closeIdle with stop := .closingIdle rest }
  | .closingAll [] => some { s with stop := .lastWait }
  | .closingAll (i :: rest) =>
    some { s.set i (s.session i).close with stop := .closingAll rest }
  | _ => none

/-- The end of a wait of `stop`. -/
def waitEnds (s : Server) : Option Server :=
  match s.stop with
  | .draining =>
    some { s with stop := if s.activeSessions ≠ 0 then .closingAll s.sessions else .lastWait }
  | .lastWait => some { s with stop := .stopped, workers := false }
  | _ => none

/-- The steps of a server. -/
def next (c : Config) (s : Server) : Action → Option Server
  | .accept ready => s.accept c ready
  | .resume i e f => ((s.session i).resume c s.stopping f e).bind (s.settle i)
  | .close i => if (s.session i).place.live then some (s.set i (s.session i).close) else none
  | .closeOnLoop i =>
    if (s.session i).isOpen then none else some (s.set i { s.session i with closed := true })
  | .transportEnds i =>
    if (s.session i).place = .webSocketHandler then
      some (s.set i { s.session i with channelOpen := false })
    else none
  | .channelCloses i =>
    if (s.session i).place = .webSocketHandler ∧ (s.session i).channelOpen then
      some (s.set i { (s.session i).close with channelOpen := false })
    else none
  | .stop => if s.stop = .serving then some { s with stop := .closingIdle s.sessions } else none
  | .closeNext => s.closeNext
  | .waitEnds => s.waitEnds

end Server

end Chhttp.Lifetime
