import Chhttp.Lib.Run

/-!
# Connections of the transport

`Connection` is a connection as its loop sees it.  The operations on it are numbered.  A coroutine
that is waiting for an operation is resumed synchronously, by the function that completes the
operation, and it may start operations or close the connection before that function goes on.
Therefore the state has a `stack` of what the loop still has to do before it returns to libuv, and
coroutines are frames on it that call what they like.

Events come from libuv when the stack is empty.  Timers may fire at any time, and every request has
one callback.
-/

namespace Chhttp.Transport

/-- The kinds of operations.  There is at most one pending operation of each kind. -/
inductive Kind where
  | connect | read | write
  deriving DecidableEq

/-- How far an operation is: `completed` is the flag of `PendingRead`, `PendingWrite` and
`PendingConnect`. -/
inductive OpState where
  | fresh
  | pending (kind : Kind)
  | completed
  deriving DecidableEq

/-- What the loop has still to do.  The first frame is what runs now; a callback or a resumed
coroutine pushes what it starts before it returns. -/
inductive Frame where
  /-- The posted callback of `ConnectAwaiter`. -/
  | openConnect
  /-- Its rest, after the observer. -/
  | startConnect (op : ℕ)
  /-- A coroutine that was resumed, or an observer. -/
  | user
  | resume (op : ℕ)
  | closeOnLoop
  /-- A part of `close_on_loop`: finish the pending operation of a kind. -/
  | closePending (kind : Kind)
  /-- The last part of `close_on_loop`. -/
  | closeHandles
  deriving DecidableEq

/-- What libuv has still to call back for.  A request of libuv lives until its callback, also when
the operation it was made for has long been completed. -/
inductive Request where
  | write (op : ℕ)
  | resolve (op : ℕ)
  | connect (op : ℕ)
  deriving DecidableEq

/-- `Connection`.  Operations are numbered, and `resumptions` counts how often the awaiter of each
was resumed, which the source does not record. -/
structure Connection where
  isOpen : Bool := false
  closing : Bool := false
  handlesClosed : Bool := false
  readStarted : Bool := false
  immediateWrites : ℕ := 0
  /-- `pending_connect_`, `pending_read_` and `pending_write_`. -/
  pending : Kind → Option ℕ := fun _ => none
  ops : ℕ → OpState := fun _ => .fresh
  nextOp : ℕ := 0
  resumptions : ℕ → ℕ := fun _ => 0
  requests : List Request := []
  /-- The calls of `close_on_loop` that other threads have posted. -/
  posted : ℕ := 0
  stack : List Frame := []

/-- What `uv_try_write` comes to.  A write that goes wholly at once suspends nobody. -/
inductive Attempt where
  | wholly | partly | notNow | failed
  deriving DecidableEq

/-- What a coroutine does on the loop.  `started` says whether libuv accepts the request.  They run
on the loop, in the middle of whatever has resumed the coroutine. -/
inductive Call where
  | read (started : Bool)
  | write (large : Bool) (attempt : Attempt) (started : Bool)
  | close

/-- What libuv and other threads do.  They come at any time when the loop is not in a callback. -/
inductive Event where
  /-- A coroutine runs that waited for something else. -/
  | coroutine
  /-- A call of `close_on_loop` that another thread has posted. -/
  | posted
  | postedRead (started : Bool)
  | postedWrite (started : Bool)
  /-- `read_callback`, with data, an end or an error, or with nothing. -/
  | readCallback (something : Bool)
  | writeCallback (op : ℕ) (ok : Bool)
  | resolveCallback (op : ℕ) (ok started : Bool)
  | connectCallback (op : ℕ) (ok : Bool)
  | readTimeout
  | writeTimeout

/-- The operation of a request. -/
def Request.op : Request → ℕ
  | .write op => op
  | .resolve op => op
  | .connect op => op

/-- The request that an event is the callback of. -/
def Event.request : Event → Option Request
  | .writeCallback op _ => some (.write op)
  | .resolveCallback op _ _ => some (.resolve op)
  | .connectCallback op _ => some (.connect op)
  | _ => none

/-- The steps of a connection.  A run of these is an interleaving of the loop with all other
threads. -/
inductive Action where
  /-- The loop goes on with the first frame.  `candidate` says whether an address is known. -/
  | run (candidate started : Bool)
  | call (call : Call)
  /-- A coroutine suspends or ends. -/
  | leave
  | event (event : Event)
  /-- Another thread calls `close`. -/
  | closeRemote

namespace Connection

/-- Put frames on the stack. -/
def push (s : Connection) (frames : List Frame) : Connection := { s with stack := frames ++ s.stack }

/-- An operation is no longer pending, and it is completed.  Its resumption is among the frames, and
the flag makes every later completion do nothing. -/
def complete (s : Connection) (kind : Kind) (op : ℕ) (frames : List Frame) : Connection :=
  { s with
    pending := Function.update s.pending kind none
    ops := Function.update s.ops op .completed
    stack := frames ++ s.stack }

/-- `finish_connect`. -/
def finishConnect (s : Connection) (ok : Bool) : Connection :=
  match s.pending .connect with
  | none => s
  | some op =>
    if s.ops op = .completed then { s with pending := Function.update s.pending .connect none }
    else if ok then { s.complete .connect op [.resume op] with isOpen := true }
    else s.complete .connect op [.closeOnLoop, .resume op]

/-- `finish_read`. -/
def finishRead (s : Connection) : Connection :=
  match s.pending .read with
  | none => s
  | some op =>
    if s.ops op = .completed then { s with pending := Function.update s.pending .read none }
    else { s.complete .read op [.resume op] with readStarted := false }

/-- `finish_write`. -/
def finishWrite (s : Connection) : Connection :=
  match s.pending .write with
  | none => s
  | some op =>
    if s.ops op = .completed then { s with pending := Function.update s.pending .write none }
    else s.complete .write op [.resume op]

/-- What `close_on_loop` does about the pending operation of a kind. -/
def finish (s : Connection) : Kind → Connection
  | .connect => s.finishConnect false
  | .read => s.finishRead
  | .write => s.finishWrite

/-- An operation that fails when it is issued: it is completed and resumed at once. -/
def refuse (s : Connection) : Connection :=
  { s with
    nextOp := s.nextOp + 1
    ops := Function.update s.ops s.nextOp .completed
    stack := .resume s.nextOp :: s.stack }

/-- An operation becomes pending. -/
def suspend (s : Connection) (kind : Kind) : Connection :=
  { s with
    nextOp := s.nextOp + 1
    pending := Function.update s.pending kind (some s.nextOp)
    ops := Function.update s.ops s.nextOp (.pending kind) }

/-- The posted callback of `ReadAwaiter`. -/
def startRead (s : Connection) (started : Bool) : Connection :=
  if !s.isOpen then s.refuse
  else if (s.pending .read).isSome then s.refuse
  else if s.readStarted then s.suspend .read
  else if started then { s.suspend .read with readStarted := true }
  else (s.suspend .read).finishRead

/-- The posted callback of `WriteAwaiter`. -/
def startWrite (s : Connection) (started : Bool) : Connection :=
  if !s.isOpen then s.refuse
  else if (s.pending .write).isSome then s.refuse
  else if started then
    { s.suspend .write with immediateWrites := 0, requests := .write s.nextOp :: s.requests }
  else ({ s.suspend .write with immediateWrites := 0 } : Connection).finishWrite

/-- `WriteAwaiter` on the loop: what `await_ready` settles is not suspended. -/
def write (s : Connection) (large : Bool) (attempt : Attempt) (started : Bool) : Connection :=
  if !s.isOpen then s
  else if (s.pending .write).isSome then s
  else if large || decide (64 ≤ s.immediateWrites) then s.startWrite started
  else
    match attempt with
    | .wholly => { s with immediateWrites := s.immediateWrites + 1 }
    | .partly => ({ s with immediateWrites := s.immediateWrites + 1 } : Connection).startWrite started
    | .notNow => s.startWrite started
    | .failed => s

/-- `start_tcp_connect`. -/
def startTcpConnect (s : Connection) (op : ℕ) (started : Bool) : Connection :=
  if started then { s with requests := .connect op :: s.requests } else s.finishConnect false

/-- The loop goes on with a frame that it has taken off the stack. -/
def exec (s : Connection) (candidate started : Bool) : Frame → Connection
  | .openConnect =>
    if started then (s.suspend .connect).push [.user, .startConnect s.nextOp]
    else (s.suspend .connect).finishConnect false
  | .startConnect op =>
    if s.ops op = .completed then s
    else if candidate then s.startTcpConnect op started
    else if started then { s with requests := .resolve op :: s.requests }
    else s.finishConnect false
  | .user => s
  | .resume op =>
    { s with
      resumptions := Function.update s.resumptions op (s.resumptions op + 1)
      stack := .user :: s.stack }
  | .closeOnLoop =>
    if s.closing then s
    else
      ({ s with closing := true, isOpen := false } : Connection).push
        [.closePending .read, .closePending .write, .closePending .connect, .closeHandles]
  | .closePending kind => if (s.pending kind).isSome then s.finish kind else s
  | .closeHandles => { s with handlesClosed := true }

/-- A call of a coroutine. -/
def perform (s : Connection) : Call → Connection
  | .read started => s.startRead started
  | .write large attempt started => s.write large attempt started
  | .close => ({ s with isOpen := false } : Connection).push [.closeOnLoop]

/-- A request whose callback runs. -/
def called (s : Connection) (request : Request) : Connection :=
  { s with requests := s.requests.erase request }

/-- An event, when the stack is empty. -/
def handle (s : Connection) : Event → Option Connection
  | .coroutine => some (s.push [.user])
  | .posted =>
    if s.posted = 0 then none
    else some (({ s with posted := s.posted - 1 } : Connection).push [.closeOnLoop])
  | .postedRead started => some (s.startRead started)
  | .postedWrite started => some (s.startWrite started)
  | .readCallback something => some (if something then s.finishRead else s)
  | .writeCallback op _ =>
    if Request.write op ∈ s.requests then
      if s.ops op = .completed then some (s.called (.write op))
      else some (s.called (.write op)).finishWrite
    else none
  | .resolveCallback op ok started =>
    if Request.resolve op ∈ s.requests then
      if s.ops op = .completed then some (s.called (.resolve op))
      else if ok then some ((s.called (.resolve op)).startTcpConnect op started)
      else some ((s.called (.resolve op)).finishConnect false)
    else none
  | .connectCallback op ok =>
    if Request.connect op ∈ s.requests then
      if s.ops op = .completed then some (s.called (.connect op))
      else some ((s.called (.connect op)).finishConnect ok)
    else none
  | .readTimeout =>
    let s := if (s.pending .connect).isSome then s.finishConnect false else s.finishRead
    some { s with stack := s.stack ++ [.closeOnLoop] }
  | .writeTimeout =>
    let s := s.finishWrite
    some { s with stack := s.stack ++ [.closeOnLoop] }

/-- The steps of a connection. -/
def next (s : Connection) : Action → Option Connection
  | .run candidate started =>
    match s.stack with
    | [] => none
    | .user :: _ => none
    | frame :: stack => some (({ s with stack } : Connection).exec candidate started frame)
  | .call call =>
    match s.stack with
    | .user :: _ => some (s.perform call)
    | _ => none
  | .leave =>
    match s.stack with
    | .user :: stack => some { s with stack }
    | _ => none
  | .event event =>
    match s.stack with
    | [] => s.handle event
    | _ => none
  | .closeRemote => some { s with isOpen := false, posted := s.posted + 1 }

/-- A connection from `accept`. -/
def accepted : Connection := { isOpen := true }

/-- A connection that is about to be connected. -/
def created : Connection := { stack := [.openConnect] }

end Connection

end Chhttp.Transport
