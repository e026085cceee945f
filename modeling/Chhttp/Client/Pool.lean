import Chhttp.Lib.Run
import Mathlib

/-!
# The connection pool of the client

`Impl` is the part of `AsyncClient::Impl` that concerns connections: the idle connections of every
origin, the number of connections that it accounts for, the queue of waiters, and the requests with
their controls.  A request is where its coroutine is suspended (`Stage`).  `step` is the transition
system of the loop: an action lets one request run to its next suspension, or is something that
happens to it from outside, a cancellation, a timer or a connection that closes.

The outcome of every network operation is part of the action, and so is whether a deadline has
passed; both are arbitrary.  Operations that the source performs without suspending are one step,
or several, which only adds interleavings.
-/

namespace Chhttp.AsyncClient

/-! ### Requests -/

/-- The fields of `ClientOptions` that concern the pool.  A limit of zero connections for an origin
means that there is none. -/
structure PoolOptions where
  maxConnectionsPerOrigin : ℕ := 64
  connectionPoolSize : ℕ := 8
  keepAlive : Bool := true

/-- A `PoolWaiter`.  It is queued while it is in the list of its origin, and completed once it has
been resumed; a notification comes in between. -/
structure PoolWaiter where
  completed : Bool := false
  notified : Bool := false
  queued : Bool := false
  slotNotified : Bool := false

/-- `PoolWaiter::notify`, which starts the timer that resumes the waiter. -/
def PoolWaiter.notify (w : PoolWaiter) : PoolWaiter :=
  if w.completed || w.notified then w else { w with notified := true }

/-- What a request does with its lease.  They matter for what happens to the connection if the
request fails here. -/
inductive Phase where
  | acquired
  | writing
  | reading

/-- Where a request is suspended: in the loop of `request`, in a `PoolAwaiter` of this loop or of
`acquire`, at the start of `exchange`, in the loop of `acquire`, while it opens a connection for the
slot it has reserved, or with a lease.  Connections are numbers. -/
inductive Stage where
  | checking
  | waiting (waiter : PoolWaiter) (inAcquire : Bool)
  | exchanging
  | acquiring
  | connecting (connection : Option ℕ)
  | leased (connection : ℕ) (reused : Bool) (phase : Phase)
  | finished

/-- A request with its `RequestControl`: the key of the origin it is on, the legacy flag in its
options, and whether it has a deadline and may be sent again. -/
structure RequestState (K : Type*) where
  key : K
  stage : Stage := .checking
  onLoop : Bool := false
  cancelled : Bool := false
  cancellation : Option Bool := none
  hasDeadline : Bool := false
  notifiedOrigin : Option K := none
  attempt : ℕ := 0
  retryable : Bool := false

variable {K : Type*} [DecidableEq K]

/-- The waiter of a request that waits. -/
def RequestState.waiter (r : RequestState K) : Option PoolWaiter :=
  match r.stage with
  | .waiting w _ => some w
  | _ => none

/-- The `cancelled` of `acquire` and `exchange`: the legacy flag cancels the control. -/
def RequestState.poll (r : RequestState K) : RequestState K :=
  { r with cancelled := r.cancelled || r.cancellation.getD false }

/-! ### The pool -/

/-- The members of `AsyncClient::Impl` that concern connections.  In `pool`, the connection that was
returned last comes first. -/
structure Impl (K : Type*) where
  requests : List (RequestState K) := []
  pool : K → List ℕ := fun _ => []
  connectionCounts : K → ℕ := fun _ => 0
  poolWaiters : K → List ℕ := fun _ => []
  isOpen : ℕ → Bool := fun _ => false
  connections : ℕ := 0

namespace Impl

/-- Request `i` becomes `r`. -/
def put (i : ℕ) (r : RequestState K) (s : Impl K) : Impl K :=
  { s with requests := s.requests.set i r }

/-- `Connection::close`. -/
def close (c : ℕ) (s : Impl K) : Impl K := { s with isOpen := Function.update s.isOpen c false }

/-- The loop of `wake_pool_waiter`: waiters leave the queue up to the first one that has not been
notified, which gets the slot. -/
def wakeFirst (requests : List (RequestState K)) : List ℕ → List (RequestState K) × List ℕ
  | [] => (requests, [])
  | i :: queue =>
    match requests[i]? with
    | none => wakeFirst requests queue
    | some r =>
      match r.stage with
      | .waiting w inAcquire =>
        let w := { w with queued := false }
        if !w.completed && !w.notified then
          let w := { w with slotNotified := true }
          (requests.set i { r with stage := .waiting w.notify inAcquire }, queue)
        else wakeFirst (requests.set i { r with stage := .waiting w inAcquire }) queue
      | _ => wakeFirst requests queue

/-- `wake_pool_waiter`. -/
def wakePoolWaiter (key : K) (s : Impl K) : Impl K :=
  let (requests, queue) := wakeFirst s.requests (s.poolWaiters key)
  { s with requests, poolWaiters := Function.update s.poolWaiters key queue }

/-- The part of `release_slot` under the lock. -/
def dropSlot (key : K) (s : Impl K) : Impl K :=
  if s.connectionCounts key = 0 then s
  else
    let count := s.connectionCounts key - 1
    { s with
      connectionCounts := Function.update s.connectionCounts key count
      pool := if count = 0 then Function.update s.pool key [] else s.pool }

/-- `release_slot`. -/
def releaseSlot (key : K) (s : Impl K) : Impl K := (s.dropSlot key).wakePoolWaiter key

/-- `discard`, for the lease of connection `c`. -/
def discard (key : K) (c : ℕ) (s : Impl K) : Impl K := (s.close c).releaseSlot key

/-- `release`, for the lease of connection `c`. -/
def release (options : PoolOptions) (key : K) (c : ℕ) (reusable : Bool) (s : Impl K) : Impl K :=
  if !reusable || !options.keepAlive || !s.isOpen c then (s.close c).releaseSlot key
  else if (s.pool key).length < options.connectionPoolSize then
    { s with pool := Function.update s.pool key (c :: s.pool key) }.wakePoolWaiter key
  else (s.close c).releaseSlot key

/-- `PoolAwaiter::await_suspend`. -/
def awaitSuspend (i : ℕ) (r : RequestState K) (inAcquire : Bool) (s : Impl K) : Impl K :=
  { s with
    requests := s.requests.set i
      { r with stage := .waiting { queued := true } inAcquire, notifiedOrigin := none }
    poolWaiters := Function.update s.poolWaiters r.key (s.poolWaiters r.key ++ [i]) }

/-- `PoolAwaiter::await_resume`, for waiter `w` of request `i`, which continues in `stage`. -/
def awaitResume (i : ℕ) (r : RequestState K) (w : PoolWaiter) (stage : Stage) (s : Impl K) :
    Impl K :=
  { s with
    requests := s.requests.set i
      { r with
        stage, onLoop := true
        notifiedOrigin := if w.slotNotified then some r.key else r.notifiedOrigin }
    poolWaiters :=
      if w.queued then Function.update s.poolWaiters r.key ((s.poolWaiters r.key).erase i)
      else s.poolWaiters }

/-- The destructor of `Registration` hands a notification on. -/
def passOn (notifiedOrigin : Option K) (s : Impl K) : Impl K :=
  match notifiedOrigin with
  | none => s
  | some key => s.wakePoolWaiter key

/-- Request `i` exits, after `last`. -/
def exit (i : ℕ) (r : RequestState K) (s : Impl K) (last : Impl K → Impl K := id) : Impl K :=
  passOn r.notifiedOrigin
    (last (s.put i { r with stage := .finished, notifiedOrigin := none }))

/-- The loop of `acquire` over the idle connections of an origin: those that have closed are no
longer accounted for. -/
def checkOut (isOpen : ℕ → Bool) : List ℕ → ℕ → Option ℕ × List ℕ × ℕ
  | [], count => (none, [], count)
  | c :: entries, count =>
    if isOpen c then (some c, entries, count) else checkOut isOpen entries (count - 1)

/-- One iteration of the loop of `acquire`, after the checks. -/
def acquire (options : PoolOptions) (i : ℕ) (r : RequestState K) (s : Impl K) : Impl K :=
  let (connection, entries, count) :=
    checkOut s.isOpen (s.pool r.key) (s.connectionCounts r.key)
  let s := { s with
    pool := Function.update s.pool r.key entries
    connectionCounts := Function.update s.connectionCounts r.key count }
  match connection with
  | some c =>
    s.put i { r with stage := .leased c true .acquired, notifiedOrigin := none }
  | none =>
    if options.maxConnectionsPerOrigin = 0 ∨ count < options.maxConnectionsPerOrigin then
      { s with connectionCounts := Function.update s.connectionCounts r.key (count + 1) }.put i
        { r with stage := .connecting none, notifiedOrigin := none }
    else s.awaitSuspend i r true

/-- The test of `request` before it waits. -/
def full (options : PoolOptions) (key : K) (s : Impl K) : Bool :=
  decide (options.maxConnectionsPerOrigin ≠ 0) &&
    decide (options.maxConnectionsPerOrigin ≤ s.connectionCounts key) && (s.pool key).isEmpty

end Impl

/-! ### Steps -/

/-- What follows a response: the request returns, or there is another exchange, for a digest
challenge or a redirect. -/
inductive Follow (K : Type*) where
  | finish
  | again (key : K) (retryable : Bool)

/-- What `read_response` returns, if it does.  A failure says whether a response had begun, and a
response says whether the connection persists and where the request goes next. -/
inductive Received (K : Type*) where
  | failed (responseStarted : Bool)
  | response (keepAlive : Bool) (follow : Follow K)

/-- What a request does next, or what happens to it.  Each is what runs between two suspensions,
with the outcome that the environment chooses: a deadline, a refused connect, a failed write. -/
inductive Event (K : Type*) where
  | resumeOnLoop
  | cancel
  | raiseFlag
  | wakeup
  | ready
  | check (expired : Bool)
  | exchange (expired : Bool)
  | acquire (expired : Bool)
  | connect (connected : Bool)
  | establish (established : Bool)
  | send (timedOut : Bool)
  | written (failed : Bool)
  | received (result : Received K)

/-- The actions of the client.  A new request comes, a peer closes a connection, or a request goes
on. -/
inductive Action (K : Type*) where
  | request (r : RequestState K)
  | closed (connection : ℕ)
  | event (i : ℕ) (e : Event K)

namespace Impl

/-- The connection that a control is bound to.  It is what `RequestControl::cancel` closes. -/
def boundConnection (r : RequestState K) : Option ℕ :=
  match r.stage with
  | .connecting connection => connection
  | .leased c _ _ => some c
  | _ => none

/-- `RequestControl::cancel`, without the wakeup, which is posted. -/
def cancel (i : ℕ) (r : RequestState K) (s : Impl K) : Impl K :=
  let s := s.put i { r with cancelled := true }
  match boundConnection r with
  | none => s
  | some c => s.close c

/-- The end of an attempt without a response: the lease is discarded, and the request is tried again
if `retry` says so. -/
def failAttempt (i : ℕ) (r : RequestState K) (c : ℕ) (retry : Bool) (s : Impl K) : Impl K :=
  let r := r.poll
  if !r.cancelled && retry then
    (s.put i { r with stage := .acquiring, attempt := r.attempt + 1 }).discard r.key c
  else s.exit i r fun s => s.discard r.key c

/-- What follows a response, after `last`. -/
def follow (i : ℕ) (r : RequestState K) (next : Follow K) (s : Impl K) (last : Impl K → Impl K) :
    Impl K :=
  match next with
  | .finish => s.exit i r last
  | .again key retryable =>
    last (s.put i { r with key, retryable, stage := .exchanging })

/-- One event of request `i`; `none` when it is not where this can happen.  The branches are those
of the coroutine between two suspensions, with all they do to the pool, the counters and the queues.
-/
def event (options : PoolOptions) (s : Impl K) (i : ℕ) (r : RequestState K) :
    Event K → Option (Impl K)
  | .resumeOnLoop => some (s.put i { r with onLoop := true })
  | .cancel => some (s.cancel i r)
  | .raiseFlag => r.cancellation.map fun _ => s.put i { r with cancellation := some true }
  | .wakeup =>
    match r.stage with
    | .waiting w inAcquire =>
      if r.cancelled then some (s.put i { r with stage := .waiting w.notify inAcquire }) else none
    | _ => none
  | .ready =>
    match r.stage with
    | .waiting w inAcquire =>
      if !w.completed && (w.notified || r.hasDeadline || r.cancellation.isSome) then
        some (s.awaitResume i r { w with completed := true }
          (if inAcquire then .acquiring else .checking))
      else none
    | _ => none
  | .check expired =>
    match r.stage with
    | .checking =>
      if !s.full options r.key then some (s.put i { r with stage := .exchanging })
      else if !r.onLoop then none
      else if r.poll.cancelled || (r.hasDeadline && expired) then some (s.exit i r.poll)
      else some (s.awaitSuspend i r false)
    | _ => none
  | .exchange expired =>
    match r.stage with
    | .exchanging =>
      if r.poll.cancelled || (r.hasDeadline && expired) then some (s.exit i r.poll)
      else some (s.put i { r with stage := .acquiring, attempt := 0 })
    | _ => none
  | .acquire expired =>
    match r.stage with
    | .acquiring =>
      if !r.onLoop then none
      else if r.poll.cancelled || (r.hasDeadline && expired) then some (s.exit i r.poll)
      else some (s.acquire options i r)
    | _ => none
  | .connect connected =>
    match r.stage with
    | .connecting none =>
      if connected then
        let c := s.connections
        some ({ s with
          isOpen := Function.update s.isOpen c true, connections := c + 1 }.put i
            { r with stage := .connecting (some c) })
      else some (s.exit i r fun s => s.releaseSlot r.key)
    | _ => none
  | .establish established =>
    match r.stage with
    | .connecting (some c) =>
      if r.poll.cancelled || !established then
        some (s.exit i r.poll fun s => (s.close c).releaseSlot r.key)
      else some (s.put i { r with stage := .leased c false .acquired })
    | _ => none
  | .send timedOut =>
    match r.stage with
    | .leased c reused .acquired =>
      if r.poll.cancelled || (r.hasDeadline && timedOut) then
        some (s.exit i r.poll fun s => s.discard r.key c)
      else some (s.put i { r with stage := .leased c reused .writing })
    | _ => none
  | .written failed =>
    match r.stage with
    | .leased c reused .writing =>
      if failed then
        some (s.failAttempt i r c (reused && r.attempt == 0 && r.retryable))
      else some (s.put i { r with stage := .leased c reused .reading })
    | _ => none
  | .received result =>
    match r.stage with
    | .leased c reused .reading =>
      match result with
      | .failed responseStarted =>
        some (s.failAttempt i r c (!responseStarted && reused && r.attempt == 0 && r.retryable))
      | .response keepAlive next =>
        if r.poll.cancelled then some (s.exit i r.poll fun s => s.discard r.key c)
        else
          some (s.follow i r next fun s =>
            s.release options r.key c (options.keepAlive && keepAlive))
    | _ => none

end Impl

/-- The transition system of the client.  A request starts in `request`, and is cancelled there if
its flag is set. -/
def step (options : PoolOptions) (s : Impl K) : Action K → Option (Impl K)
  | .request r =>
    some { s with
      requests := s.requests ++ [{ r.poll with
        stage := .checking, notifiedOrigin := none, attempt := 0 }] }
  | .closed c => some (s.close c)
  | .event i e =>
    match s.requests[i]? with
    | none => none
    | some r => s.event options i r e

end Chhttp.AsyncClient
