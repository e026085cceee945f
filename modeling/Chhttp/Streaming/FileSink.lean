import Chhttp.Common.Text
import Chhttp.Lib.Run
import Chhttp.Lib.Tally

/-!
# The asynchronous file sink

`AsyncFileSink` of `streaming_body.cpp`.  Every operation is an action in a queue.  Whoever submits
one while no worker runs also gives the disk pool a job, which calls `process`; this takes the
actions one by one and ends when it finds the queue empty.

A step is what a thread does under `queue_mutex`, the start of a job by a thread of the disk pool,
or a part of an action: the operation on the stream, with the update of `written`, then the update
of `position`, then the completion.  `fileSink_sound` is about all runs of these steps.
-/

namespace Chhttp

open Transition Tally

namespace FileSink

/-! ### The source -/

/-- The operations of a sink.  A flush pushes what is buffered to the system, and a sync to the
disk. -/
inductive FileAction where
  | write (data : Bytes)
  | flush
  | sync

/-- What the stream and the file system do in an action.  Each action notices some of them and
ignores the others. -/
inductive Outcome where
  | good
  /-- `!impl.output`. -/
  | badStream
  /-- `::open` fails. -/
  | notOpened
  /-- `::fsync` fails. -/
  | notSynced
  /-- An exception, with its text if it is a `std::exception`. -/
  | threw (what : Option String)

/-- The largest `std::streamsize`. -/
def streamsizeMax : ℕ := 2 ^ 63 - 1

/-- The result of an action in `process`; no error is none.  An empty write succeeds without a look
at the stream. -/
def FileAction.result : FileAction → Outcome → Option ErrorInfo
  | .write [], _ => none
  | .write data, outcome =>
    if streamsizeMax < data.length then
      some { code := .invalidArgument, message := "Asynchronous file write exceeds the stream limit" }
    else
      match outcome with
      | .badStream =>
        some { code := .write, message := "Unable to write asynchronous file sink" }
      | .threw what => some (thrown what)
      | _ => none
  | .flush, .badStream =>
    some { code := .write, message := "Unable to flush asynchronous file sink" }
  | .flush, .threw what => some (thrown what)
  | .flush, _ => none
  | .sync, .badStream =>
    some { code := .write, message := "Unable to flush asynchronous file sink" }
  | .sync, .notOpened =>
    some { code := .write, message := "Unable to open file for durable sync" }
  | .sync, .notSynced => some { code := .write, message := "Unable to durably sync file" }
  | .sync, .threw what => some (thrown what)
  | .sync, .good => none
where
  /-- What `process` makes of an exception. -/
  thrown : Option String → ErrorInfo
    | some what =>
      { code := .internal, message := "Asynchronous file operation failed: " ++ what }
    | none => { code := .internal, message := "Asynchronous file operation failed" }

/-- How many bytes an action writes, if it is successful. -/
def FileAction.size : FileAction → ℕ
  | .write data => data.length
  | _ => 0

/-- Where a call of `process` is.  The counters are updated one after the other, so a reader may see
one of them ahead. -/
inductive Phase where
  /-- It is about to look at the queue. -/
  | fetching
  | executing (action : FileAction)
  /-- `written` includes the action, `position` does not yet. -/
  | counting (action : FileAction)
  /-- The result is known, and about to be handed over. -/
  | completing (action : FileAction) (result : Option ErrorInfo)

/-- `AsyncFileSink::Impl`, with its jobs in the disk pool and what has happened to the actions.
Actions that were refused by the disk pool are not in `submitted`: their callers got the exception.
-/
structure Sink where
  pending : List FileAction := []
  workerRunning : Bool := false
  written : UInt64 := 0
  position : UInt64
  /-- The jobs that wait in the disk pool. -/
  scheduled : ℕ := 0
  /-- The calls of `process` that run. -/
  active : List Phase := []
  submitted : List FileAction := []
  executed : List (FileAction × Option ErrorInfo) := []

/-- A sink that has been opened at a position. -/
def Sink.start (position : UInt64) : Sink := { position := position }

/-- The steps.  Submissions come from any thread, and between any two steps of a job. -/
inductive Action where
  /-- `submit`; the disk pool throws, or takes a job if it is given one. -/
  | submit (action : FileAction) (poolThrows : Bool)
  /-- A thread of the disk pool starts a job. -/
  | start
  /-- `process` looks at the queue. -/
  | fetch (i : ℕ)
  | execute (i : ℕ) (outcome : Outcome)
  | count (i : ℕ)
  | complete (i : ℕ)

/-- `submit`. -/
def Sink.submit (s : Sink) (action : FileAction) (poolThrows : Bool) : Sink :=
  if s.workerRunning then
    { s with pending := s.pending ++ [action], submitted := s.submitted ++ [action] }
  else if poolThrows then { s with pending := (s.pending ++ [action]).dropLast }
  else
    { s with
      pending := s.pending ++ [action]
      submitted := s.submitted ++ [action]
      scheduled := s.scheduled + 1
      workerRunning := true }

/-- One step.  The job does one action after another, and ends when it finds the queue empty. -/
def Sink.next (s : Sink) : Action → Option Sink
  | .submit action poolThrows => some (s.submit action poolThrows)
  | .start =>
    if 0 < s.scheduled then
      some { s with scheduled := s.scheduled - 1, active := s.active ++ [.fetching] }
    else none
  | .fetch i =>
    match s.active[i]? with
    | some .fetching =>
      match s.pending with
      | [] => some { s with workerRunning := false, active := s.active.eraseIdx i }
      | action :: pending =>
        some { s with pending := pending, active := s.active.set i (.executing action) }
    | _ => none
  | .execute i outcome =>
    match s.active[i]? with
    | some (.executing action) =>
      match action.result outcome with
      | some e => some { s with active := s.active.set i (.completing action (some e)) }
      | none =>
        if action.size = 0 then
          some { s with active := s.active.set i (.completing action none) }
        else
          some { s with
            written := s.written + UInt64.ofNat action.size
            active := s.active.set i (.counting action) }
    | _ => none
  | .count i =>
    match s.active[i]? with
    | some (.counting action) =>
      some { s with
        position := s.position + UInt64.ofNat action.size
        active := s.active.set i (.completing action none) }
    | _ => none
  | .complete i =>
    match s.active[i]? with
    | some (.completing action result) =>
      some { s with
        active := s.active.set i .fetching
        executed := s.executed ++ [(action, result)] }
    | _ => none

/-! ### The invariant -/

variable {s t : Sink} {position : UInt64} {i : ℕ}

/-- The action that a call of `process` has taken from the queue. -/
def Phase.action : Phase → Option FileAction
  | .fetching => none
  | .executing action => some action
  | .counting action => some action
  | .completing action _ => some action

/-- The actions of a single call. -/
lemma filterMap_action (x : Phase) : [x].filterMap Phase.action = x.action.toList := by
  cases x <;> rfl

/-- The bytes of an action that was successful. -/
def successful (entry : FileAction × Option ErrorInfo) : ℕ :=
  if entry.2.isNone then entry.1.size else 0

/-- What a call of `process` has added to `written` for the action that it has. -/
def Phase.added : Phase → ℕ
  | .counting action => action.size
  | .completing action result => successful (action, result)
  | _ => 0

/-- What it has added to `position`. -/
def Phase.moved : Phase → ℕ
  | .completing action result => successful (action, result)
  | _ => 0

/-- The sum of the sizes of the successful writes. -/
def Sink.total (s : Sink) : ℕ := tally successful s.executed

/-- What holds between any two steps.  What was submitted is what was executed, what a job has in
hand, and what waits, in this order; the counters are sums over it in 64 bits. -/
structure Sink.Inv (position : UInt64) (s : Sink) : Prop where
  /-- There is one job while `worker_running` is set, and none otherwise. -/
  jobs : s.scheduled + s.active.length = if s.workerRunning then 1 else 0
  waiting : s.pending ≠ [] → s.workerRunning = true
  fifo : s.executed.map Prod.fst ++ s.active.filterMap Phase.action ++ s.pending = s.submitted
  written : s.written = UInt64.ofNat (s.total + tally Phase.added s.active)
  position : s.position = position + UInt64.ofNat (s.total + tally Phase.moved s.active)

/-- At most one call of `process` runs. -/
lemma Sink.Inv.active_eq (h : s.Inv position) {x : Phase} (hi : s.active[i]? = some x) :
    s.active = [x] ∧ i = 0 ∧ s.scheduled = 0 ∧ s.workerRunning = true := by
  have hjobs := h.jobs
  have hlt := (List.getElem?_eq_some_iff.mp hi).1
  cases hrunning : s.workerRunning with
  | false =>
    rw [hrunning, if_neg Bool.false_ne_true] at hjobs
    omega
  | true =>
    rw [hrunning, if_pos rfl] at hjobs
    obtain ⟨y, hy⟩ := List.length_eq_one_iff.mp (show s.active.length = 1 by omega)
    obtain rfl : i = 0 := by omega
    rw [hy, List.getElem?_cons_zero, Option.some.injEq] at hi
    exact ⟨hi ▸ hy, rfl, by omega, rfl⟩

/-- The counters, while an action is on its way. -/
lemma Sink.Inv.counters (h : s.Inv position) {x : Phase} (hi : s.active[i]? = some x) :
    s.written = UInt64.ofNat (s.total + x.added) ∧
      s.position = position + UInt64.ofNat (s.total + x.moved) := by
  have hwritten := h.written
  have hposition := h.position
  rw [(h.active_eq hi).1, tally_cons, tally_nil, Nat.add_zero] at hwritten hposition
  exact ⟨hwritten, hposition⟩

/-- A new sink. -/
lemma Sink.inv_start (position : UInt64) : (Sink.start position).Inv position where
  jobs := rfl
  waiting := fun h => absurd rfl h
  fifo := rfl
  written := rfl
  position := (UInt64.add_zero position).symm

/-- A submission, also one that the disk pool refuses. -/
lemma Sink.Inv.submit (h : s.Inv position) (action : FileAction) (poolThrows : Bool) :
    (s.submit action poolThrows).Inv position := by
  rw [Sink.submit]
  split_ifs with hrunning hthrows
  · refine ⟨h.jobs, fun _ => hrunning, ?_, h.written, h.position⟩
    dsimp only
    rw [← h.fifo, List.append_assoc _ s.pending]
  · rw [List.dropLast_concat]
    exact h
  · have hjobs := h.jobs
    rw [if_neg hrunning] at hjobs
    refine ⟨?_, fun _ => rfl, ?_, h.written, h.position⟩
    · dsimp only
      rw [if_pos rfl]
      omega
    · dsimp only
      rw [← h.fifo, List.append_assoc _ s.pending]

/-- The only call of `process` goes on with the action that it has. -/
lemma Sink.Inv.move (h : s.Inv position) {x y : Phase} (hi : s.active[i]? = some x)
    (haction : y.action = x.action) {written moved : UInt64}
    (hwritten : written = UInt64.ofNat (s.total + y.added))
    (hmoved : moved = position + UInt64.ofNat (s.total + y.moved)) :
    { s with written := written, position := moved, active := s.active.set i y }.Inv position := by
  obtain ⟨hactive, rfl, -, -⟩ := h.active_eq hi
  have hjobs := h.jobs
  have hfifo := h.fifo
  rw [hactive] at hjobs hfifo
  have hset : s.active.set 0 y = [y] := by rw [hactive, List.set_cons_zero]
  rw [hset]
  refine ⟨hjobs, h.waiting, ?_, ?_, ?_⟩
  · dsimp only
    rw [← hfifo, List.filterMap_cons, List.filterMap_cons, haction]
  · dsimp only
    rw [hwritten, tally_cons, tally_nil, Nat.add_zero]
    rfl
  · dsimp only
    rw [hmoved, tally_cons, tally_nil, Nat.add_zero]
    rfl

/-- The disk pool starts the job of the sink. -/
lemma Sink.Inv.start (h : s.Inv position) (hpos : 0 < s.scheduled) :
    { s with scheduled := s.scheduled - 1, active := s.active ++ [Phase.fetching] }.Inv
      position where
  jobs := by
    dsimp only
    rw [List.length_append, List.length_singleton, ← h.jobs]
    omega
  waiting := h.waiting
  fifo := by
    rw [List.filterMap_append, filterMap_action]
    simp only [Phase.action, Option.toList_none, List.append_nil]
    exact h.fifo
  written := by
    rw [tally_append, tally_cons, tally_nil]
    exact h.written
  position := by
    rw [tally_append, tally_cons, tally_nil]
    exact h.position

/-- `process` looks at the queue, and returns or takes the action in front. -/
lemma Sink.Inv.fetch (h : s.Inv position) (hnext : s.next (.fetch i) = some t) :
    t.Inv position := by
  simp only [Sink.next] at hnext
  split at hnext
  case h_2 => cases hnext
  case h_1 hi =>
    obtain ⟨hactive, rfl, hscheduled, hrunning⟩ := h.active_eq hi
    have hfifo := h.fifo
    have hwritten := h.written
    have hposition := h.position
    rw [hactive] at hfifo hwritten hposition
    split at hnext
    case h_1 hpending =>
      cases hnext
      have herase : s.active.eraseIdx 0 = [] := by rw [hactive, List.eraseIdx_cons_zero]
      rw [herase]
      refine ⟨?_, fun hne => absurd hpending hne, hfifo, hwritten, hposition⟩
      dsimp only
      rw [hscheduled, if_neg Bool.false_ne_true, List.length_nil]
    case h_2 action pending hpending =>
      cases hnext
      have hset : s.active.set 0 (.executing action) = [.executing action] := by
        rw [hactive, List.set_cons_zero]
      rw [hset]
      refine ⟨?_, fun _ => hrunning, ?_, hwritten, hposition⟩
      · dsimp only
        rw [hscheduled, if_pos hrunning, List.length_singleton]
      · dsimp only
        rw [← hfifo, hpending, filterMap_action, filterMap_action]
        simp only [Phase.action, Option.toList_none, Option.toList_some, List.append_nil,
          List.append_assoc, List.singleton_append]

/-- The operation of an action, with the update of `written`. -/
lemma Sink.Inv.execute (h : s.Inv position) {outcome : Outcome}
    (hnext : s.next (.execute i outcome) = some t) : t.Inv position := by
  simp only [Sink.next] at hnext
  split at hnext
  case h_2 => cases hnext
  case h_1 action hi =>
    obtain ⟨hwritten, hposition⟩ := h.counters hi
    split at hnext
    case h_1 e _ =>
      cases hnext
      exact h.move (y := .completing action (some e)) hi rfl hwritten hposition
    case h_2 =>
      split_ifs at hnext with hsize
      · cases hnext
        refine h.move (y := .completing action none) hi rfl ?_ ?_
        · rw [hwritten]
          simp only [Phase.added, successful, Option.isNone_none, if_true, hsize]
        · rw [hposition]
          simp only [Phase.moved, successful, Option.isNone_none, if_true, hsize]
      · cases hnext
        refine h.move (y := .counting action) hi rfl ?_ hposition
        rw [hwritten, ← UInt64.ofNat_add]
        rfl

/-- The update of `position`. -/
lemma Sink.Inv.count (h : s.Inv position) (hnext : s.next (.count i) = some t) :
    t.Inv position := by
  simp only [Sink.next] at hnext
  split at hnext
  case h_2 => cases hnext
  case h_1 action hi =>
    obtain ⟨hwritten, hposition⟩ := h.counters hi
    cases hnext
    refine h.move (y := .completing action none) hi rfl hwritten ?_
    rw [hposition, UInt64.add_assoc, ← UInt64.ofNat_add]
    rfl

/-- What the only call of `process` has done when it completes an action.  There are no two calls at
a time, so the offset is where the last one left it. -/
lemma Sink.Inv.complete_eq (h : s.Inv position) (hnext : s.next (.complete i) = some t) :
    t.active = [.fetching] ∧ t.written = UInt64.ofNat t.total ∧
      t.position = position + t.written ∧ t.Inv position := by
  simp only [Sink.next] at hnext
  split at hnext
  case h_2 => cases hnext
  case h_1 action result hi =>
    obtain ⟨hactive, rfl, hscheduled, hrunning⟩ := h.active_eq hi
    have hjobs := h.jobs
    have hfifo := h.fifo
    obtain ⟨hwritten, hposition⟩ := h.counters hi
    rw [hactive] at hjobs hfifo
    have hset : s.active.set 0 .fetching = [.fetching] := by rw [hactive, List.set_cons_zero]
    have htotal : tally successful (s.executed ++ [(action, result)]) =
        s.total + successful (action, result) := by
      rw [tally_append, tally_cons, tally_nil, Nat.add_zero]
      rfl
    cases hnext
    have hwritten' : s.written =
        UInt64.ofNat (tally successful (s.executed ++ [(action, result)])) := by
      rw [htotal, hwritten]
      rfl
    have hposition' : s.position = position +
        UInt64.ofNat (tally successful (s.executed ++ [(action, result)])) := by
      rw [htotal, hposition]
      rfl
    rw [hset]
    refine ⟨rfl, hwritten', ?_, hjobs, h.waiting, ?_, hwritten', hposition'⟩
    · dsimp only
      rw [hposition', ← hwritten']
    · dsimp only
      rw [← hfifo, filterMap_action, filterMap_action, List.map_append, List.map_singleton]
      simp only [Phase.action, Option.toList_none, Option.toList_some, List.append_nil]

/-- Every step keeps the invariant. -/
lemma Sink.Inv.next (h : s.Inv position) {a : Action} (hnext : s.next a = some t) :
    t.Inv position := by
  cases a with
  | submit action poolThrows =>
    cases hnext
    exact h.submit action poolThrows
  | start =>
    simp only [Sink.next] at hnext
    split_ifs at hnext with hpos
    cases hnext
    exact h.start hpos
  | fetch i => exact h.fetch hnext
  | execute i outcome => exact h.execute hnext
  | count i => exact h.count hnext
  | complete i => exact (h.complete_eq hnext).2.2.2

/-! ### Runs -/

/-- In every run, whatever the submitters, the disk pool and the streams do: at most one call of
`process` runs, the actions are executed once each in the order of their submission, an action in
the queue has a job, and with every completion `written` is the sum of the sizes of the successful
writes and `position` the initial one plus `written`.  So it is while no call of `process` runs, and
then, with no job in the disk pool either, all actions have been executed. -/
theorem fileSink_sound {trace : List (Sink × Action)}
    (h : Run Sink.next (Sink.start position) trace s) :
    s.active.length ≤ 1 ∧
      s.executed.map Prod.fst ++ s.active.filterMap Phase.action ++ s.pending = s.submitted ∧
      (s.pending ≠ [] → s.scheduled + s.active.length = 1) ∧
      (∀ i t, s.next (.complete i) = some t →
        t.written = UInt64.ofNat t.total ∧ t.position = position + t.written) ∧
      (s.active = [] → s.written = UInt64.ofNat s.total ∧ s.position = position + s.written) ∧
      (s.active = [] → s.scheduled = 0 → s.executed.map Prod.fst = s.submitted) := by
  have hinv : s.Inv position :=
    h.invariant (fun _ _ _ hs hnext => hs.next hnext) (Sink.inv_start position)
  have hjobs := hinv.jobs
  refine ⟨?_, hinv.fifo, fun hpending => ?_, fun i t hnext => ?_, fun hactive => ?_,
    fun hactive hscheduled => ?_⟩
  · split_ifs at hjobs <;> omega
  · rw [hjobs, if_pos (hinv.waiting hpending)]
  · obtain ⟨-, hwritten, hposition, -⟩ := hinv.complete_eq hnext
    exact ⟨hwritten, hposition⟩
  · have hwritten := hinv.written
    have hposition := hinv.position
    rw [hactive, tally_nil, Nat.add_zero] at hwritten hposition
    exact ⟨hwritten, hwritten ▸ hposition⟩
  · have hpending : s.pending = [] := by
      by_contra hne
      rw [hinv.waiting hne, if_pos rfl, hactive, hscheduled] at hjobs
      exact absurd hjobs (by decide)
    have hfifo := hinv.fifo
    rw [hactive, hpending, List.filterMap_nil, List.append_nil, List.append_nil] at hfifo
    exact hfifo

/-- A write during another one, and a flush that the disk pool refuses: one job does both writes. -/
theorem fileSink_sound_of_writes :
    ∃ (trace : List (Sink × Action)) (s : Sink), Run Sink.next (Sink.start 10) trace s ∧
      s.executed.map Prod.fst = [.write [1, 2], .write [3]] ∧ s.written = 3 ∧ s.position = 13 := by
  obtain ⟨s, hs, hactive, hscheduled, hsubmitted, htotal⟩ : ∃ s : Sink,
      perform Sink.next (Sink.start 10) [.submit .flush true, .submit (.write [1, 2]) false, .start,
        .fetch 0, .submit (.write [3]) false, .execute 0 .good, .count 0, .complete 0, .fetch 0,
        .execute 0 .good, .count 0, .complete 0, .fetch 0] = some s ∧
      s.active = [] ∧ s.scheduled = 0 ∧ s.submitted = [.write [1, 2], .write [3]] ∧ s.total = 3 :=
    ⟨_, rfl, rfl, rfl, rfl, rfl⟩
  obtain ⟨trace, hrun⟩ := run_of_perform hs
  obtain ⟨-, -, -, -, hcounts, hdone⟩ := fileSink_sound hrun
  obtain ⟨hwritten, hposition⟩ := hcounts hactive
  rw [htotal] at hwritten
  refine ⟨trace, s, hrun, (hdone hactive hscheduled).trans hsubmitted, hwritten, ?_⟩
  rw [hposition, hwritten]
  rfl

end FileSink

end Chhttp
