import Chhttp.Lib.Run
import Chhttp.Lib.Tally

/-!
# The worker pool

`WorkerPool` of `server.cpp`: a queue under a mutex, and threads that wait on a condition variable
while the queue is empty.  `enqueue` only notifies when a worker is counted as sleeping, and a
worker is counted from before it waits until it has the mutex again.

A step is what one thread does while it holds the mutex, the call of a job, a notification, or a
wake-up without one.  `Pool.Inv` holds between any two steps, `workerPool_sound` says what follows
for all runs; `Pool.Inv.stuck` says where they end when no further job comes.
-/

namespace Chhttp

open Transition Tally
open scoped List

namespace WorkerPool

/-! ### The source -/

/-- What a thread does.  The wait is split in two, because a thread that was woken still has to get
the mutex, and counts as sleeping until then. -/
inductive Phase (J : Type) where
  /-- It is about to take the mutex. -/
  | ready
  /-- It calls a job. -/
  | running (job : J)
  /-- It is in `ready_.wait`, and gave the mutex up. -/
  | waiting
  /-- It was woken up, and has to take the mutex again to leave `ready_.wait`. -/
  | woken
  | exited

/-- `WorkerPool`, with what has happened to the jobs.  The last four fields are not in the source:
they record what was pushed, taken and finished, for the statements. -/
structure Pool (J : Type) where
  queue : List J := []
  sleeping : ℕ := 0
  stopping : Bool := false
  workers : List (Phase J)
  /-- The calls of `enqueue` that are about to notify. -/
  notifiers : ℕ := 0
  /-- The destructor is about to notify. -/
  notifyingAll : Bool := false
  pushed : List J := []
  taken : List J := []
  finished : List J := []
  /-- How many jobs had been pushed when the destructor set `stopping_`. -/
  beforeStop : ℕ := 0

/-- The steps.  What runs under the mutex is one step, and a notification is a step of its own; so a
thread may go to sleep in between. -/
inductive Action (J : Type) where
  /-- The part of `enqueue` under the mutex. -/
  | enqueue (job : J)
  /-- `notify_one`, with the thread that it wakes up. -/
  | notifyOne (i : Option ℕ)
  /-- `wait` returns without a notification. -/
  | wakeUp (i : ℕ)
  /-- A worker takes the mutex, and keeps it until it has a job, waits or returns. -/
  | lock (i : ℕ)
  /-- A job returns. -/
  | finish (i : ℕ)
  /-- The part of the destructor under the mutex. -/
  | stop
  /-- `notify_all`. -/
  | notifyAll

variable {J : Type}

/-- The constructor: at least one thread, and all of them awake. -/
def Pool.start (count : ℕ) : Pool J := { workers := List.replicate (max 1 count) .ready }

/-- What a thread contributes to a number of threads. -/
def Phase.isWaiting : Phase J → ℕ
  | .waiting => 1
  | _ => 0

/-- Threads that are counted as sleeping, although they have been woken up. -/
def Phase.isWoken : Phase J → ℕ
  | .woken => 1
  | _ => 0

/-- Threads that call a job. -/
def Phase.isRunning : Phase J → ℕ
  | .running _ => 1
  | _ => 0

/-- Threads that run, or have been notified. -/
def Phase.isAwake : Phase J → ℕ
  | .ready => 1
  | .running _ => 1
  | .woken => 1
  | _ => 0

/-- Threads that have returned. -/
def Phase.isExited : Phase J → ℕ
  | .exited => 1
  | _ => 0

/-- The job that a thread calls. -/
def Phase.job : Phase J → Option J
  | .running job => some job
  | _ => none

/-- `notify_all` for one thread. -/
def Phase.wake : Phase J → Phase J
  | .waiting => .woken
  | phase => phase

/-- A worker that has the mutex: it takes a job, returns, or waits. -/
def Pool.search (s : Pool J) (i : ℕ) : Pool J :=
  match s.queue with
  | job :: queue =>
    { s with
      queue := queue
      workers := s.workers.set i (.running job)
      taken := s.taken ++ [job] }
  | [] =>
    if s.stopping then { s with workers := s.workers.set i .exited }
    else { s with workers := s.workers.set i .waiting, sleeping := s.sleeping + 1 }

/-- One step.  Once the destructor has begun, only running jobs may enqueue; and `notify_one` wakes
some thread up if any waits. -/
def Pool.next (s : Pool J) : Action J → Option (Pool J)
  | .enqueue job =>
    if s.stopping = true ∧ tally Phase.isRunning s.workers = 0 then none
    else
      some { s with
        queue := s.queue ++ [job]
        notifiers := if s.sleeping ≠ 0 then s.notifiers + 1 else s.notifiers
        pushed := s.pushed ++ [job] }
  | .notifyOne none =>
    if 0 < s.notifiers ∧ tally Phase.isWaiting s.workers = 0 then
      some { s with notifiers := s.notifiers - 1 }
    else none
  | .notifyOne (some i) =>
    match s.workers[i]? with
    | some .waiting =>
      if 0 < s.notifiers then
        some { s with notifiers := s.notifiers - 1, workers := s.workers.set i .woken }
      else none
    | _ => none
  | .wakeUp i =>
    match s.workers[i]? with
    | some .waiting => some { s with workers := s.workers.set i .woken }
    | _ => none
  | .lock i =>
    match s.workers[i]? with
    | some .ready => some (s.search i)
    | some .woken => some ({ s with sleeping := s.sleeping - 1 }.search i)
    | _ => none
  | .finish i =>
    match s.workers[i]? with
    | some (.running job) =>
      some { s with workers := s.workers.set i .ready, finished := s.finished ++ [job] }
    | _ => none
  | .stop =>
    if s.stopping then none
    else some { s with stopping := true, notifyingAll := true, beforeStop := s.pushed.length }
  | .notifyAll =>
    if s.notifyingAll then
      some { s with notifyingAll := false, workers := s.workers.map Phase.wake }
    else none

/-- The jobs that are being called. -/
def Pool.current (s : Pool J) : List J := s.workers.filterMap Phase.job

/-! ### What a step can do -/

variable {s t : Pool J} {i : ℕ}

/-- The steps of a worker that has the mutex.  This is the body of the worker loop from the end of
the wait on. -/
inductive Searched (s : Pool J) (i : ℕ) : Pool J → Prop where
  | took {job : J} {queue : List J} (hqueue : s.queue = job :: queue) :
    Searched s i
      { s with
        queue := queue
        workers := s.workers.set i (.running job)
        taken := s.taken ++ [job] }
  | returned (hqueue : s.queue = []) (hstop : s.stopping = true) :
    Searched s i { s with workers := s.workers.set i .exited }
  | waits (hqueue : s.queue = []) (hstop : s.stopping = false) :
    Searched s i { s with workers := s.workers.set i .waiting, sleeping := s.sleeping + 1 }

/-- A search does one of these. -/
lemma Pool.searched (s : Pool J) (i : ℕ) : Searched s i (s.search i) := by
  rw [Pool.search]
  split
  · rename_i job queue hqueue
    exact .took hqueue
  · rename_i hqueue
    split_ifs with hstop
    · exact .returned hqueue hstop
    · exact .waits hqueue (Bool.not_eq_true _ ▸ hstop)

/-! ### The invariant -/

/-- Every thread waits, is awake or has returned. -/
lemma length_workers (workers : List (Phase J)) :
    tally Phase.isWaiting workers + tally Phase.isAwake workers +
      tally Phase.isExited workers = workers.length := by
  induction workers with
  | nil => rfl
  | cons phase workers ih =>
    rw [tally_cons, tally_cons, tally_cons, List.length_cons, ← ih]
    cases phase <;> simp only [Phase.isWaiting, Phase.isAwake, Phase.isExited] <;> omega

/-- What holds between any two steps.  Jobs are taken in the order in which they were pushed, each
by one thread, and a queue with jobs has a thread that will look at it. -/
structure Pool.Inv (s : Pool J) : Prop where
  sleeping : s.sleeping = tally Phase.isWaiting s.workers + tally Phase.isWoken s.workers
  /-- A job that waits has a worker that is awake, or one that is about to be notified. -/
  awake : s.queue ≠ [] → 0 < tally Phase.isAwake s.workers ∨
    0 < s.notifiers ∧ 0 < tally Phase.isWaiting s.workers
  size : 0 < s.workers.length
  fifo : s.pushed = s.taken ++ s.queue
  once : s.taken ~ s.current ++ s.finished
  exited : 0 < tally Phase.isExited s.workers → s.stopping = true ∧ s.beforeStop ≤ s.taken.length
  closing : s.stopping = true → s.notifyingAll = true ∨ tally Phase.isWaiting s.workers = 0
  before : s.beforeStop ≤ s.pushed.length

/-- The constructor starts threads that are awake. -/
lemma Pool.inv_start (count : ℕ) : (Pool.start count : Pool J).Inv where
  sleeping := by
    rw [Pool.start, tally_replicate, tally_replicate]
    rfl
  awake := fun h => absurd rfl h
  size := by
    rw [Pool.start, List.length_replicate]
    exact Nat.lt_of_lt_of_le Nat.one_pos (Nat.le_max_left _ _)
  fifo := rfl
  once := by
    rw [Pool.current, Pool.start, List.filterMap_replicate_of_none rfl]
    exact .refl _
  exited := by
    rw [Pool.start, tally_replicate]
    exact fun h => absurd h (Nat.lt_irrefl _)
  closing := fun h => nomatch h
  before := Nat.le_refl _

/-- A job that enters the queue.  Without a notification nobody sleeps. -/
lemma Pool.Inv.enqueue (h : s.Inv) {job : J} (hnext : s.next (.enqueue job) = some t) : t.Inv := by
  rw [Pool.next] at hnext
  by_cases hlate : s.stopping = true ∧ tally Phase.isRunning s.workers = 0
  · rw [if_pos hlate] at hnext
    cases hnext
  rw [if_neg hlate] at hnext
  cases hnext
  have hlength := length_workers s.workers
  have hsleeping := h.sleeping
  have hrunning : tally Phase.isRunning s.workers ≤ tally Phase.isAwake s.workers :=
    tally_le_tally (fun phase => by cases phase <;> simp [Phase.isRunning, Phase.isAwake]) _
  have hwoken : tally Phase.isWoken s.workers ≤ tally Phase.isAwake s.workers :=
    tally_le_tally (fun phase => by cases phase <;> simp [Phase.isWoken, Phase.isAwake]) _
  refine ⟨h.sleeping, fun _ => ?_, h.size, ?_, h.once, h.exited, h.closing, ?_⟩
  · dsimp only
    by_cases hzero : s.sleeping = 0
    · left
      by_cases hstop : s.stopping = true
      · have : tally Phase.isRunning s.workers ≠ 0 := fun hrun => hlate ⟨hstop, hrun⟩
        omega
      · have hexited : ¬ 0 < tally Phase.isExited s.workers := fun hex => hstop (h.exited hex).1
        have := h.size
        omega
    · rw [if_pos hzero]
      by_cases hawake : 0 < tally Phase.isAwake s.workers
      · exact .inl hawake
      · exact .inr ⟨Nat.succ_pos _, by omega⟩
  · dsimp only
    rw [h.fifo, List.append_assoc]
  · dsimp only
    rw [List.length_append]
    exact Nat.le_add_right_of_le h.before

/-- How the numbers of threads change when one of them goes on. -/
lemma tally_workers {workers : List (Phase J)} {x : Phase J} (hi : workers[i]? = some x)
    (y : Phase J) :
    tally Phase.isWaiting (workers.set i y) + x.isWaiting =
        tally Phase.isWaiting workers + y.isWaiting ∧
      tally Phase.isWoken (workers.set i y) + x.isWoken =
        tally Phase.isWoken workers + y.isWoken ∧
      tally Phase.isAwake (workers.set i y) + x.isAwake =
        tally Phase.isAwake workers + y.isAwake ∧
      tally Phase.isExited (workers.set i y) + x.isExited =
        tally Phase.isExited workers + y.isExited :=
  ⟨tally_set _ hi y, tally_set _ hi y, tally_set _ hi y, tally_set _ hi y⟩

/-- A thread without a job goes on without one. -/
lemma perm_of_job_eq_none {workers : List (Phase J)} {x y : Phase J} (hi : workers[i]? = some x)
    (hx : x.job = none) (hy : y.job = none) :
    (workers.set i y).filterMap Phase.job ~ workers.filterMap Phase.job := by
  have := perm_filterMap_set Phase.job hi y
  rwa [hx, hy, Option.toList_none, List.append_nil, List.append_nil] at this

/-- A thread goes on and is awake then.  It is still counted as sleeping if it was. -/
lemma Pool.Inv.move (h : s.Inv) {x y : Phase J} (hi : s.workers[i]? = some x)
    (hy : y.isAwake = 1 ∧ y.isWaiting = 0 ∧ y.isExited = 0) {sleeping notifiers : ℕ}
    {finished : List J}
    (hsleeping : sleeping + (x.isWaiting + x.isWoken) = s.sleeping + y.isWoken)
    (honce : s.current ++ s.finished ~ (s.workers.set i y).filterMap Phase.job ++ finished) :
    { s with
      sleeping := sleeping
      workers := s.workers.set i y
      notifiers := notifiers
      finished := finished }.Inv := by
  obtain ⟨hwaiting, hwoken, hawake, hexited⟩ := tally_workers hi y
  rw [hy.1] at hawake
  rw [hy.2.1] at hwaiting
  rw [hy.2.2] at hexited
  have hone : x.isAwake ≤ tally Phase.isAwake s.workers := le_tally hi
  refine ⟨?_, fun _ => .inl ?_, ?_, h.fifo, h.once.trans honce, fun hex => ?_, fun hstop => ?_,
    h.before⟩
  · have := h.sleeping
    dsimp only
    omega
  · dsimp only
    omega
  · dsimp only
    rw [List.length_set]
    exact h.size
  · exact h.exited (by dsimp only at hex; omega)
  · exact (h.closing hstop).imp id fun hzero => by dsimp only; omega

/-- A thread that is woken up, with or without a notification. -/
lemma Pool.Inv.woken (h : s.Inv) (hi : s.workers[i]? = some .waiting) (notifiers : ℕ) :
    { s with notifiers := notifiers, workers := s.workers.set i .woken }.Inv :=
  h.move hi ⟨rfl, rfl, rfl⟩ rfl ((perm_of_job_eq_none hi rfl rfl).symm.append_right _)

/-- A thread that has been woken up has the mutex again. -/
lemma Pool.Inv.left (h : s.Inv) (hi : s.workers[i]? = some .woken) :
    { s with sleeping := s.sleeping - 1, workers := s.workers.set i .ready }.Inv := by
  have hone : Phase.isWoken .woken ≤ tally Phase.isWoken s.workers := le_tally hi
  have hcounted := h.sleeping
  have hsleeping : s.sleeping - 1 + 1 = s.sleeping := by
    simp only [Phase.isWoken] at hone
    omega
  exact h.move hi ⟨rfl, rfl, rfl⟩ hsleeping ((perm_of_job_eq_none hi rfl rfl).symm.append_right _)

/-- A job that returns. -/
lemma Pool.Inv.finish (h : s.Inv) {job : J} (hi : s.workers[i]? = some (.running job)) :
    { s with workers := s.workers.set i .ready, finished := s.finished ++ [job] }.Inv := by
  have hcurrent : (s.workers.set i .ready).filterMap Phase.job ++ [job] ~ s.current := by
    simpa [Phase.job, Pool.current] using perm_filterMap_set Phase.job hi .ready
  have honce : s.current ++ s.finished ~
      (s.workers.set i .ready).filterMap Phase.job ++ (s.finished ++ [job]) :=
    calc s.current ++ s.finished
      _ ~ (s.workers.set i .ready).filterMap Phase.job ++ [job] ++ s.finished :=
        hcurrent.symm.append_right _
      _ = (s.workers.set i .ready).filterMap Phase.job ++ ([job] ++ s.finished) :=
        List.append_assoc _ _ _
      _ ~ (s.workers.set i .ready).filterMap Phase.job ++ (s.finished ++ [job]) :=
        List.perm_append_comm.append_left _
  exact h.move hi ⟨rfl, rfl, rfl⟩ rfl honce

/-- A search of a thread that runs. -/
lemma Pool.Inv.search (h : s.Inv) (hi : s.workers[i]? = some .ready) : (s.search i).Inv := by
  have hsize : ∀ y, 0 < (s.workers.set i y).length := fun y => by
    rw [List.length_set]
    exact h.size
  have hsleeping := h.sleeping
  generalize hs : s.search i = t
  -- by what the search comes to: a job, the end of the thread, or sleep
  cases hs ▸ s.searched i with
  | @took job queue hqueue =>
    obtain ⟨hwaiting, hwoken, hawake, hexited⟩ := tally_workers hi (.running job)
    have hone : Phase.isAwake .ready ≤ tally Phase.isAwake s.workers := le_tally hi
    simp only [Phase.isWaiting, Phase.isWoken, Phase.isAwake,
      Phase.isExited] at hwaiting hwoken hawake hexited hone
    refine ⟨?_, fun _ => .inl ?_, hsize _, ?_, ?_, fun hex => ?_, fun hstop => ?_, h.before⟩
    · dsimp only
      omega
    · dsimp only
      omega
    · dsimp only
      rw [h.fifo, hqueue, List.append_assoc, List.singleton_append]
    · have hcurrent :
          (s.workers.set i (.running job)).filterMap Phase.job ~ s.current ++ [job] := by
        simpa [Phase.job, Pool.current] using perm_filterMap_set Phase.job hi (.running job)
      -- the job moves from the queue to the thread, once
      calc s.taken ++ [job]
        _ ~ s.current ++ s.finished ++ [job] := h.once.append_right _
        _ = s.current ++ (s.finished ++ [job]) := List.append_assoc _ _ _
        _ ~ s.current ++ ([job] ++ s.finished) := List.perm_append_comm.append_left _
        _ = s.current ++ [job] ++ s.finished := (List.append_assoc _ _ _).symm
        _ ~ (s.workers.set i (.running job)).filterMap Phase.job ++ s.finished :=
          hcurrent.symm.append_right _
    · obtain ⟨hstop, hbefore⟩ := h.exited (by dsimp only at hex; omega)
      refine ⟨hstop, ?_⟩
      dsimp only
      rw [List.length_append]
      exact Nat.le_add_right_of_le hbefore
    · exact (h.closing hstop).imp id fun hzero => by dsimp only; omega
  | returned hqueue hstop =>
    obtain ⟨hwaiting, hwoken, hawake, hexited⟩ := tally_workers hi .exited
    simp only [Phase.isWaiting, Phase.isWoken, Phase.isAwake,
      Phase.isExited] at hwaiting hwoken hawake hexited
    refine ⟨?_, fun hne => absurd hqueue hne, hsize _, h.fifo, ?_, fun _ => ⟨hstop, ?_⟩,
      fun _ => ?_, h.before⟩
    · dsimp only
      omega
    · exact h.once.trans ((perm_of_job_eq_none hi rfl rfl).symm.append_right _)
    · have := h.before
      rwa [h.fifo, hqueue, List.append_nil] at this
    · exact (h.closing hstop).imp id fun hzero => by dsimp only; omega
  | waits hqueue hstop =>
    obtain ⟨hwaiting, hwoken, hawake, hexited⟩ := tally_workers hi .waiting
    simp only [Phase.isWaiting, Phase.isWoken, Phase.isAwake,
      Phase.isExited] at hwaiting hwoken hawake hexited
    refine ⟨?_, fun hne => absurd hqueue hne, hsize _, h.fifo, ?_, fun hex => ?_,
      fun hstop' => ?_, h.before⟩
    · dsimp only
      omega
    · exact h.once.trans ((perm_of_job_eq_none hi rfl rfl).symm.append_right _)
    · exact h.exited (by dsimp only at hex; omega)
    · exact absurd (hstop.symm.trans hstop') Bool.false_ne_true

/-- How `notify_all` changes the numbers of threads. -/
lemma tally_wake (workers : List (Phase J)) :
    tally Phase.isWaiting (workers.map Phase.wake) = 0 ∧
      tally Phase.isWoken (workers.map Phase.wake) =
        tally Phase.isWaiting workers + tally Phase.isWoken workers ∧
      tally Phase.isAwake (workers.map Phase.wake) =
        tally Phase.isWaiting workers + tally Phase.isAwake workers ∧
      tally Phase.isExited (workers.map Phase.wake) = tally Phase.isExited workers ∧
      (workers.map Phase.wake).filterMap Phase.job = workers.filterMap Phase.job := by
  induction workers with
  | nil => exact ⟨rfl, rfl, rfl, rfl, rfl⟩
  | cons phase workers ih =>
    obtain ⟨hwaiting, hwoken, hawake, hexited, hjob⟩ := ih
    refine ⟨?_, ?_, ?_, ?_, ?_⟩
    · rw [List.map_cons, tally_cons, hwaiting]
      cases phase <;> rfl
    · rw [List.map_cons, tally_cons, tally_cons, tally_cons, hwoken]
      cases phase <;> simp only [Phase.wake, Phase.isWaiting, Phase.isWoken] <;> omega
    · rw [List.map_cons, tally_cons, tally_cons, tally_cons, hawake]
      cases phase <;> simp only [Phase.wake, Phase.isWaiting, Phase.isAwake] <;> omega
    · rw [List.map_cons, tally_cons, tally_cons, hexited]
      cases phase <;> rfl
    · rw [List.map_cons, List.filterMap_cons, List.filterMap_cons, hjob]
      cases phase <;> rfl

/-- All threads that wait are woken up. -/
lemma Pool.Inv.notifyAll (h : s.Inv) :
    { s with notifyingAll := false, workers := s.workers.map Phase.wake }.Inv := by
  obtain ⟨hwaiting, hwoken, hawake, hexited, hjob⟩ := tally_wake s.workers
  refine ⟨?_, fun hne => .inl ?_, ?_, h.fifo, ?_, fun hex => ?_, fun _ => .inr hwaiting, h.before⟩
  · have := h.sleeping
    dsimp only
    omega
  · have := h.awake hne
    dsimp only
    omega
  · dsimp only
    rw [List.length_map]
    exact h.size
  · dsimp only [Pool.current]
    rw [hjob]
    exact h.once
  · exact h.exited (by dsimp only at hex; omega)

/-- **The invariant.**  Every step preserves it. -/
theorem Pool.Inv.next (h : s.Inv) {a : Action J} (hnext : s.next a = some t) : t.Inv := by
  cases a with
  | enqueue job => exact h.enqueue hnext
  | notifyOne target =>
    cases target with
    -- a notification without a sleeper is lost, which is no harm: a worker is awake
    | none =>
      rw [Pool.next] at hnext
      split_ifs at hnext with hnone
      cases hnext
      refine ⟨h.sleeping, fun hne => .inl ?_, h.size, h.fifo, h.once, h.exited, h.closing, h.before⟩
      have := h.awake hne
      dsimp only
      omega
    | some i =>
      rw [Pool.next] at hnext
      split at hnext
      · rename_i hi
        split_ifs at hnext
        cases hnext
        exact h.woken hi _
      · cases hnext
  | wakeUp i =>
    rw [Pool.next] at hnext
    split at hnext
    · rename_i hi
      cases hnext
      exact h.woken hi _
    · cases hnext
  | lock i =>
    rw [Pool.next] at hnext
    split at hnext
    · rename_i hi
      cases hnext
      exact h.search hi
    · rename_i hi
      cases hnext
      -- a worker that was woken searches the queue as one that never slept
      have hready : (s.workers.set i .ready)[i]? = some .ready := by
        rw [List.getElem?_set_self (List.getElem?_eq_some_iff.mp hi).1]
      have hsearch : ({ s with sleeping := s.sleeping - 1 } : Pool J).search i =
          { s with sleeping := s.sleeping - 1, workers := s.workers.set i .ready }.search i := by
        rw [Pool.search, Pool.search]
        dsimp only
        simp only [List.set_set]
      rw [hsearch]
      exact (h.left hi).search hready
    · cases hnext
  | finish i =>
    rw [Pool.next] at hnext
    split at hnext
    · rename_i job hi
      cases hnext
      exact h.finish hi
    · cases hnext
  | stop =>
    rw [Pool.next] at hnext
    split_ifs at hnext with hstop
    cases hnext
    refine ⟨h.sleeping, h.awake, h.size, h.fifo, h.once, fun hex => ?_, fun _ => .inl rfl, le_rfl⟩
    exact absurd (h.exited hex).1 hstop
  | notifyAll =>
    rw [Pool.next] at hnext
    split_ifs at hnext
    cases hnext
    exact h.notifyAll

/-! ### Progress -/

/-- The steps of the workers, and the notifications that are due.  They need no job from outside, so
the pool must come to rest through them. -/
def Action.isOwn : Action J → Prop
  | .notifyOne _ | .lock _ | .finish _ | .notifyAll => True
  | _ => False

/-- How many steps a thread has before it, without the jobs that it takes. -/
def Phase.weight : Phase J → ℕ
  | .ready => 1
  | .running _ => 2
  | .woken => 1
  | _ => 0

/-- A bound on the number of steps that are left.  It goes down with each step that is the pool's
own. -/
def Pool.bound (s : Pool J) : ℕ :=
  2 * s.queue.length + tally Phase.weight s.workers + 2 * s.notifiers +
    if s.notifyingAll then s.workers.length + 1 else 0

/-- A search brings the end nearer. -/
lemma Pool.bound_search {x : Phase J} (hi : s.workers[i]? = some x) (hx : x.weight = 1) :
    (s.search i).bound < s.bound := by
  generalize hs : s.search i = t
  cases hs ▸ s.searched i with
  | @took job queue hqueue =>
    have hweight := tally_set Phase.weight hi (.running job)
    rw [hx] at hweight
    simp only [Pool.bound, hqueue, List.length_cons, List.length_set]
    simp only [Phase.weight] at hweight
    omega
  | returned =>
    have hweight := tally_set Phase.weight hi .exited
    rw [hx] at hweight
    simp only [Pool.bound, List.length_set]
    simp only [Phase.weight] at hweight
    omega
  | waits =>
    have hweight := tally_set Phase.weight hi .waiting
    rw [hx] at hweight
    simp only [Pool.bound, List.length_set]
    simp only [Phase.weight] at hweight
    omega

/-- `notify_all` gives each thread at most one step more. -/
lemma tally_weight_wake (workers : List (Phase J)) :
    tally Phase.weight (workers.map Phase.wake) ≤ tally Phase.weight workers + workers.length := by
  induction workers with
  | nil => exact Nat.le_refl _
  | cons phase workers ih =>
    rw [List.map_cons, tally_cons, tally_cons, List.length_cons]
    have hphase : phase.wake.weight ≤ phase.weight + 1 := by
      cases phase <;> simp only [Phase.wake, Phase.weight] <;> omega
    omega

/-- Every step of a worker and every notification brings the end nearer. -/
lemma Pool.bound_next {a : Action J} (hown : a.isOwn) (hnext : s.next a = some t) :
    t.bound < s.bound := by
  cases a with
  | enqueue | wakeUp | stop => exact hown.elim
  | notifyOne target =>
    cases target with
    | none =>
      rw [Pool.next] at hnext
      split_ifs at hnext with hnone
      cases hnext
      have := hnone.1
      simp only [Pool.bound]
      omega
    | some i =>
      rw [Pool.next] at hnext
      split at hnext
      · rename_i hi
        split_ifs at hnext with hpos
        cases hnext
        have hweight := tally_set Phase.weight hi .woken
        simp only [Phase.weight] at hweight
        simp only [Pool.bound, List.length_set]
        omega
      · cases hnext
  | lock i =>
    rw [Pool.next] at hnext
    split at hnext
    · rename_i hi
      cases hnext
      exact Pool.bound_search hi rfl
    · rename_i hi
      cases hnext
      exact Pool.bound_search hi rfl
    · cases hnext
  | finish i =>
    rw [Pool.next] at hnext
    split at hnext
    · rename_i job hi
      cases hnext
      have hweight := tally_set Phase.weight hi .ready
      simp only [Phase.weight] at hweight
      simp only [Pool.bound, List.length_set]
      omega
    · cases hnext
  | notifyAll =>
    rw [Pool.next] at hnext
    split_ifs at hnext with hall
    cases hnext
    have hweight := tally_weight_wake s.workers
    simp only [Pool.bound, hall, if_true, List.length_map, Bool.false_eq_true, if_false]
    omega

/-- So there are only so many of them. -/
lemma length_le_bound {trace : List (Pool J × Action J)} (h : Run Pool.next s trace t)
    (hown : ∀ v ∈ trace, v.2.isOwn) : trace.length + t.bound ≤ s.bound := by
  induction h with
  | start => exact (Nat.zero_add _).le
  | @step trace t u a hrun hnext ih =>
    rw [List.forall_mem_append] at hown
    have hlt := Pool.bound_next (hown.2 (t, a) (List.mem_singleton_self _)) hnext
    have := ih hown.1
    rw [List.length_append, List.length_singleton]
    omega

/-- Threads that neither are awake nor wait have returned, and call nothing. -/
lemma current_of_not_awake (h : tally Phase.isAwake s.workers = 0) : s.current = [] := by
  rw [Pool.current, List.filterMap_eq_nil_iff]
  intro phase hphase
  obtain ⟨i, hi⟩ := List.getElem?_of_mem hphase
  have : phase.isAwake ≤ tally Phase.isAwake s.workers := le_tally hi
  cases phase with
  | running job =>
    rw [h] at this
    exact absurd this (Nat.not_succ_le_zero 0)
  | ready | waiting | woken | exited => rfl

/-- Without a thread that is awake or waits, nothing is left to do. -/
lemma Pool.Inv.done (h : s.Inv) (hawake : tally Phase.isAwake s.workers = 0)
    (hidle : s.notifiers = 0 ∨ tally Phase.isWaiting s.workers = 0) :
    s.queue = [] ∧ s.finished ~ s.pushed := by
  have hqueue : s.queue = [] := by
    by_contra hne
    have := h.awake hne
    omega
  refine ⟨hqueue, ?_⟩
  rw [h.fifo, hqueue, List.append_nil]
  have honce := h.once
  rw [current_of_not_awake hawake, List.nil_append] at honce
  exact honce.symm

/-- Where no worker can take a step and no notification is due, all jobs have been run; and if the
destructor has begun, all workers have returned. -/
lemma Pool.Inv.stuck (h : s.Inv) (hstuck : ∀ a : Action J, a.isOwn → s.next a = none) :
    s.queue = [] ∧ s.finished ~ s.pushed ∧
      (s.stopping = true → ∀ phase ∈ s.workers, phase = .exited) := by
  have hnot : ∀ {x : Phase J} {i : ℕ}, s.workers[i]? = some x → x.isAwake = 0 := by
    intro x i hi
    cases x with
    | ready =>
      have := hstuck (.lock i) trivial
      rw [Pool.next, hi] at this
      cases this
    | running job =>
      have := hstuck (.finish i) trivial
      rw [Pool.next, hi] at this
      cases this
    | woken =>
      have := hstuck (.lock i) trivial
      rw [Pool.next, hi] at this
      cases this
    | waiting | exited => rfl
  have hawake : tally Phase.isAwake s.workers = 0 := by
    by_contra hne
    obtain ⟨i, x, hi, hpos⟩ := exists_of_tally_pos (Nat.pos_of_ne_zero hne)
    exact absurd (hnot hi) hpos.ne'
  have hnotifiers : s.notifiers = 0 ∨ tally Phase.isWaiting s.workers = 0 := by
    by_contra hne
    obtain ⟨hnotifiers, hwaiting⟩ := not_or.mp hne
    obtain ⟨i, x, hi, hpos⟩ := exists_of_tally_pos (Nat.pos_of_ne_zero hwaiting)
    cases x with
    | waiting =>
      have := hstuck (.notifyOne (some i)) trivial
      rw [Pool.next, hi] at this
      dsimp only at this
      rw [if_pos (Nat.pos_of_ne_zero hnotifiers)] at this
      cases this
    | ready | running | woken | exited => exact absurd hpos (Nat.lt_irrefl _)
  obtain ⟨hqueue, hfinished⟩ := h.done hawake hnotifiers
  refine ⟨hqueue, hfinished, fun hstop phase hphase => ?_⟩
  have hall : s.notifyingAll ≠ true := by
    intro hall
    have := hstuck .notifyAll trivial
    rw [Pool.next, if_pos hall] at this
    cases this
  obtain ⟨i, hi⟩ := List.getElem?_of_mem hphase
  have hwaiting : phase.isWaiting ≤ tally Phase.isWaiting s.workers := le_tally hi
  rw [(h.closing hstop).resolve_left hall] at hwaiting
  have hnone := hnot hi
  cases phase with
  | waiting => exact absurd hwaiting (Nat.not_succ_le_zero 0)
  | ready | running | woken => exact absurd hnone Nat.one_ne_zero
  | exited => rfl

/-- For any number of workers, in every state that is reached: the jobs leave the queue in the order
in which they entered it, and each one that has left it is being called or has been called, once;
while there is a job in the queue and no `enqueue` is about to notify, some worker runs or has been
notified; when a worker has returned, the jobs queued before the destructor have all been taken, and
when all have, every job has been called.  The workers and the notifications that are due take
finitely many steps, and where these end all jobs have been called. -/
theorem workerPool_sound {count : ℕ} {trace : List (Pool J × Action J)}
    (h : Run Pool.next (Pool.start count) trace s) :
    s.pushed = s.taken ++ s.queue ∧ s.taken ~ s.current ++ s.finished ∧
      (s.queue ≠ [] → s.notifiers = 0 →
        ∃ phase ∈ s.workers, phase = .ready ∨ (∃ job, phase = .running job) ∨ phase = .woken) ∧
      (.exited ∈ s.workers → s.stopping = true ∧ s.pushed.take s.beforeStop <+: s.taken) ∧
      ((∀ phase ∈ s.workers, phase = .exited) → s.queue = [] ∧ s.finished ~ s.pushed) ∧
      (∀ (steps : List (Pool J × Action J)) t, Run Pool.next s steps t →
        (∀ v ∈ steps, v.2.isOwn) → steps.length ≤ s.bound) ∧
      ((∀ a : Action J, a.isOwn → s.next a = none) →
        s.queue = [] ∧ s.finished ~ s.pushed ∧
          (s.stopping = true → ∀ phase ∈ s.workers, phase = .exited)) := by
  have hinv : s.Inv := h.invariant (fun _ _ _ hs hnext => hs.next hnext) (Pool.inv_start count)
  refine ⟨hinv.fifo, hinv.once, fun hqueue hnone => ?_, fun hexited => ?_, fun hall => ?_,
    fun steps t hrun hown => ?_, fun hstuck => ?_⟩
  · have hpos : 0 < tally Phase.isAwake s.workers := by
      have := hinv.awake hqueue
      omega
    obtain ⟨i, phase, hi, hphase⟩ := exists_of_tally_pos hpos
    refine ⟨phase, List.mem_of_getElem? hi, ?_⟩
    cases phase with
    | ready => exact .inl rfl
    | running job => exact .inr (.inl ⟨job, rfl⟩)
    | woken => exact .inr (.inr rfl)
    | waiting | exited => exact absurd hphase (Nat.lt_irrefl _)
  · obtain ⟨i, hi⟩ := List.getElem?_of_mem hexited
    have hone : Phase.isExited (.exited : Phase J) ≤ tally Phase.isExited s.workers := le_tally hi
    obtain ⟨hstop, hbefore⟩ := hinv.exited hone
    refine ⟨hstop, ?_⟩
    rw [hinv.fifo, List.take_append_of_le_length hbefore]
    exact List.take_prefix _ _
  · have hzero : ∀ f : Phase J → ℕ, f .exited = 0 → tally f s.workers = 0 := by
      intro f hf
      by_contra hne
      obtain ⟨i, phase, hi, hpos⟩ := exists_of_tally_pos (Nat.pos_of_ne_zero hne)
      rw [hall phase (List.mem_of_getElem? hi), hf] at hpos
      exact absurd hpos (Nat.lt_irrefl _)
    exact hinv.done (hzero _ rfl) (.inr (hzero _ rfl))
  · exact (Nat.le_add_right _ _).trans (length_le_bound hrun hown)
  · exact hinv.stuck hstuck

/-- Two workers and a job: the one that is notified runs it, and both return. -/
theorem workerPool_sound_of_job :
    ∃ (trace : List (Pool ℕ × Action ℕ)) (s : Pool ℕ), Run Pool.next (Pool.start 2) trace s ∧
      s.workers = [.exited, .exited] ∧ s.queue = [] ∧ s.finished ~ s.pushed ∧ s.pushed = [7] := by
  obtain ⟨s, hs, hworkers, hpushed⟩ : ∃ s : Pool ℕ,
      perform Pool.next (Pool.start 2) [.lock 0, .lock 1, .enqueue 7, .notifyOne (some 1),
        .lock 1, .finish 1, .stop, .lock 1, .notifyAll, .lock 0] = some s ∧
      s.workers = [.exited, .exited] ∧ s.pushed = [7] :=
    ⟨_, rfl, rfl, rfl⟩
  obtain ⟨trace, hrun⟩ := run_of_perform hs
  have hall : ∀ phase ∈ s.workers, phase = .exited := by
    rw [hworkers]
    simp
  obtain ⟨hqueue, hfinished⟩ := (workerPool_sound hrun).2.2.2.2.1 hall
  exact ⟨trace, s, hrun, hworkers, hqueue, hfinished, hpushed⟩

end WorkerPool

end Chhttp
