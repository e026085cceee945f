import Chhttp.Lib.Run

/-!
# The state of a task

`TaskState` is shared by a running coroutine, the producer, and by the consumer of its result.  The
word `handoff` says who waits for the result, and `references` counts the parties that keep the
frame alive.  `TaskState.next` interleaves the atomic steps of the two: the producer stores its
result, publishes it and drops its reference at the final suspension point; the consumer polls,
blocks in `get`, awaits, or abandons its `Task` or `Awaiter`.
-/

namespace Chhttp

open Transition

/-- The values of `handoff`: the three sentinels, or the address of a continuation.  The word is
atomic, and everything the parties agree on goes through it. -/
inductive Word where
  | unclaimed | completed | parked | address
  deriving DecidableEq

/-- Who holds the mutex of the block.  The mutex is only there to make the condition variable safe.
-/
inductive Party where
  | producer | consumer
  deriving DecidableEq

/-- Where the coroutine is.  What it does behind `publish` depends on the word that it found there.
-/
inductive ProducerPhase where
  | running
  | stored
  /-- In `publish`, with the word it has replaced. -/
  | published (previous : Word)
  /-- It has locked the mutex. -/
  | notifying
  | unlocking
  | releasing
  /-- It has dropped the last reference. -/
  | last
  | finished
  deriving DecidableEq

/-- Where the consumer is.  There are two ways to get the result: `wait` blocks its thread, and
awaiting suspends a coroutine. -/
inductive ConsumerPhase where
  /-- It has the `Task`. -/
  | holding
  /-- In `wait`, about to read `handoff`. -/
  | loading
  /-- In the loop of `wait`, with the word it has read. -/
  | testing (current : Word)
  /-- The block exists, and `parked` is about to be stored. -/
  | announcing
  | locking
  /-- It has locked the mutex and tests the predicate. -/
  | checking
  | sleeping
  /-- The predicate holds, and the mutex is still locked. -/
  | leaving
  /-- It has the `Awaiter`. -/
  | awaiting
  /-- In the loop of `suspend`. -/
  | registering
  | suspended
  /-- About to take the result. -/
  | collecting
  | releasing
  /-- It has dropped the last reference. -/
  | last
  | finished
  deriving DecidableEq

/-- `TaskState`, the phases of the two parties, and how often the consumer has suspended, how often
a continuation was resumed and how often the frame was destroyed. -/
structure TaskState where
  handoff : Word := .unclaimed
  references : ℕ := 2
  value : Bool := false
  block : Bool := false
  mutex : Option Party := none
  producer : ProducerPhase := .running
  consumer : ConsumerPhase := .holding
  suspensions : ℕ := 0
  resumptions : ℕ := 0
  destroyed : ℕ := 0

/-- The steps of the producer.  Each is one atomic access or one call of the library. -/
inductive ProducerStep where
  | store | publish | resume | skip | lock | notify | unlock | drop | destroy
  deriving DecidableEq

/-- The steps of the consumer.  `wake` may also be spurious, and `abandon` destroys an awaiter
before it is resumed. -/
inductive ConsumerStep where
  | poll | get | load | test | announce | lock | check | wake | unlock
  | await | ready | suspend | collect | abandon | drop | destroy
  deriving DecidableEq

/-- The steps of a task. -/
inductive TaskStep where
  | producer (step : ProducerStep)
  | consumer (step : ConsumerStep)
  deriving DecidableEq

namespace TaskState

/-- `done`. -/
def done (s : TaskState) : Bool := decide (s.handoff = .completed)

/-- The result has been published. -/
lemma done_iff {s : TaskState} : s.done = true ↔ s.handoff = .completed := decide_eq_true_iff

/-- The steps of the producer: the end of the coroutine, `publish` and `release_task_state`. -/
def produce (s : TaskState) : ProducerPhase → ProducerStep → Option TaskState
  | .running, .store => some { s with value := true, producer := .stored }
  | .stored, .publish => some { s with handoff := .completed, producer := .published s.handoff }
  | .published .address, .resume =>
    some {
      s with
      producer := .releasing
      resumptions := s.resumptions + 1
      consumer := if s.consumer = .suspended then .collecting else s.consumer }
  | .published .unclaimed, .skip => some { s with producer := .releasing }
  | .published .completed, .skip => some { s with producer := .releasing }
  | .published .parked, .lock =>
    if s.mutex = none then some { s with mutex := some .producer, producer := .notifying } else none
  | .notifying, .notify =>
    some {
      s with
      producer := .unlocking
      consumer := if s.consumer = .sleeping then .locking else s.consumer }
  | .unlocking, .unlock => some { s with mutex := none, producer := .releasing }
  | .releasing, .drop =>
    some {
      s with
      references := s.references - 1
      producer := if s.references = 1 then .last else .finished }
  | .last, .destroy =>
    some { s with destroyed := s.destroyed + s.done.toNat, producer := .finished }
  | _, _ => none

/-- The steps of the consumer: `ready`, `wait`, the `Awaiter` and `release_task_state`. -/
def consume (s : TaskState) : ConsumerPhase → ConsumerStep → Option TaskState
  | .holding, .poll => some s
  | .holding, .get => some { s with consumer := .loading }
  | .loading, .load => some { s with consumer := .testing s.handoff }
  | .testing .completed, .test => some { s with consumer := .collecting }
  | .testing .unclaimed, .test => some { s with block := true, consumer := .announcing }
  | .testing .parked, .test => some { s with consumer := .locking }
  | .testing .address, .test => some { s with consumer := .loading }
  | .announcing, .announce =>
    -- the local copy of the word is set only where the exchange fails
    if s.handoff = .unclaimed then some { s with handoff := .parked, consumer := .testing .unclaimed }
    else some { s with consumer := .testing s.handoff }
  | .locking, .lock =>
    if s.mutex = none then some { s with mutex := some .consumer, consumer := .checking } else none
  | .checking, .check =>
    if s.done then some { s with consumer := .leaving }
    else some { s with mutex := none, consumer := .sleeping }
  | .sleeping, .wake => some { s with consumer := .locking }
  | .leaving, .unlock => some { s with mutex := none, consumer := .collecting }
  | .holding, .await => some { s with consumer := .awaiting }
  | .awaiting, .ready =>
    some { s with consumer := if s.done then .collecting else .registering }
  | .registering, .suspend =>
    if s.handoff = .unclaimed then
      some {
        s with handoff := .address, consumer := .suspended, suspensions := s.suspensions + 1 }
    else if s.handoff = .completed then some { s with consumer := .collecting }
    else some s
  | .collecting, .collect => some { s with consumer := .releasing }
  | .holding, .abandon => some { s with consumer := .releasing }
  | .awaiting, .abandon => some { s with consumer := .releasing }
  | .suspended, .abandon => some { s with consumer := .releasing }
  | .releasing, .drop =>
    some {
      s with
      references := s.references - 1
      consumer := if s.references = 1 then .last else .finished }
  | .last, .destroy =>
    some { s with destroyed := s.destroyed + s.done.toNat, consumer := .finished }
  | _, _ => none

/-- The steps of a task. -/
def next (s : TaskState) : TaskStep → Option TaskState
  | .producer step => s.produce s.producer step
  | .consumer step => s.consume s.consumer step

/-! ### What a step does -/

/-- The steps of the producer.  The step function is a partial function; the relation lists what it
can do, with the phases as hypotheses. -/
inductive Produces (s : TaskState) : ProducerStep → TaskState → Prop where
  | store (h : s.producer = .running) :
      Produces s .store { s with value := true, producer := .stored }
  | publish (h : s.producer = .stored) :
      Produces s .publish { s with handoff := .completed, producer := .published s.handoff }
  | resume (h : s.producer = .published .address) :
      Produces s .resume {
        s with
        producer := .releasing
        resumptions := s.resumptions + 1
        consumer := if s.consumer = .suspended then .collecting else s.consumer }
  | skip {w : Word} (h : s.producer = .published w) (hw : w = .unclaimed ∨ w = .completed) :
      Produces s .skip { s with producer := .releasing }
  | lock (h : s.producer = .published .parked) (hmutex : s.mutex = none) :
      Produces s .lock { s with mutex := some .producer, producer := .notifying }
  | notify (h : s.producer = .notifying) :
      Produces s .notify {
        s with
        producer := .unlocking
        consumer := if s.consumer = .sleeping then .locking else s.consumer }
  | unlock (h : s.producer = .unlocking) :
      Produces s .unlock { s with mutex := none, producer := .releasing }
  | drop (h : s.producer = .releasing) :
      Produces s .drop {
        s with
        references := s.references - 1
        producer := if s.references = 1 then .last else .finished }
  | destroy (h : s.producer = .last) :
      Produces s .destroy {
        s with destroyed := s.destroyed + s.done.toNat, producer := .finished }

/-- The steps of the consumer.  The proofs of the invariants are by cases on it, one for each step
of the source. -/
inductive Consumes (s : TaskState) : ConsumerStep → TaskState → Prop where
  | poll (h : s.consumer = .holding) : Consumes s .poll s
  | get (h : s.consumer = .holding) : Consumes s .get { s with consumer := .loading }
  | load (h : s.consumer = .loading) :
      Consumes s .load { s with consumer := .testing s.handoff }
  | testCompleted (h : s.consumer = .testing .completed) :
      Consumes s .test { s with consumer := .collecting }
  | testUnclaimed (h : s.consumer = .testing .unclaimed) :
      Consumes s .test { s with block := true, consumer := .announcing }
  | testParked (h : s.consumer = .testing .parked) :
      Consumes s .test { s with consumer := .locking }
  | testAddress (h : s.consumer = .testing .address) :
      Consumes s .test { s with consumer := .loading }
  | announce (h : s.consumer = .announcing) (hword : s.handoff = .unclaimed) :
      Consumes s .announce { s with handoff := .parked, consumer := .testing .unclaimed }
  | announceLate (h : s.consumer = .announcing) (hword : s.handoff ≠ .unclaimed) :
      Consumes s .announce { s with consumer := .testing s.handoff }
  | lock (h : s.consumer = .locking) (hmutex : s.mutex = none) :
      Consumes s .lock { s with mutex := some .consumer, consumer := .checking }
  | checkDone (h : s.consumer = .checking) (hword : s.handoff = .completed) :
      Consumes s .check { s with consumer := .leaving }
  | checkWait (h : s.consumer = .checking) (hword : s.handoff ≠ .completed) :
      Consumes s .check { s with mutex := none, consumer := .sleeping }
  | wake (h : s.consumer = .sleeping) : Consumes s .wake { s with consumer := .locking }
  | unlock (h : s.consumer = .leaving) :
      Consumes s .unlock { s with mutex := none, consumer := .collecting }
  | await (h : s.consumer = .holding) : Consumes s .await { s with consumer := .awaiting }
  | readyDone (h : s.consumer = .awaiting) (hword : s.handoff = .completed) :
      Consumes s .ready { s with consumer := .collecting }
  | readyWait (h : s.consumer = .awaiting) (hword : s.handoff ≠ .completed) :
      Consumes s .ready { s with consumer := .registering }
  | suspend (h : s.consumer = .registering) (hword : s.handoff = .unclaimed) :
      Consumes s .suspend {
        s with handoff := .address, consumer := .suspended, suspensions := s.suspensions + 1 }
  | suspendLate (h : s.consumer = .registering) (hword : s.handoff = .completed) :
      Consumes s .suspend { s with consumer := .collecting }
  | suspendRetry (h : s.consumer = .registering) : Consumes s .suspend s
  | collect (h : s.consumer = .collecting) : Consumes s .collect { s with consumer := .releasing }
  | abandon (h : s.consumer = .holding ∨ s.consumer = .awaiting ∨ s.consumer = .suspended) :
      Consumes s .abandon { s with consumer := .releasing }
  | drop (h : s.consumer = .releasing) :
      Consumes s .drop {
        s with
        references := s.references - 1
        consumer := if s.references = 1 then .last else .finished }
  | destroy (h : s.consumer = .last) :
      Consumes s .destroy {
        s with destroyed := s.destroyed + s.done.toNat, consumer := .finished }

/-- Every step of the producer is one of these. -/
lemma produces_of_produce {s t : TaskState} {a : ProducerStep}
    (h : s.produce s.producer a = some t) : Produces s a t := by
  generalize hphase : s.producer = phase at h
  unfold produce at h
  split at h
  · cases h
    exact Produces.store hphase
  · cases h
    exact Produces.publish hphase
  · cases h
    exact Produces.resume hphase
  · cases h
    exact Produces.skip hphase (Or.inl rfl)
  · cases h
    exact Produces.skip hphase (Or.inr rfl)
  · split_ifs at h with hmutex
    cases h
    exact Produces.lock hphase hmutex
  · cases h
    exact Produces.notify hphase
  · cases h
    exact Produces.unlock hphase
  · cases h
    exact Produces.drop hphase
  · cases h
    exact Produces.destroy hphase
  · cases h

/-- Every step of the consumer is one of these. -/
lemma consumes_of_consume {s t : TaskState} {a : ConsumerStep}
    (h : s.consume s.consumer a = some t) : Consumes s a t := by
  generalize hphase : s.consumer = phase at h
  unfold consume at h
  split at h
  · cases h
    exact Consumes.poll hphase
  · cases h
    exact Consumes.get hphase
  · cases h
    exact Consumes.load hphase
  · cases h
    exact Consumes.testCompleted hphase
  · cases h
    exact Consumes.testUnclaimed hphase
  · cases h
    exact Consumes.testParked hphase
  · cases h
    exact Consumes.testAddress hphase
  · -- the exchange of the word: the task may have completed since the load
    split_ifs at h with hword
    · cases h
      exact Consumes.announce hphase hword
    · cases h
      exact Consumes.announceLate hphase hword
  · split_ifs at h with hmutex
    cases h
    exact Consumes.lock hphase hmutex
  · split_ifs at h with hdone
    · cases h
      exact Consumes.checkDone hphase (done_iff.mp hdone)
    · cases h
      exact Consumes.checkWait hphase (mt done_iff.mpr hdone)
  · cases h
    exact Consumes.wake hphase
  · cases h
    exact Consumes.unlock hphase
  · cases h
    exact Consumes.await hphase
  · by_cases hword : s.handoff = .completed
    · rw [if_pos (done_iff.mpr hword)] at h
      cases h
      exact Consumes.readyDone hphase hword
    · rw [if_neg (mt done_iff.mp hword)] at h
      cases h
      exact Consumes.readyWait hphase hword
  · split_ifs at h with hword hword'
    · cases h
      exact Consumes.suspend hphase hword
    · cases h
      exact Consumes.suspendLate hphase hword'
    · cases h
      exact Consumes.suspendRetry hphase
  · cases h
    exact Consumes.collect hphase
  · cases h
    exact Consumes.abandon (Or.inl hphase)
  · cases h
    exact Consumes.abandon (Or.inr (Or.inl hphase))
  · cases h
    exact Consumes.abandon (Or.inr (Or.inr hphase))
  · cases h
    exact Consumes.drop hphase
  · cases h
    exact Consumes.destroy hphase
  · cases h

end TaskState

end Chhttp
