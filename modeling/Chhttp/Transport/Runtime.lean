import Chhttp.Lib.Run
import Chhttp.Lib.Tally

/-!
# The queue of a runtime

`Runtime` of `runtime.cpp`: any thread may post a callback to the thread of a libuv loop.  Callbacks
wait in `queue_`, under a mutex, and `uv_async_send` wakes the loop, which takes the whole queue and
runs it.  `stop` closes the queue with a callback of its own, which closes the handle.

libuv makes one call of `async_callback` out of all sends since the last one, and no call once the
handle is being closed.  A step is what a thread does between two points where another one may come
in, so `stopping_` may change while a call of `post_remote` has the mutex.  `State.Inv` holds between
any two steps; `runtime_sound` and `runtime_drains` are about all runs.

Two things are outside the model.  `uv_run` returns when no handle of the loop is open any more; `exit`
needs only that the handle of the queue is closed, so the other handles, those of connections and
timers, are assumed to be closed by their owners.  And `stop` tests `joinable` and joins without a
lock: that two threads join at the same time, which the standard does not allow, is not modelled; here
every call that joins returns once the thread has ended.
-/

namespace Chhttp

open Transition Tally

namespace Runtime

/-! ### The source -/

/-- An entry of `queue_`: a callback that was posted, or the one of `stop`.  The one of `stop`
closes the handle, and is the last that the loop will ever take from the queue. -/
inductive Job (J : Type) where
  | callback (job : J)
  | close

/-- Where a call of `post_remote` or `stop` is.  Calls come from any thread; each is cut where
another one may come in between. -/
inductive Call (J : Type) where
  /-- `post_remote` has the mutex, and `stopping_` was not set. -/
  | admitted (job : J)
  /-- `post_remote` is about to call `uv_async_send`. -/
  | notifying
  /-- `stop` has set `stopping_`, and is about to take the mutex. -/
  | exchanged (onLoop : Bool)
  /-- `stop` is about to call `uv_async_send`. -/
  | closing (onLoop : Bool)
  /-- `stop` waits for the thread of the loop. -/
  | joining
  | returned

/-- Where the thread of the loop is.  Callbacks of other handles run in `uv_run` too, and do not
concern the queue. -/
inductive Phase (J : Type) where
  /-- In `uv_run`, with other callbacks or none. -/
  | polling
  /-- `async_callback` is about to take the mutex. -/
  | called
  /-- `drain` runs what is left of its batch. -/
  | draining (rest : List (Job J))
  | exited

/-- `Runtime`, with the calls of its functions and what has happened to the callbacks.  The last
three fields are not in the source: they record what was accepted and what was run. -/
structure State (J : Type) where
  queue : List (Job J) := []
  /-- `drain_scratch_`. -/
  scratch : List (Job J) := []
  stopping : Bool := false
  /-- `uv_async_send` was called since the last call of `async_callback`. -/
  pending : Bool := false
  /-- `uv_close` was called. -/
  closed : Bool := false
  phase : Phase J := .polling
  calls : List (Call J) := []
  accepted : List J := []
  executed : List J := []
  /-- What ran without the queue, on the thread of the loop. -/
  direct : List J := []

/-- The steps. -/
inductive Action (J : Type) where
  /-- A call of `post`; the callback may be empty. -/
  | post (onLoop : Bool) (callback : Option J)
  /-- `post_remote` pushes its callback, and gives the mutex up. -/
  | push (i : ℕ)
  /-- A call of `stop`. -/
  | stop (onLoop : Bool)
  /-- The part of `stop` under the mutex. -/
  | lock (i : ℕ)
  /-- `uv_async_send`. -/
  | notify (i : ℕ)
  /-- `join` returns. -/
  | join (i : ℕ)
  /-- The loop calls `async_callback`. -/
  | wake
  /-- The part of `drain` under the mutex. -/
  | swap
  /-- `drain` calls the next callback, which may throw. -/
  | run
  /-- `drain` returns. -/
  | clear
  /-- `uv_run` returns: no handle is open any more. -/
  | exit

variable {J : Type}

/-- A call has the mutex. -/
def Call.isAdmitted : Call J → ℕ
  | .admitted _ => 1
  | _ => 0

/-- `stop` has sent, or found `stopping_` set: it joins the thread, unless it is on it. -/
def Call.leaving (onLoop : Bool) : Call J := if onLoop then .returned else .joining

/-- One step.  A call of `post_remote` holds the mutex from its test of `stopping_` to its push,
which is why no other one is admitted meanwhile. -/
def State.next (s : State J) : Action J → Option (State J)
  | .post _ none => some s
  | .post true (some job) =>
    match s.phase with
    | .exited => none
    | _ => some { s with direct := s.direct ++ [job] }
  | .post false (some job) =>
    if tally Call.isAdmitted s.calls = 0 then
      if s.stopping then some s else some { s with calls := s.calls ++ [.admitted job] }
    else none
  | .push i =>
    match s.calls[i]? with
    | some (.admitted job) =>
      some { s with
        queue := s.queue ++ [.callback job]
        calls := s.calls.set i .notifying
        accepted := s.accepted ++ [job] }
    | _ => none
  | .stop onLoop =>
    if s.stopping then
      some { s with calls := s.calls ++ [.leaving onLoop] }
    else some { s with stopping := true, calls := s.calls ++ [.exchanged onLoop] }
  | .lock i =>
    match s.calls[i]? with
    | some (.exchanged onLoop) =>
      if tally Call.isAdmitted s.calls = 0 then
        some { s with queue := s.queue ++ [.close], calls := s.calls.set i (.closing onLoop) }
      else none
    | _ => none
  | .notify i =>
    match s.calls[i]? with
    | some .notifying => some { s with pending := true, calls := s.calls.set i .returned }
    | some (.closing onLoop) =>
      some { s with pending := true, calls := s.calls.set i (.leaving onLoop) }
    | _ => none
  | .join i =>
    match s.calls[i]?, s.phase with
    | some .joining, .exited => some { s with calls := s.calls.set i .returned }
    | _, _ => none
  | .wake =>
    match s.phase with
    | .polling =>
      if s.pending = true ∧ s.closed = false then
        some { s with pending := false, phase := .called }
      else none
    | _ => none
  | .swap =>
    match s.phase with
    | .called =>
      if tally Call.isAdmitted s.calls = 0 then
        some { s with queue := s.scratch, scratch := s.queue, phase := .draining s.queue }
      else none
    | _ => none
  | .run =>
    match s.phase with
    | .draining (.callback job :: rest) =>
      some { s with phase := .draining rest, executed := s.executed ++ [job] }
    | .draining (.close :: rest) => some { s with phase := .draining rest, closed := true }
    | _ => none
  | .clear =>
    match s.phase with
    | .draining [] => some { s with scratch := [], phase := .polling }
    | _ => none
  | .exit =>
    match s.phase with
    | .polling => if s.closed then some { s with phase := .exited } else none
    | _ => none

/-! ### What a step can do -/

variable {s t : State J} {i : ℕ}

/-- The steps, each with what it requires.  One constructor is one branch of the source, so the
proofs on steps are by cases on it. -/
inductive Stepped (s : State J) : Action J → State J → Prop where
  /-- An empty callback, or one that comes too late. -/
  | ignored {onLoop : Bool} {callback : Option J} : Stepped s (.post onLoop callback) s
  | direct {job : J} :
    Stepped s (.post true (some job)) { s with direct := s.direct ++ [job] }
  | enter {job : J} (hfree : tally Call.isAdmitted s.calls = 0) (hstopping : s.stopping = false) :
    Stepped s (.post false (some job)) { s with calls := s.calls ++ [.admitted job] }
  | push {i : ℕ} {job : J} (hi : s.calls[i]? = some (.admitted job)) :
    Stepped s (.push i)
      { s with
        queue := s.queue ++ [.callback job]
        calls := s.calls.set i .notifying
        accepted := s.accepted ++ [job] }
  | again {onLoop : Bool} (hstopping : s.stopping = true) :
    Stepped s (.stop onLoop) { s with calls := s.calls ++ [.leaving onLoop] }
  | exchange {onLoop : Bool} (hstopping : s.stopping = false) :
    Stepped s (.stop onLoop)
      { s with stopping := true, calls := s.calls ++ [.exchanged onLoop] }
  | lock {i : ℕ} {onLoop : Bool} (hi : s.calls[i]? = some (.exchanged onLoop))
    (hfree : tally Call.isAdmitted s.calls = 0) :
    Stepped s (.lock i)
      { s with queue := s.queue ++ [.close], calls := s.calls.set i (.closing onLoop) }
  | notify {i : ℕ} (hi : s.calls[i]? = some .notifying) :
    Stepped s (.notify i) { s with pending := true, calls := s.calls.set i .returned }
  | leave {i : ℕ} {onLoop : Bool} (hi : s.calls[i]? = some (.closing onLoop)) :
    Stepped s (.notify i) { s with pending := true, calls := s.calls.set i (.leaving onLoop) }
  | join {i : ℕ} (hi : s.calls[i]? = some .joining) (hphase : s.phase = .exited) :
    Stepped s (.join i) { s with calls := s.calls.set i .returned }
  | wake (hphase : s.phase = .polling) (hpending : s.pending = true) :
    Stepped s .wake { s with pending := false, phase := .called }
  | swap (hphase : s.phase = .called) :
    Stepped s .swap { s with queue := s.scratch, scratch := s.queue, phase := .draining s.queue }
  | run {job : J} {rest : List (Job J)} (hphase : s.phase = .draining (.callback job :: rest)) :
    Stepped s .run { s with phase := .draining rest, executed := s.executed ++ [job] }
  | close {rest : List (Job J)} (hphase : s.phase = .draining (.close :: rest)) :
    Stepped s .run { s with phase := .draining rest, closed := true }
  | clear (hphase : s.phase = .draining []) :
    Stepped s .clear { s with scratch := [], phase := .polling }
  | exit (hphase : s.phase = .polling) (hclosed : s.closed = true) :
    Stepped s .exit { s with phase := .exited }

/-- A step is one of these. -/
lemma State.stepped {a : Action J} (hnext : s.next a = some t) : Stepped s a t := by
  cases a with
  | post onLoop callback =>
    cases callback with
    | none =>
      cases hnext
      exact .ignored
    | some job =>
      -- on the loop thread the callback runs at once; elsewhere the flag is read first
      cases onLoop with
      | true =>
        simp only [State.next] at hnext
        split at hnext <;> cases hnext
        exact .direct
      | false =>
        simp only [State.next] at hnext
        split_ifs at hnext with hfree hstopping <;> cases hnext
        · exact .ignored
        · exact .enter hfree (Bool.not_eq_true _ ▸ hstopping)
  | push i =>
    simp only [State.next] at hnext
    split at hnext <;> cases hnext
    rename_i job hi
    exact .push hi
  | stop onLoop =>
    simp only [State.next] at hnext
    split_ifs at hnext with hstopping <;> cases hnext
    · exact .again hstopping
    · exact .exchange (Bool.not_eq_true _ ▸ hstopping)
  | lock i =>
    simp only [State.next] at hnext
    split at hnext
    · rename_i onLoop hi
      split_ifs at hnext with hfree
      cases hnext
      exact .lock hi hfree
    · cases hnext
  | notify i =>
    simp only [State.next] at hnext
    split at hnext <;> cases hnext
    · rename_i hi
      exact .notify hi
    · rename_i onLoop hi
      exact .leave hi
  | join i =>
    simp only [State.next] at hnext
    split at hnext <;> cases hnext
    rename_i hi hphase
    exact .join hi hphase
  | wake =>
    simp only [State.next] at hnext
    split at hnext
    · rename_i hphase
      split_ifs at hnext with hand
      cases hnext
      exact .wake hphase hand.1
    · cases hnext
  | swap =>
    simp only [State.next] at hnext
    split at hnext
    · rename_i hphase
      split_ifs at hnext
      cases hnext
      exact .swap hphase
    · cases hnext
  | run =>
    simp only [State.next] at hnext
    split at hnext <;> cases hnext
    · rename_i job rest hphase
      exact .run hphase
    · rename_i rest hphase
      exact .close hphase
  | clear =>
    simp only [State.next] at hnext
    split at hnext <;> cases hnext
    rename_i hphase
    exact .clear hphase
  | exit =>
    simp only [State.next] at hnext
    split at hnext
    · rename_i hphase
      split_ifs at hnext with hclosed
      cases hnext
      exact .exit hphase hclosed
    · cases hnext

/-! ### The invariant -/

/-- A call is about to send. -/
def Call.isSending : Call J → ℕ
  | .notifying => 1
  | .closing _ => 1
  | _ => 0

/-- A call of `stop` that has not queued its callback yet. -/
def Call.isExchanged : Call J → ℕ
  | .exchanged _ => 1
  | _ => 0

/-- A call of `stop` that has not returned. -/
def Call.isStop : Call J → ℕ
  | .exchanged _ => 1
  | .closing _ => 1
  | .joining => 1
  | _ => 0

/-- What is left of the batch of `drain`. -/
def Phase.rest : Phase J → List (Job J)
  | .draining rest => rest
  | _ => []

/-- What has to be run.  It is what `drain` has in hand, and behind it what is in the queue. -/
def State.backlog (s : State J) : List (Job J) := s.phase.rest ++ s.queue

/-- `stop` has queued its callback. -/
def State.Sealed (s : State J) : Prop :=
  s.stopping = true ∧ tally Call.isExchanged s.calls = 0

instance (s : State J) : Decidable s.Sealed := inferInstanceAs (Decidable (_ ∧ _))

/-- The callback of `stop`, while it has to be run.  It is the last entry of the backlog: nothing is
accepted behind it. -/
def State.seal (s : State J) : List (Job J) :=
  if s.Sealed ∧ s.closed = false then [.close] else []

/-- What holds between any two steps.  The invariant is on the backlog: it is what was accepted and
not run, in order, and it is never forgotten. -/
structure State.Inv (s : State J) : Prop where
  /-- What has to be run is what was accepted and has not been run, with the callback of `stop`
  behind it. -/
  fifo : ∃ jobs, s.backlog = jobs.map .callback ++ s.seal ∧ s.executed ++ jobs = s.accepted
  scratch : (∀ rest, s.phase ≠ .draining rest) → s.scratch = []
  /-- The mutex. -/
  exclusive : tally Call.isAdmitted s.calls ≤ 1
  once : tally Call.isExchanged s.calls ≤ 1
  stops : 0 < tally Call.isStop s.calls → s.stopping = true
  quiet : s.Sealed → tally Call.isAdmitted s.calls = 0
  closed : s.closed = true → s.Sealed ∧ s.backlog = []
  /-- Somebody sees to what is in the queue. -/
  woken : s.queue ≠ [] →
    s.pending = true ∨ 0 < tally Call.isSending s.calls ∨ s.phase = .called
  exited : s.phase = .exited → s.closed = true

/-- A new runtime. -/
lemma State.inv_start : ({} : State J).Inv where
  fifo := ⟨[], rfl, rfl⟩
  scratch := fun _ => rfl
  exclusive := Nat.zero_le _
  once := Nat.zero_le _
  stops := fun h => absurd h (Nat.lt_irrefl _)
  quiet := fun _ => rfl
  closed := fun h => nomatch h
  woken := fun h => absurd rfl h
  exited := fun h => nomatch h

/-- How the numbers of calls change when one of them goes on. -/
lemma tally_calls {calls : List (Call J)} {x : Call J} (hi : calls[i]? = some x) (y : Call J) :
    tally Call.isAdmitted (calls.set i y) + x.isAdmitted =
        tally Call.isAdmitted calls + y.isAdmitted ∧
      tally Call.isSending (calls.set i y) + x.isSending =
        tally Call.isSending calls + y.isSending ∧
      tally Call.isExchanged (calls.set i y) + x.isExchanged =
        tally Call.isExchanged calls + y.isExchanged ∧
      tally Call.isStop (calls.set i y) + x.isStop = tally Call.isStop calls + y.isStop :=
  ⟨tally_set _ hi y, tally_set _ hi y, tally_set _ hi y, tally_set _ hi y⟩

/-- How they change with a new call. -/
lemma tally_call (calls : List (Call J)) (y : Call J) :
    tally Call.isAdmitted (calls ++ [y]) = tally Call.isAdmitted calls + y.isAdmitted ∧
      tally Call.isSending (calls ++ [y]) = tally Call.isSending calls + y.isSending ∧
      tally Call.isExchanged (calls ++ [y]) = tally Call.isExchanged calls + y.isExchanged ∧
      tally Call.isStop (calls ++ [y]) = tally Call.isStop calls + y.isStop := by
  simp only [tally_append, tally_cons, tally_nil, Nat.add_zero, and_self]

/-- The calls change, and nothing is queued: no call is admitted late, and none stops sending
without a wake-up. -/
lemma State.Inv.move (h : s.Inv) {calls : List (Call J)} {pending : Bool}
    (hexchanged : tally Call.isExchanged calls = tally Call.isExchanged s.calls)
    (hadmitted : s.stopping = true → tally Call.isAdmitted calls ≤ tally Call.isAdmitted s.calls)
    (hexclusive : tally Call.isAdmitted calls ≤ 1)
    (hstops : 0 < tally Call.isStop calls → s.stopping = true)
    (hwoken : pending = true ∨
      pending = s.pending ∧ tally Call.isSending calls = tally Call.isSending s.calls) :
    { s with pending := pending, calls := calls }.Inv := by
  have hsealed : { s with pending := pending, calls := calls }.Sealed ↔ s.Sealed := by
    simp only [State.Sealed, hexchanged]
  refine ⟨?_, h.scratch, hexclusive, ?_, hstops, fun hs => ?_, fun hclosed => ?_,
    fun hqueue => ?_, h.exited⟩
  · obtain ⟨jobs, hbacklog, haccepted⟩ := h.fifo
    refine ⟨jobs, ?_, haccepted⟩
    rw [State.seal] at hbacklog ⊢
    simp only [hsealed]
    exact hbacklog
  · dsimp only
    rw [hexchanged]
    exact h.once
  · have hzero := h.quiet (hsealed.mp hs)
    have hle := hadmitted (hsealed.mp hs).1
    dsimp only
    omega
  · exact ⟨hsealed.mpr (h.closed hclosed).1, (h.closed hclosed).2⟩
  · rcases hwoken with hpending | ⟨hpending, hsending⟩
    · exact .inl hpending
    · dsimp only
      rw [hpending, hsending]
      exact h.woken hqueue

/-- `post_remote` takes the mutex. -/
lemma State.Inv.enter (h : s.Inv) (hfree : tally Call.isAdmitted s.calls = 0)
    (hstopping : s.stopping = false) (job : J) :
    { s with calls := s.calls ++ [Call.admitted job] }.Inv := by
  obtain ⟨hadmitted, hsending, hexchanged, hstop⟩ := tally_call s.calls (.admitted job)
  refine h.move hexchanged (fun hs => ?_) ?_ (fun hpos => ?_) (.inr ⟨rfl, hsending⟩)
  · rw [hstopping] at hs
    cases hs
  · rw [hadmitted, hfree]
    exact Nat.le_refl 1
  · rw [hstop] at hpos
    exact h.stops hpos

/-- While `stop` has not queued its callback, nothing is behind the callbacks. -/
lemma State.seal_of_not_sealed (h : ¬ s.Sealed) : s.seal = [] :=
  if_neg fun hand => h hand.1

/-- While a call has the mutex, `stop` has not queued its callback. -/
lemma State.Inv.not_sealed (h : s.Inv) {job : J} (hi : s.calls[i]? = some (.admitted job)) :
    ¬ s.Sealed := fun hs => by
  have hone : Call.isAdmitted (.admitted job) ≤ tally Call.isAdmitted s.calls := le_tally hi
  rw [h.quiet hs] at hone
  exact absurd hone (Nat.not_succ_le_zero 0)

/-- `post_remote` pushes its callback. -/
lemma State.Inv.push (h : s.Inv) {job : J} (hi : s.calls[i]? = some (.admitted job)) :
    { s with
      queue := s.queue ++ [Job.callback job]
      calls := s.calls.set i Call.notifying
      accepted := s.accepted ++ [job] }.Inv := by
  obtain ⟨hadmitted, hsending, hexchanged, hstop⟩ := tally_calls hi .notifying
  simp only [Call.isAdmitted, Call.isSending, Call.isExchanged, Call.isStop,
    Nat.add_zero] at hadmitted hsending hexchanged hstop
  have hopen := h.not_sealed hi
  have hopen' : ¬ { s with
      queue := s.queue ++ [Job.callback job]
      calls := s.calls.set i .notifying
      accepted := s.accepted ++ [job] }.Sealed := by
    simp only [State.Sealed, hexchanged]
    exact hopen
  have hexclusive := h.exclusive
  refine ⟨?_, h.scratch, ?_, ?_, fun hpos => ?_, fun hs => absurd hs hopen', fun hclosed => ?_,
    fun _ => .inr (.inl ?_), h.exited⟩
  · obtain ⟨jobs, hbacklog, haccepted⟩ := h.fifo
    rw [State.seal_of_not_sealed hopen, List.append_nil] at hbacklog
    refine ⟨jobs ++ [job], ?_, ?_⟩
    · rw [State.seal_of_not_sealed hopen', List.append_nil, List.map_append, ← hbacklog,
        State.backlog, State.backlog, List.append_assoc]
      rfl
    · rw [← haccepted, List.append_assoc]
  · dsimp only
    omega
  · dsimp only
    rw [hexchanged]
    exact h.once
  · dsimp only at hpos
    rw [hstop] at hpos
    exact h.stops hpos
  · exact absurd (h.closed hclosed).1 hopen
  · dsimp only
    omega

/-- The first call of `stop`. -/
lemma State.Inv.exchange (h : s.Inv) (hstopping : s.stopping = false) (onLoop : Bool) :
    { s with stopping := true, calls := s.calls ++ [Call.exchanged onLoop] }.Inv := by
  obtain ⟨hadmitted, hsending, hexchanged, hstop⟩ := tally_call s.calls (.exchanged onLoop)
  have hopen : ¬ s.Sealed := fun hs => by
    rw [hs.1] at hstopping
    cases hstopping
  have hopen' : ¬ { s with stopping := true, calls := s.calls ++ [Call.exchanged onLoop] }.Sealed :=
    fun hs => by
      have := hexchanged.symm.trans hs.2
      simp only [Call.isExchanged] at this
      omega
  have hnone : tally Call.isExchanged s.calls = 0 := by
    have hle : tally Call.isExchanged s.calls ≤ tally Call.isStop s.calls :=
      tally_le_tally (fun x => by cases x <;> simp [Call.isExchanged, Call.isStop]) _
    have hzero : ¬ 0 < tally Call.isStop s.calls := fun hpos => by
      rw [h.stops hpos] at hstopping
      cases hstopping
    omega
  refine ⟨?_, h.scratch, hadmitted.trans_le h.exclusive, ?_, fun _ => rfl,
    fun hs => absurd hs hopen', fun hclosed => ?_, fun hqueue => ?_, h.exited⟩
  · obtain ⟨jobs, hbacklog, haccepted⟩ := h.fifo
    rw [State.seal_of_not_sealed hopen] at hbacklog
    refine ⟨jobs, ?_, haccepted⟩
    rw [State.seal_of_not_sealed hopen']
    exact hbacklog
  · dsimp only
    rw [hexchanged, hnone]
    exact Nat.le_refl 1
  · exact absurd (h.closed hclosed).1 hopen
  · dsimp only
    rw [hsending]
    exact h.woken hqueue

/-- `stop` queues its callback.  Nobody is between the check and the push then, so its callback is
the last of the queue. -/
lemma State.Inv.lock (h : s.Inv) {onLoop : Bool} (hi : s.calls[i]? = some (.exchanged onLoop))
    (hfree : tally Call.isAdmitted s.calls = 0) :
    { s with queue := s.queue ++ [Job.close], calls := s.calls.set i (Call.closing onLoop) }.Inv :=
  by
  obtain ⟨hadmitted, hsending, hexchanged, hstop⟩ := tally_calls hi (.closing onLoop)
  simp only [Call.isAdmitted, Call.isSending, Call.isExchanged, Call.isStop,
    Nat.add_zero] at hadmitted hsending hexchanged hstop
  have honce := h.once
  have hone : Call.isStop (.exchanged onLoop) ≤ tally Call.isStop s.calls := le_tally hi
  have hstopping := h.stops hone
  have hopen : ¬ s.Sealed := fun hs => by
    have := hs.2
    omega
  have hclosed : s.closed = false := by
    by_contra hne
    exact hopen (h.closed (Bool.not_eq_false _ ▸ hne)).1
  refine ⟨?_, h.scratch, hadmitted.trans_le h.exclusive, ?_, fun _ => hstopping, fun _ => ?_,
    fun hc => ?_, fun _ => .inr (.inl ?_), h.exited⟩
  · obtain ⟨jobs, hbacklog, haccepted⟩ := h.fifo
    rw [State.seal_of_not_sealed hopen, List.append_nil] at hbacklog
    refine ⟨jobs, ?_, haccepted⟩
    rw [State.seal, if_pos ⟨⟨hstopping, by dsimp only; omega⟩, hclosed⟩, ← hbacklog,
      State.backlog, State.backlog, List.append_assoc]
  · dsimp only
    omega
  · exact hadmitted.trans hfree
  · rw [hclosed] at hc
    cases hc
  · dsimp only
    omega

/-- A call sends or joins, and is behind that. -/
lemma State.Inv.proceed (h : s.Inv) {x y : Call J} (hi : s.calls[i]? = some x)
    (hx : x.isAdmitted = 0 ∧ x.isExchanged = 0) (hy : y.isAdmitted = 0 ∧ y.isExchanged = 0)
    (hstop : y.isStop ≤ x.isStop) {pending : Bool}
    (hwoken : pending = true ∨ pending = s.pending ∧ x.isSending = 0 ∧ y.isSending = 0) :
    { s with pending := pending, calls := s.calls.set i y }.Inv := by
  obtain ⟨hadmitted, hsending, hexchanged, hstops⟩ := tally_calls hi y
  have hexclusive := h.exclusive
  have hone : x.isStop ≤ tally Call.isStop s.calls := le_tally hi
  refine h.move (by omega) (fun _ => by omega) (by omega) (fun hpos => h.stops (by omega)) ?_
  exact hwoken.imp id fun ⟨hpending, hx, hy⟩ => ⟨hpending, by omega⟩

/-- A step of the loop that neither queues nor runs anything. -/
lemma State.Inv.turn (h : s.Inv) {pending : Bool} {phase : Phase J}
    {queue scratch : List (Job J)}
    (hbacklog : phase.rest ++ queue = s.backlog)
    (hscratch : (∀ rest, phase ≠ .draining rest) → scratch = [])
    (hwoken : queue ≠ [] → pending = true ∨ 0 < tally Call.isSending s.calls ∨ phase = .called)
    (hexited : phase = .exited → s.closed = true) :
    { s with
      queue := queue
      scratch := scratch
      pending := pending
      phase := phase }.Inv := by
  refine ⟨?_, hscratch, h.exclusive, h.once, h.stops, h.quiet, fun hclosed => ?_, hwoken, hexited⟩
  · obtain ⟨jobs, hjobs, haccepted⟩ := h.fifo
    exact ⟨jobs, hbacklog.trans hjobs, haccepted⟩
  · exact ⟨(h.closed hclosed).1, hbacklog.trans (h.closed hclosed).2⟩

/-- While there is something left of a batch, the handle is open. -/
lemma State.Inv.not_closed (h : s.Inv) {job : Job J} {rest : List (Job J)}
    (hphase : s.phase = .draining (job :: rest)) : s.closed = false := by
  by_contra hne
  have := (h.closed (Bool.not_eq_false _ ▸ hne)).2
  rw [State.backlog, hphase] at this
  cases this

/-- `drain` calls a callback that was posted. -/
lemma State.Inv.run (h : s.Inv) {job : J} {rest : List (Job J)}
    (hphase : s.phase = .draining (.callback job :: rest)) :
    { s with phase := Phase.draining rest, executed := s.executed ++ [job] }.Inv := by
  obtain ⟨jobs, hbacklog, haccepted⟩ := h.fifo
  rw [State.backlog, hphase, Phase.rest, List.cons_append] at hbacklog
  refine ⟨?_, fun hne => absurd rfl (hne rest), h.exclusive, h.once, h.stops, h.quiet,
    fun hclosed => ?_, fun hqueue => ?_, fun hne => nomatch hne⟩
  · cases jobs with
    | nil =>
      -- The callback of `stop` is not one that was posted.
      rw [List.map_nil, List.nil_append, State.seal] at hbacklog
      split_ifs at hbacklog
      cases hbacklog
    | cons first jobs =>
      rw [List.map_cons, List.cons_append, List.cons.injEq] at hbacklog
      obtain ⟨hjob, hbacklog⟩ := hbacklog
      cases hjob
      exact ⟨jobs, hbacklog, by rw [← haccepted, List.append_assoc, List.singleton_append]⟩
  · exact absurd ((h.not_closed hphase).symm.trans hclosed) Bool.false_ne_true
  · have := h.woken hqueue
    rw [hphase] at this
    exact this.imp id fun hor => hor.imp id fun hne => nomatch hne

/-- `drain` calls the callback of `stop`. -/
lemma State.Inv.close (h : s.Inv) {rest : List (Job J)}
    (hphase : s.phase = .draining (.close :: rest)) :
    { s with phase := Phase.draining rest, closed := true }.Inv := by
  obtain ⟨jobs, hbacklog, haccepted⟩ := h.fifo
  rw [State.backlog, hphase, Phase.rest, List.cons_append] at hbacklog
  cases jobs with
  | cons first jobs => cases hbacklog
  | nil =>
    rw [List.map_nil, List.nil_append, State.seal] at hbacklog
    split_ifs at hbacklog with hsealed
    rw [List.cons.injEq] at hbacklog
    obtain ⟨-, hempty⟩ := hbacklog
    refine ⟨⟨[], ?_, haccepted⟩, fun hne => absurd rfl (hne rest), h.exclusive, h.once, h.stops,
      h.quiet, fun _ => ⟨hsealed.1, hempty⟩, fun hqueue => ?_, fun hne => nomatch hne⟩
    · rw [State.seal, if_neg fun hand => Bool.false_ne_true hand.2.symm]
      exact hempty
    · exact absurd (List.append_eq_nil_iff.mp hempty).2 hqueue

/-- Every step preserves the invariant. -/
lemma State.Inv.next (h : s.Inv) {a : Action J} (hnext : s.next a = some t) : t.Inv := by
  cases State.stepped hnext with
  | ignored => exact h
  | direct =>
    exact ⟨h.fifo, h.scratch, h.exclusive, h.once, h.stops, h.quiet, h.closed, h.woken, h.exited⟩
  | enter hfree hstopping => exact h.enter hfree hstopping _
  | push hi => exact h.push hi
  | @again onLoop hstopping =>
    obtain ⟨hadmitted, hsending, hexchanged, -⟩ := tally_call s.calls (.leaving onLoop)
    refine h.move ?_ (fun _ => ?_) ?_ (fun _ => hstopping) (.inr ⟨rfl, ?_⟩)
    · cases onLoop <;> exact hexchanged
    · cases onLoop <;> exact hadmitted.le
    · cases onLoop <;> exact hadmitted.trans_le h.exclusive
    · cases onLoop <;> exact hsending
  | exchange hstopping => exact h.exchange hstopping _
  | lock hi hfree => exact h.lock hi hfree
  | notify hi =>
    exact h.proceed (y := .returned) hi ⟨rfl, rfl⟩ ⟨rfl, rfl⟩ (Nat.le_refl _) (.inl rfl)
  | @leave i onLoop hi =>
    refine h.proceed hi ⟨rfl, rfl⟩ ?_ ?_ (.inl rfl)
    · cases onLoop <;> exact ⟨rfl, rfl⟩
    · cases onLoop <;> exact Nat.le_of_ble_eq_true rfl
  | join hi _ =>
    exact h.proceed hi ⟨rfl, rfl⟩ ⟨rfl, rfl⟩ (Nat.zero_le _) (.inr ⟨rfl, rfl, rfl⟩)
  -- the wake-up is taken, but now the loop itself answers for the queue
  | wake hphase _ =>
    refine h.turn ?_ (fun _ => h.scratch fun rest => ?_) (fun _ => .inr (.inr rfl))
      fun hne => nomatch hne
    · rw [State.backlog, hphase]
      rfl
    · rw [hphase]
      exact nofun
  | swap hphase =>
    -- the batch of the last drain is gone, so the swap loses nothing
    have hscratch : s.scratch = [] := h.scratch fun rest => by
      rw [hphase]
      exact nofun
    refine h.turn ?_ (fun hne => absurd rfl (hne _)) (fun hqueue => absurd hscratch hqueue)
      fun hne => nomatch hne
    rw [State.backlog, hphase, hscratch, List.append_nil]
    rfl
  | run hphase => exact h.run hphase
  | close hphase => exact h.close hphase
  | clear hphase =>
    refine h.turn ?_ (fun _ => rfl) (fun hqueue => ?_) fun hne => nomatch hne
    · rw [State.backlog, hphase]
      rfl
    · have := h.woken hqueue
      rw [hphase] at this
      exact this.imp id fun hor => hor.imp id fun hne => nomatch hne
  | exit hphase hclosed =>
    refine h.turn ?_ (fun _ => h.scratch fun rest => ?_) (fun hqueue => ?_) fun _ => hclosed
    · rw [State.backlog, hphase]
      rfl
    · rw [hphase]
      exact nofun
    · have := h.woken hqueue
      rw [hphase] at this
      exact this.imp id fun hor => hor.imp id fun hne => nomatch hne

/-! ### What happens once the runtime stops -/

/-- Since `stopping_` was set, callbacks have been accepted only from calls that had the mutex
then. -/
structure State.Late (accepted : List J) (count : ℕ) (s : State J) : Prop where
  stopping : s.stopping = true
  late : ∃ jobs, s.accepted = accepted ++ jobs ∧
    jobs.length + tally Call.isAdmitted s.calls ≤ count

/-- The calls change without a new one that has the mutex. -/
lemma State.Late.of_calls {accepted : List J} {count : ℕ} (h : s.Late accepted count)
    (hstopping : t.stopping = true) (haccepted : t.accepted = s.accepted)
    (hcalls : tally Call.isAdmitted t.calls ≤ tally Call.isAdmitted s.calls) :
    t.Late accepted count := by
  obtain ⟨-, jobs, hjobs, hcount⟩ := h
  exact ⟨hstopping, jobs, haccepted.trans hjobs, by omega⟩

/-- No call is admitted late.  `stopping` is read under the lock, and it is not taken back. -/
lemma State.Late.next {accepted : List J} {count : ℕ} (h : s.Late accepted count) {a : Action J}
    (hnext : s.next a = some t) : t.Late accepted count := by
  have hstopping := h.stopping
  -- A call that has given the mutex up before.
  have hset : ∀ {i : ℕ} {x y : Call J}, s.calls[i]? = some x → y.isAdmitted = 0 →
      tally Call.isAdmitted (s.calls.set i y) ≤ tally Call.isAdmitted s.calls := by
    intro i x y hi hy
    have := (tally_calls hi y).1
    omega
  cases State.stepped hnext with
  | ignored => exact h
  | direct => exact h.of_calls hstopping rfl (Nat.le_refl _)
  | enter _ hopen => exact absurd (hopen.symm.trans hstopping) Bool.false_ne_true
  | @push i job hi =>
    obtain ⟨-, jobs, hjobs, hcount⟩ := h
    have hadmitted := (tally_calls hi .notifying).1
    simp only [Call.isAdmitted, Nat.add_zero] at hadmitted
    refine ⟨hstopping, jobs ++ [job], ?_, ?_⟩
    · dsimp only
      rw [hjobs, List.append_assoc]
    · dsimp only
      rw [List.length_append, List.length_singleton]
      omega
  | @again onLoop _ =>
    refine h.of_calls hstopping rfl ?_
    have := (tally_call s.calls (.leaving onLoop)).1
    cases onLoop <;> exact this.le
  | exchange hopen => exact absurd (hopen.symm.trans hstopping) Bool.false_ne_true
  | lock hi _ => exact h.of_calls hstopping rfl (hset hi rfl)
  | notify hi => exact h.of_calls hstopping rfl (hset hi rfl)
  | @leave i onLoop hi => exact h.of_calls hstopping rfl (hset hi (by cases onLoop <;> rfl))
  | join hi _ => exact h.of_calls hstopping rfl (hset hi rfl)
  | wake _ _ => exact h.of_calls hstopping rfl (Nat.le_refl _)
  | swap _ => exact h.of_calls hstopping rfl (Nat.le_refl _)
  | run _ => exact h.of_calls hstopping rfl (Nat.le_refl _)
  | close _ => exact h.of_calls hstopping rfl (Nat.le_refl _)
  | clear _ => exact h.of_calls hstopping rfl (Nat.le_refl _)
  | exit _ _ => exact h.of_calls hstopping rfl (Nat.le_refl _)

/-- The handle is not opened again. -/
lemma State.closed_of_next {a : Action J} (hnext : s.next a = some t) (h : s.closed = true) :
    t.closed = true := by
  cases State.stepped hnext <;> first | exact h | rfl

/-! ### What is left to do -/

/-- The steps of a call. -/
def Call.work : Call J → ℕ
  | .admitted _ => 6
  | .notifying => 4
  | .exchanged _ => 7
  | .closing _ => 5
  | .joining => 1
  | .returned => 0

/-- The steps of the thread of the loop. -/
def Phase.work : Phase J → ℕ
  | .polling => 1
  | .called => 3
  | .draining rest => rest.length + 2
  | .exited => 0

/-- A bound for the number of steps until nothing is left to do.  Each step that is no call from
outside makes it smaller, so the threads come to rest. -/
def State.work (s : State J) : ℕ :=
  tally Call.work s.calls + s.queue.length + s.phase.work + if s.pending then 3 else 0

/-- A call that comes from outside. -/
def Action.isCall : Action J → Bool
  | .post _ _ => true
  | .stop _ => true
  | _ => false

/-- Each step of the threads that are at work leaves less to do. -/
lemma State.Inv.work_lt (h : s.Inv) {a : Action J} (ha : a.isCall = false)
    (hnext : s.next a = some t) : t.work < s.work := by
  have hset : ∀ {i : ℕ} {x : Call J}, s.calls[i]? = some x → ∀ y,
      tally Call.work (s.calls.set i y) + x.work = tally Call.work s.calls + y.work :=
    fun hi y => tally_set _ hi y
  -- the threads that post and stop bring in new work; each other step trades what it finishes for
  -- less of the next kind
  cases State.stepped hnext with
  | ignored => cases ha
  | direct => cases ha
  | enter _ _ => cases ha
  | push hi =>
    have := hset hi .notifying
    simp only [Call.work] at this
    simp only [State.work, List.length_append, List.length_singleton]
    omega
  | again _ => cases ha
  | exchange _ => cases ha
  | @lock i onLoop hi _ =>
    have := hset hi (.closing onLoop)
    simp only [Call.work] at this
    simp only [State.work, List.length_append, List.length_singleton]
    omega
  | notify hi =>
    have := hset hi .returned
    simp only [Call.work] at this
    simp only [State.work, if_true]
    omega
  | @leave i onLoop hi =>
    have := hset hi (.leaving onLoop)
    have hle : (Call.leaving onLoop : Call J).work ≤ 1 := by
      cases onLoop <;> exact Nat.le_of_ble_eq_true rfl
    have hclosing : (Call.closing onLoop : Call J).work = 5 := rfl
    simp only [State.work, if_true]
    omega
  | join hi _ =>
    have := hset hi .returned
    simp only [Call.work] at this
    simp only [State.work]
    omega
  | wake hphase hpending =>
    simp only [State.work, hphase, hpending, Phase.work, if_true, Bool.false_eq_true, if_false]
    omega
  | swap hphase =>
    have hscratch : s.scratch = [] := h.scratch fun rest => by
      rw [hphase]
      exact nofun
    simp only [State.work, hphase, hscratch, Phase.work, List.length_nil]
    omega
  | run hphase =>
    simp only [State.work, hphase, Phase.work, List.length_cons]
    omega
  | close hphase =>
    simp only [State.work, hphase, Phase.work, List.length_cons]
    omega
  | clear hphase =>
    simp only [State.work, hphase, Phase.work, List.length_nil]
    omega
  | exit hphase _ =>
    simp only [State.work, hphase, Phase.work]
    omega

section Stuck

/-! Where nothing but a new call can happen, each thread waits for another one.  No call has the
mutex, so the loop may take it; the loop has nothing to run, so it is in `uv_run` or has ended. -/

/-- No call has the mutex: it could push its callback. -/
lemma State.not_admitted_of_stuck
    (hstuck : ∀ a : Action J, a.isCall = false → s.next a = none) :
    tally Call.isAdmitted s.calls = 0 := by
  by_contra hne
  obtain ⟨i, x, hi, hx⟩ := exists_of_tally_pos (Nat.pos_of_ne_zero hne)
  cases x with
  | admitted job =>
    have := hstuck (.push i) rfl
    simp only [State.next, hi] at this
    cases this
  | _ => exact absurd hx (Nat.lt_irrefl 0)

/-- The calls have returned, or wait for the thread of the loop to end. -/
lemma State.call_of_stuck (hstuck : ∀ a : Action J, a.isCall = false → s.next a = none)
    {x : Call J} (hi : s.calls[i]? = some x) :
    x = .joining ∧ s.phase ≠ .exited ∨ x = .returned := by
  have hpush := hstuck (.push i) rfl
  have hlock := hstuck (.lock i) rfl
  have hnotify := hstuck (.notify i) rfl
  have hjoin := hstuck (.join i) rfl
  simp only [State.next, hi] at hpush hlock hnotify hjoin
  cases x with
  | admitted job => cases hpush
  | notifying => cases hnotify
  | exchanged onLoop =>
    simp only [State.not_admitted_of_stuck hstuck, if_true] at hlock
    cases hlock
  | closing onLoop => cases hnotify
  | joining =>
    refine .inl ⟨rfl, fun hphase => ?_⟩
    simp only [hphase] at hjoin
    cases hjoin
  | returned => exact .inr rfl

/-- No call is anywhere else. -/
lemma State.tally_of_stuck (hstuck : ∀ a : Action J, a.isCall = false → s.next a = none)
    {f : Call J → ℕ} (hjoining : f .joining = 0) (hreturned : f .returned = 0) :
    tally f s.calls = 0 := by
  by_contra hne
  obtain ⟨i, x, hi, hx⟩ := exists_of_tally_pos (Nat.pos_of_ne_zero hne)
  rcases State.call_of_stuck hstuck hi with ⟨rfl, -⟩ | rfl <;> omega

/-- The loop has nothing to run: it waits in `uv_run`, or its thread has ended. -/
lemma State.phase_of_stuck (hstuck : ∀ a : Action J, a.isCall = false → s.next a = none) :
    s.phase = .polling ∨ s.phase = .exited := by
  cases hphase : s.phase with
  | called =>
    have := hstuck .swap rfl
    simp only [State.next, hphase, State.not_admitted_of_stuck hstuck, if_true] at this
    cases this
  | draining rest =>
    have hrun := hstuck .run rfl
    have hclear := hstuck .clear rfl
    simp only [State.next, hphase] at hrun hclear
    rcases rest with - | ⟨job | -, rest⟩
    · cases hclear
    · cases hrun
    · cases hrun
  | polling => exact .inl rfl
  | exited => exact .inr rfl

/-- A loop that waits in `uv_run` is not about to be closed, and its queue is empty: it would have
been woken up, or a call would be about to wake it. -/
lemma State.Inv.polling_of_stuck (h : s.Inv)
    (hstuck : ∀ a : Action J, a.isCall = false → s.next a = none) (hphase : s.phase = .polling) :
    s.backlog = [] ∧ s.stopping = false := by
  have hnone := fun {f : Call J → ℕ} => @State.tally_of_stuck J s hstuck f
  have hwake := hstuck .wake rfl
  have hexit := hstuck .exit rfl
  simp only [State.next, hphase] at hwake hexit
  have hclosed : s.closed = false := by
    by_contra hne
    rw [Bool.not_eq_false] at hne
    rw [if_pos hne] at hexit
    cases hexit
  have hqueue : s.queue = [] := by
    by_contra hne
    rcases h.woken hne with hpending | hsending | hcalled
    · rw [if_pos ⟨hpending, hclosed⟩] at hwake
      cases hwake
    · rw [hnone rfl rfl] at hsending
      exact Nat.lt_irrefl 0 hsending
    · rw [hphase] at hcalled
      cases hcalled
  have hempty : s.backlog = [] := by
    rw [State.backlog, hphase, hqueue]
    rfl
  refine ⟨hempty, ?_⟩
  -- the callback of `stop` would still be in the queue
  obtain ⟨jobs, hbacklog, -⟩ := h.fifo
  rw [hempty] at hbacklog
  obtain ⟨-, hseal⟩ := List.append_eq_nil_iff.mp hbacklog.symm
  by_contra hstopping
  rw [Bool.not_eq_false] at hstopping
  rw [State.seal, if_pos ⟨⟨hstopping, hnone rfl rfl⟩, hclosed⟩] at hseal
  cases hseal

/-- Where nothing but a new call can happen, everything has been done. -/
lemma State.Inv.stuck (h : s.Inv) (hstuck : ∀ a : Action J, a.isCall = false → s.next a = none) :
    s.executed = s.accepted ∧ s.backlog = [] ∧ (∀ call ∈ s.calls, call = .returned) ∧
      (s.stopping = true ↔ s.phase = .exited) := by
  have hexecuted : s.backlog = [] → s.executed = s.accepted := by
    intro hempty
    obtain ⟨jobs, hbacklog, haccepted⟩ := h.fifo
    rw [hempty] at hbacklog
    obtain ⟨hjobs, -⟩ := List.append_eq_nil_iff.mp hbacklog.symm
    rwa [List.map_eq_nil_iff.mp hjobs, List.append_nil] at haccepted
  rcases State.phase_of_stuck hstuck with hphase | hphase
  · obtain ⟨hempty, hstopping⟩ := h.polling_of_stuck hstuck hphase
    refine ⟨hexecuted hempty, hempty, fun call hmem => ?_, ?_⟩
    · obtain ⟨i, hi⟩ := List.getElem?_of_mem hmem
      rcases State.call_of_stuck hstuck hi with ⟨rfl, -⟩ | hreturned
      · -- a call of `stop` that joins has set `stopping_`
        have hone : Call.isStop .joining ≤ tally Call.isStop s.calls := le_tally hi
        rw [h.stops hone] at hstopping
        cases hstopping
      · exact hreturned
    · rw [hphase, hstopping]
      exact iff_of_false Bool.false_ne_true nofun
  · obtain ⟨hsealed, hempty⟩ := h.closed (h.exited hphase)
    refine ⟨hexecuted hempty, hempty, fun call hmem => ?_, iff_of_true hsealed.1 hphase⟩
    obtain ⟨i, hi⟩ := List.getElem?_of_mem hmem
    rcases State.call_of_stuck hstuck hi with ⟨-, hne⟩ | hreturned
    · exact absurd hphase hne
    · exact hreturned

end Stuck

/-! ### Runs -/

/-- The invariant holds in every state of a run. -/
lemma inv_of_run {trace : List (State J × Action J)} (h : Run State.next {} trace s) : s.Inv :=
  h.invariant (fun _ _ _ hs hnext => hs.next hnext) State.inv_start

/-- In every run, whatever the threads do: callbacks are executed once each, in the order in which
they were accepted, and the callback of `stop` after all of them.  While the queue is not empty, the
loop was woken up, or a call is about to wake it, or it is about to take the queue.  Once `stopping_`
is set, at most one more callback is accepted.  Once the handle is being closed, all callbacks have
been executed and none is accepted any more; so it is when `join` returns in `stop`. -/
theorem runtime_sound {trace : List (State J × Action J)} (h : Run State.next {} trace s) :
    (∃ jobs, s.backlog = jobs.map .callback ++ s.seal ∧ s.executed ++ jobs = s.accepted) ∧
      (s.queue ≠ [] →
        s.pending = true ∨ 0 < tally Call.isSending s.calls ∨ s.phase = .called) ∧
      (∀ trace' t, Run State.next s trace' t → s.stopping = true →
        ∃ jobs, t.accepted = s.accepted ++ jobs ∧ jobs.length ≤ 1) ∧
      (∀ trace' t, Run State.next s trace' t → s.closed = true →
        t.executed = s.accepted ∧ t.accepted = s.accepted) ∧
      ∀ i t, s.next (.join i) = some t → s.executed = s.accepted := by
  have hinv := inv_of_run h
  have hlate : ∀ trace' t, Run State.next s trace' t → s.stopping = true →
      t.Late s.accepted (tally Call.isAdmitted s.calls) := fun trace' t hrun hstopping =>
    hrun.invariant (fun _ _ _ hs hnext => hs.next hnext)
      ⟨hstopping, [], (List.append_nil _).symm, by simp⟩
  have hdone : ∀ {u : State J}, u.Inv → u.closed = true → u.executed = u.accepted := by
    intro u hu hclosed
    obtain ⟨jobs, hbacklog, haccepted⟩ := hu.fifo
    rw [(hu.closed hclosed).2] at hbacklog
    obtain ⟨hjobs, -⟩ := List.append_eq_nil_iff.mp hbacklog.symm
    rwa [List.map_eq_nil_iff.mp hjobs, List.append_nil] at haccepted
  refine ⟨hinv.fifo, hinv.woken, fun trace' t hrun hstopping => ?_,
    fun trace' t hrun hclosed => ?_, fun i t hnext => ?_⟩
  · obtain ⟨-, jobs, hjobs, hcount⟩ := hlate trace' t hrun hstopping
    have := hinv.exclusive
    exact ⟨jobs, hjobs, by omega⟩
  · obtain ⟨hsealed, -⟩ := hinv.closed hclosed
    obtain ⟨-, jobs, hjobs, hcount⟩ := hlate trace' t hrun hsealed.1
    rw [hinv.quiet hsealed, Nat.le_zero, Nat.add_eq_zero_iff, List.length_eq_zero_iff] at hcount
    rw [hcount.1, List.append_nil] at hjobs
    have hinv' : t.Inv := hrun.invariant (fun _ _ _ hs hnext => hs.next hnext) hinv
    have hclosed' : t.closed = true :=
      hrun.invariant (I := fun u => u.closed = true)
        (fun _ _ _ hs hnext => State.closed_of_next hnext hs) hclosed
    exact ⟨(hdone hinv' hclosed').trans hjobs, hjobs⟩
  · cases State.stepped hnext with
    | join _ hphase => exact hdone hinv (hinv.exited hphase)

/-- A callback that is posted while `stop` comes in, and the one of `stop` in the same batch. -/
theorem runtime_sound_of_stop :
    ∃ (trace : List (State ℕ × Action ℕ)) (s : State ℕ), Run State.next {} trace s ∧
      s.executed = [1, 2] ∧ s.accepted = [1, 2] := by
  obtain ⟨s, t, hs, ht, haccepted⟩ : ∃ s t : State ℕ,
      perform State.next {} [.post false (some 1), .push 0, .notify 0, .post false (some 2),
        .stop false, .push 1, .post false (some 3), .lock 2, .wake, .swap, .run, .run, .run, .clear,
        .exit, .notify 2, .notify 1] = some s ∧ s.next (.join 2) = some t ∧ s.accepted = [1, 2] :=
    ⟨_, _, rfl, rfl, rfl⟩
  obtain ⟨trace, hrun⟩ := run_of_perform hs
  exact ⟨trace, s, hrun, ((runtime_sound hrun).2.2.2.2 2 t ht).trans haccepted, haccepted⟩

/-- While no further calls come, only a bounded number of steps can be made, and where no step is
possible any more, the calls have returned, all accepted callbacks have been executed, and the thread
of the loop has ended if and only if `stop` was called. -/
theorem runtime_drains {trace trace' : List (State J × Action J)} (h : Run State.next {} trace s)
    (h' : Run State.next s trace' t) (hcalls : ∀ v ∈ trace', v.2.isCall = false) :
    trace'.length + t.work ≤ s.work ∧
      ((∀ a : Action J, a.isCall = false → t.next a = none) →
        t.executed = t.accepted ∧ t.backlog = [] ∧ (∀ call ∈ t.calls, call = .returned) ∧
          (t.stopping = true ↔ t.phase = .exited)) := by
  have hinv := inv_of_run h
  have hinv' : t.Inv := h'.invariant (fun _ _ _ hs hnext => hs.next hnext) hinv
  refine ⟨?_, hinv'.stuck⟩
  clear hinv'
  induction h' with
  | start => exact (Nat.zero_add _).le
  | @step trace' t u a hrun hnext ih =>
    have hle := ih fun v hv => hcalls v (List.mem_append_left _ hv)
    have hinv' : t.Inv := hrun.invariant (fun _ _ _ hs hnext => hs.next hnext) hinv
    have hlt := hinv'.work_lt (hcalls (t, a) (by simp)) hnext
    rw [List.length_append, List.length_singleton]
    omega

/-- A callback whose call is in progress when `stop` is called: where no step is possible any more, it
has been executed, both calls have returned, and the thread of the loop has ended. -/
theorem runtime_drains_of_stop :
    ∃ (trace trace' : List (State ℕ × Action ℕ)) (s t : State ℕ), Run State.next {} trace s ∧
      Run State.next s trace' t ∧ trace'.length = 11 ∧ s.executed = [] ∧ 11 + t.work ≤ s.work ∧
      t.executed = [1] ∧ t.backlog = [] ∧ t.calls = [.returned, .returned] ∧ t.phase = .exited := by
  obtain ⟨s, t, hs, ht, hnothing, hcalls, hphase, haccepted⟩ : ∃ s t : State ℕ,
      perform State.next {} [.post false (some 1), .stop false] = some s ∧
        perform State.next s [.push 0, .lock 1, .notify 1, .wake, .swap, .run, .run, .clear, .exit,
          .notify 0, .join 1] = some t ∧ s.executed = [] ∧ t.calls = [.returned, .returned] ∧
        t.phase = .exited ∧ t.accepted = [1] := ⟨_, _, rfl, rfl, rfl, rfl, rfl, rfl⟩
  obtain ⟨trace, hrun⟩ := run_of_perform hs
  obtain ⟨trace', hrun', hactions⟩ := exists_run_of_perform ht
  have hquiet : ∀ v ∈ trace', v.2.isCall = false := by
    intro v hv
    have hmem : v.2 ∈ trace'.map Prod.snd := List.mem_map_of_mem hv
    rw [hactions] at hmem
    revert hmem
    simp only [List.mem_cons, List.not_mem_nil, or_false]
    rintro (h | h | h | h | h | h | h | h | h | h | h) <;> rw [h] <;> rfl
  have hlength : trace'.length = 11 := by
    rw [← List.length_map (f := Prod.snd), hactions]
    rfl
  obtain ⟨hbound, hdone⟩ := runtime_drains hrun hrun' hquiet
  have hreturned : ∀ {i : ℕ} {call : Call ℕ}, t.calls[i]? = some call → call = .returned := by
    intro i call hi
    have hmem := List.mem_of_getElem? hi
    rw [hcalls] at hmem
    simpa using hmem
  obtain ⟨hexecuted, hbacklog, -, -⟩ := hdone fun a ha => by
    cases hnext : t.next a with
    | none => rfl
    | some u =>
      cases State.stepped hnext with
      | ignored | direct | enter | again | exchange => cases ha
      | push hi | lock hi | notify hi | leave hi | join hi => cases hreturned hi
      | wake h | swap h | run h | close h | clear h | exit h => rw [hphase] at h; cases h
  rw [hlength] at hbound
  exact ⟨trace, trace', s, t, hrun, hrun', hlength, hnothing, hbound, hexecuted.trans haccepted,
    hbacklog, hcalls, hphase⟩

end Runtime

end Chhttp
