import Chhttp.Client.Pool

/-!
# What the steps of the client do to its pool

A request uses a slot while it connects or holds a lease, and is bound to a connection while it has
one.  `Moves` lists what an event of a request can do to the pool and its queues; an event does
nothing else (`moves_of_event`).  The invariants of the pool are proved of these moves.
-/

namespace Chhttp.AsyncClient

namespace RequestState

variable {K : Type*}

/-- The request uses a slot of its origin. -/
def usesSlot (r : RequestState K) : Bool :=
  match r.stage with
  | .connecting _ => true
  | .leased _ _ _ => true
  | _ => false

/-- The request neither waits nor uses a slot.  Events of such a request cannot free anything, and
they need not wake anyone. -/
structure Idle (r : RequestState K) : Prop where
  usesSlot : r.usesSlot = false
  bound : Impl.boundConnection r = none
  waiter : r.waiter = none

/-- Where a request is idle. -/
lemma Idle.of_stage {r : RequestState K}
    (h : r.stage = .checking ∨ r.stage = .exchanging ∨ r.stage = .acquiring) :
    r.Idle := by
  rcases h with h | h | h <;>
    exact ⟨by rw [RequestState.usesSlot, h], by rw [Impl.boundConnection, h],
      by rw [RequestState.waiter, h]⟩

/-- The request uses a slot, and its connection is `c`.  It has one slot for one connection, which
is what the account of the origin relies on. -/
structure Holds (r : RequestState K) (c : ℕ) : Prop where
  usesSlot : r.usesSlot = true
  bound : Impl.boundConnection r = some c
  waiter : r.waiter = none

/-- Where a request holds a connection. -/
lemma Holds.of_stage {r : RequestState K} {c : ℕ}
    (h : r.stage = .connecting (some c) ∨ ∃ reused phase, r.stage = .leased c reused phase) :
    r.Holds c := by
  rcases h with h | ⟨reused, phase, h⟩ <;>
    exact ⟨by rw [RequestState.usesSlot, h], by rw [Impl.boundConnection, h],
      by rw [RequestState.waiter, h]⟩

/-- A waiter may have been notified, but it has not left the queue and has got no slot. -/
def WaiterKept (w w' : Option PoolWaiter) : Prop :=
  w' = w ∨ ∃ v, w = some v ∧ w' = some v.notify

/-- The request holds what it held.  An event that only moves the request on in its code is of this
kind. -/
structure Keeps (r r' : RequestState K) : Prop where
  key : r'.key = r.key
  usesSlot : r'.usesSlot = r.usesSlot
  bound : Impl.boundConnection r' = Impl.boundConnection r
  notifiedOrigin : r'.notifiedOrigin = r.notifiedOrigin
  waiter : WaiterKept r.waiter r'.waiter
  finished : r'.stage = .finished → r.stage = .finished

/-- A field that the pool does not concern may change. -/
lemma Keeps.of_stage {r r' : RequestState K} (hkey : r'.key = r.key) (hstage : r'.stage = r.stage)
    (hnotified : r'.notifiedOrigin = r.notifiedOrigin) : Keeps r r' := by
  refine ⟨hkey, ?_, ?_, hnotified, Or.inl ?_, fun h => hstage ▸ h⟩
  · simp only [RequestState.usesSlot, hstage]
  · simp only [Impl.boundConnection, hstage]
  · simp only [RequestState.waiter, hstage]

/-- An idle request may be idle elsewhere. -/
lemma Keeps.of_idle {r r' : RequestState K} (h : r.Idle) (h' : r'.Idle) (hkey : r'.key = r.key)
    (hnotified : r'.notifiedOrigin = r.notifiedOrigin) (hgoes : r'.stage ≠ .finished) :
    Keeps r r' :=
  ⟨hkey, h'.usesSlot.trans h.usesSlot.symm, h'.bound.trans h.bound.symm, hnotified,
    Or.inl (h'.waiter.trans h.waiter.symm), fun hfinished => absurd hfinished hgoes⟩

/-- A request keeps the connection that it holds. -/
lemma Keeps.of_holds {r r' : RequestState K} {c : ℕ} (h : r.Holds c) (h' : r'.Holds c)
    (hkey : r'.key = r.key) (hnotified : r'.notifiedOrigin = r.notifiedOrigin)
    (hgoes : r'.stage ≠ .finished) : Keeps r r' :=
  ⟨hkey, h'.usesSlot.trans h.usesSlot.symm, h'.bound.trans h.bound.symm, hnotified,
    Or.inl (h'.waiter.trans h.waiter.symm), fun hfinished => absurd hfinished hgoes⟩

/-- A waiting request may be notified. -/
lemma Keeps.of_notify {r : RequestState K} {w : PoolWaiter} {inAcquire : Bool}
    (hstage : r.stage = .waiting w inAcquire) :
    Keeps r { r with stage := .waiting w.notify inAcquire } := by
  refine ⟨rfl, ?_, ?_, rfl, Or.inr ⟨w, ?_, rfl⟩, by simp⟩
  · simp only [RequestState.usesSlot, hstage]
  · simp only [Impl.boundConnection, hstage]
  · simp only [RequestState.waiter, hstage]

end RequestState

namespace Impl

variable {K : Type*} [DecidableEq K]

/-- How a request that is no longer bound gives its slot back: the connection, if there was one, has
been closed, or it goes into the pool. -/
inductive GivesBack (options : PoolOptions) (r : RequestState K) (s : Impl K) : Impl K → Prop where
  | drop (isOpen : ℕ → Bool) : GivesBack options r s ({ s with isOpen }.releaseSlot r.key)
  | pool {c : ℕ} (hbound : boundConnection r = some c)
      (hroom : (s.pool r.key).length < options.connectionPoolSize) :
      GivesBack options r s
        ({ s with pool := Function.update s.pool r.key (c :: s.pool r.key) }.wakePoolWaiter r.key)

/-- What an event of request `i`, which is in state `r`, can do.  It says what each event means for
the pool, the counters and the queues, and it leaves out everything else about the request. -/
inductive Moves (options : PoolOptions) (s : Impl K) (i : ℕ) (r : RequestState K) :
    Impl K → Prop where
  | keep {r' : RequestState K} (isOpen : ℕ → Bool) (h : r.Keeps r') :
      Moves options s i r { s.put i r' with isOpen }
  | resume {w : PoolWaiter} {inAcquire : Bool} {stage : Stage}
      (hwaiting : r.stage = .waiting w inAcquire)
      (hstage : stage = .acquiring ∨ stage = .checking) :
      Moves options s i r (s.awaitResume i r { w with completed := true } stage)
  | exit (hidle : r.Idle) : Moves options s i r (s.exit i r.poll)
  | suspend (inAcquire : Bool) (hidle : r.Idle) (hlimit : options.maxConnectionsPerOrigin ≠ 0)
      (hcount : options.maxConnectionsPerOrigin ≤ s.connectionCounts r.key)
      (hpool : s.pool r.key = []) :
      Moves options s i r (s.awaitSuspend i r inAcquire)
  | acquire (hidle : r.Idle) : Moves options s i r (s.acquire options i r)
  | connect (isOpen : ℕ → Bool) (hstage : r.stage = .connecting none) :
      Moves options s i r
        ({ s with isOpen, connections := s.connections + 1 }.put i
          { r with stage := .connecting (some s.connections) })
  | leave {r' : RequestState K} {t : Impl K} {handedOn : Option K}
      (huses : r.usesSlot = true) (hidle : r'.Idle) (hback : GivesBack options r (s.put i r') t)
      (hnotified : r'.notifiedOrigin = none ∨ r'.notifiedOrigin = r.notifiedOrigin)
      (hhanded : handedOn = none ∨ handedOn = r.notifiedOrigin) :
      Moves options s i r (passOn handedOn t)

section

variable {options : PoolOptions} {s : Impl K} {i : ℕ} {r : RequestState K}

/-- A request that exits with its slot gives it back. -/
lemma Moves.exit_leave {last : Impl K → Impl K} (huses : r.usesSlot = true)
    (hback : ∀ t, GivesBack options r t (last t)) : Moves options s i r (s.exit i r.poll last) :=
  .leave huses ⟨rfl, rfl, rfl⟩ (hback _) (Or.inl rfl) (Or.inr rfl)

/-- The end of a failed attempt gives the slot back. -/
lemma moves_failAttempt {c : ℕ} {retry : Bool} (huses : r.usesSlot = true) :
    Moves options s i r (s.failAttempt i r c retry) := by
  have hdiscard : ∀ t : Impl K, GivesBack options r t (t.discard r.key c) := fun t => .drop _
  unfold failAttempt
  dsimp only
  split_ifs
  · exact @Moves.leave _ _ _ _ _ _ _ _ none huses ⟨rfl, rfl, rfl⟩ (hdiscard _) (Or.inr rfl)
      (Or.inl rfl)
  · exact .exit_leave huses hdiscard

/-- A lease that is released gives its slot back, or its connection goes into the pool. -/
lemma givesBack_release {c : ℕ} (reusable : Bool) (hbound : boundConnection r = some c)
    (t : Impl K) : GivesBack options r t (t.release options r.key c reusable) := by
  unfold release
  split_ifs with hdrop hroom
  · exact .drop _
  · exact .pool hbound hroom
  · exact .drop _

/-- What follows a response gives the slot back. -/
lemma moves_follow {next : Follow K} {last : Impl K → Impl K} (huses : r.usesSlot = true)
    (hback : ∀ t, GivesBack options r t (last t)) : Moves options s i r (s.follow i r next last) := by
  cases next with
  | finish => exact .leave huses ⟨rfl, rfl, rfl⟩ (hback _) (Or.inl rfl) (Or.inr rfl)
  | again key retryable =>
    exact @Moves.leave _ _ _ _ _ _ _ _ none huses ⟨rfl, rfl, rfl⟩ (hback _) (Or.inr rfl)
      (Or.inl rfl)

/-- A request that is idle may be idle elsewhere. -/
lemma moves_idle {stage : Stage} (hidle : r.Idle)
    (hstage : stage = .exchanging ∨ stage = .acquiring) (attempt : ℕ) :
    Moves options s i r (s.put i { r with stage, attempt }) := by
  rcases hstage with rfl | rfl
  · exact .keep s.isOpen (.of_idle hidle ⟨rfl, rfl, rfl⟩ rfl rfl (by simp))
  · exact .keep s.isOpen (.of_idle hidle ⟨rfl, rfl, rfl⟩ rfl rfl (by simp))

/-- A request that holds a connection goes on with a lease of it. -/
lemma moves_lease {c : ℕ} (hholds : r.Holds c) (reused : Bool) (phase : Phase) :
    Moves options s i r (s.put i { r with stage := .leased c reused phase }) :=
  .keep s.isOpen (.of_holds hholds (.of_stage (Or.inr ⟨_, _, rfl⟩)) rfl rfl (by simp))

/-! One lemma for each event that depends on where the request is. -/

/-- A cancelled request that waits is notified. -/
lemma moves_wakeup {s' : Impl K} (h : s.event options i r .wakeup = some s') :
    Moves options s i r s' := by
  simp only [event] at h
  split at h
  · rename_i w inAcquire hstage
    split_ifs at h
    cases h
    exact .keep s.isOpen (.of_notify hstage)
  · cases h

/-- The waiter was notified, or its request has a deadline or a flag that ends the wait. -/
lemma moves_ready {s' : Impl K} (h : s.event options i r .ready = some s') :
    Moves options s i r s' := by
  simp only [event] at h
  split at h
  · rename_i w inAcquire hstage
    split_ifs at h
    · cases h
      exact .resume hstage (Or.inl rfl)
    · cases h
      exact .resume hstage (Or.inr rfl)
  · cases h

/-- Only where the origin is full and has no idle connection does a request wait. -/
lemma moves_check {expired : Bool} {s' : Impl K}
    (h : s.event options i r (.check expired) = some s') : Moves options s i r s' := by
  simp only [event] at h
  split at h
  · rename_i hstage
    have hidle : r.Idle := RequestState.Idle.of_stage (Or.inl hstage)
    split_ifs at h with hfull hloop hgone
    · cases h
      exact moves_idle hidle (Or.inl rfl) _
    · cases h
      exact .exit hidle
    · cases h
      simp only [full, Bool.not_eq_true', Bool.not_eq_false, Bool.and_eq_true, decide_eq_true_eq,
        List.isEmpty_iff] at hfull
      exact .suspend false hidle hfull.1.1 hfull.1.2 hfull.2
  · cases h

/-- An exchange starts, or a request that was cancelled or is late exits. -/
lemma moves_exchange {expired : Bool} {s' : Impl K}
    (h : s.event options i r (.exchange expired) = some s') : Moves options s i r s' := by
  simp only [event] at h
  split at h
  · rename_i hstage
    have hidle : r.Idle := RequestState.Idle.of_stage (Or.inr (Or.inl hstage))
    split_ifs at h
    · cases h
      exact .exit hidle
    · cases h
      exact moves_idle hidle (Or.inr rfl) _
  · cases h

/-- A request goes to the pool for a lease. -/
lemma moves_acquire {expired : Bool} {s' : Impl K}
    (h : s.event options i r (.acquire expired) = some s') : Moves options s i r s' := by
  simp only [event] at h
  split at h
  · rename_i hstage
    have hidle : r.Idle := RequestState.Idle.of_stage (Or.inr (Or.inr hstage))
    split_ifs at h
    · cases h
      exact .exit hidle
    · cases h
      exact .acquire hidle
  · cases h

/-- A connect that fails gives back the slot that was reserved for it. -/
lemma moves_connect {connected : Bool} {s' : Impl K}
    (h : s.event options i r (.connect connected) = some s') : Moves options s i r s' := by
  simp only [event] at h
  split at h
  · rename_i hstage
    split_ifs at h
    · cases h
      exact .connect _ hstage
    · cases h
      refine .leave ?_ ⟨rfl, rfl, rfl⟩ (.drop s.isOpen) (Or.inl rfl) (Or.inr rfl)
      simp only [RequestState.usesSlot, hstage]
  · cases h

/-- A connection is established, and becomes a lease, or its slot is given back. -/
lemma moves_establish {established : Bool} {s' : Impl K}
    (h : s.event options i r (.establish established) = some s') : Moves options s i r s' := by
  simp only [event] at h
  split at h
  · rename_i c hstage
    have hholds : r.Holds c := .of_stage (Or.inl hstage)
    split_ifs at h
    · cases h
      exact .exit_leave hholds.usesSlot fun t => .drop _
    · cases h
      exact moves_lease hholds _ _
  · cases h

/-- A request is sent over its lease, or gives it back. -/
lemma moves_send {timedOut : Bool} {s' : Impl K}
    (h : s.event options i r (.send timedOut) = some s') : Moves options s i r s' := by
  simp only [event] at h
  split at h
  · rename_i c reused hstage
    have hholds : r.Holds c := .of_stage (Or.inr ⟨_, _, hstage⟩)
    split_ifs at h
    · cases h
      exact .exit_leave hholds.usesSlot fun t => .drop _
    · cases h
      exact moves_lease hholds _ _
  · cases h

/-- A request that was written waits for its response; one that failed may be tried again. -/
lemma moves_written {failed : Bool} {s' : Impl K}
    (h : s.event options i r (.written failed) = some s') : Moves options s i r s' := by
  simp only [event] at h
  split at h
  · rename_i c reused hstage
    have hholds : r.Holds c := .of_stage (Or.inr ⟨_, _, hstage⟩)
    split_ifs at h
    · cases h
      exact moves_failAttempt hholds.usesSlot
    · cases h
      exact moves_lease hholds _ _
  · cases h

/-- A response gives the connection back, unless the request was cancelled meanwhile. -/
lemma moves_received {result : Received K} {s' : Impl K}
    (h : s.event options i r (.received result) = some s') : Moves options s i r s' := by
  simp only [event] at h
  split at h
  · rename_i c reused hstage
    have hholds : r.Holds c := .of_stage (Or.inr ⟨_, _, hstage⟩)
    cases result with
    | failed responseStarted =>
      cases h
      exact moves_failAttempt hholds.usesSlot
    | response keepAlive next =>
      dsimp only at h
      split_ifs at h
      · cases h
        exact .exit_leave hholds.usesSlot fun t => .drop _
      · cases h
        exact moves_follow hholds.usesSlot fun t => givesBack_release _ hholds.bound t
  · cases h

/-- An event does one of these moves, and nothing else.  The accounts and the queues are invariant
because each of these moves keeps them; no other proof looks into the events. -/
theorem moves_of_event {e : Event K} {s' : Impl K} (h : s.event options i r e = some s') :
    Moves options s i r s' := by
  cases e with
  | resumeOnLoop =>
    cases h
    exact .keep s.isOpen (.of_stage rfl rfl rfl)
  | cancel =>
    cases h
    unfold cancel
    dsimp only
    split
    · exact .keep s.isOpen (.of_stage rfl rfl rfl)
    · exact .keep _ (.of_stage rfl rfl rfl)
  | raiseFlag =>
    obtain ⟨flag, -, rfl⟩ := Option.map_eq_some_iff.mp h
    exact .keep s.isOpen (.of_stage rfl rfl rfl)
  | wakeup => exact moves_wakeup h
  | ready => exact moves_ready h
  | check expired => exact moves_check h
  | exchange expired => exact moves_exchange h
  | acquire expired => exact moves_acquire h
  | connect connected => exact moves_connect h
  | establish established => exact moves_establish h
  | send timedOut => exact moves_send h
  | written failed => exact moves_written h
  | received result => exact moves_received h

end

end Impl

end Chhttp.AsyncClient
