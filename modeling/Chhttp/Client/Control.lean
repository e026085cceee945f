import Chhttp.Lib.Run

/-!
# Cancelling a request

`RequestControl` ties a request to what it is waiting for: the connection it uses and the callback
that wakes it up.  The loop binds and unbinds connections and installs callbacks, one call after
the other, while any number of threads call `cancel`.  `RequestControl.next` interleaves their
steps.  Connections, callbacks and calls of `cancel` are numbered.

A critical section of `cancel` is one step.  Those of `bind` and `set_wakeup` are two, since the
flag they look at before they leave is set without the mutex.  The control keeps a weak pointer to
the connection, which may expire at any time.
-/

namespace Chhttp

open Transition

/-- Where the loop is in `bind` or `set_wakeup`.  The source leaves its critical section before it
closes or calls anything, so `cancel` may run in between. -/
inductive LoopPhase where
  | idle
  /-- In the critical section of `bind`, before the flag is looked at. -/
  | bound (connection : ℕ)
  /-- In `bind`, about to close the connection. -/
  | closing (connection : ℕ)
  /-- In the critical section of `set_wakeup`, before the flag is looked at. -/
  | installed (wakeup : Option ℕ)
  /-- In `set_wakeup`, about to call the callback. -/
  | waking (wakeup : Option ℕ)
  deriving DecidableEq

/-- Where a call of `cancel` is.  It sets the flag, copies what is bound and installed inside the
lock, and then closes and invokes outside of it. -/
inductive CancelPhase where
  | notStarted
  | flagged
  /-- Past the critical section, with what was bound and installed there. -/
  | entered (connection wakeup : Option ℕ)
  | closed (wakeup : Option ℕ)
  | completed
  deriving DecidableEq

/-- `RequestControl`, the phases of the calls in progress, and what they have closed and invoked.
The connection is `connection_.lock()`. -/
structure RequestControl where
  cancelled : Bool := false
  connection : Option ℕ := none
  wakeup : Option ℕ := none
  loop : LoopPhase := .idle
  calls : ℕ → CancelPhase := fun _ => .notStarted
  closed : List ℕ := []
  invoked : List ℕ := []

/-- The steps of the loop and of the calls of `cancel`, and a bound connection that goes away.  A
step is what runs without interruption: an atomic access, a critical section, or a call outside of
one. -/
inductive ControlStep where
  | bind (connection : ℕ)
  | checkBound
  | closeBound
  | unbind (connection : ℕ)
  | setWakeup (wakeup : Option ℕ)
  | checkInstalled
  | invokeInstalled
  | flag (call : ℕ)
  | enter (call : ℕ)
  | close (call : ℕ)
  | invoke (call : ℕ)
  | expire
  deriving DecidableEq

namespace RequestControl

/-- Nobody is in a critical section of the loop. -/
def unlocked (s : RequestControl) : Bool :=
  match s.loop with
  | .bound _ => false
  | .installed _ => false
  | _ => true

/-- A call of `cancel` goes on to its next phase. -/
def setCall (s : RequestControl) (call : ℕ) (phase : CancelPhase) : RequestControl :=
  { s with calls := Function.update s.calls call phase }

/-- The steps of a `RequestControl`.  A step is only possible where the party that takes it stands,
and the critical sections are single steps. -/
def next (s : RequestControl) : ControlStep → Option RequestControl
  | .bind connection =>
    match s.loop with
    | .idle => some { s with connection := some connection, loop := .bound connection }
    | _ => none
  | .checkBound =>
    match s.loop with
    | .bound connection =>
      some { s with loop := if s.cancelled then .closing connection else .idle }
    | _ => none
  | .closeBound =>
    match s.loop with
    | .closing connection => some { s with loop := .idle, closed := connection :: s.closed }
    | _ => none
  | .unbind connection =>
    match s.loop with
    | .idle =>
      if s.connection = some connection then some { s with connection := none } else some s
    | _ => none
  | .setWakeup wakeup =>
    match s.loop with
    | .idle => some { s with wakeup, loop := .installed wakeup }
    | _ => none
  | .checkInstalled =>
    match s.loop with
    | .installed wakeup => some { s with loop := if s.cancelled then .waking wakeup else .idle }
    | _ => none
  | .invokeInstalled =>
    match s.loop with
    | .waking wakeup => some { s with loop := .idle, invoked := wakeup.toList ++ s.invoked }
    | _ => none
  | .flag call =>
    match s.calls call with
    | .notStarted => some ({ s with cancelled := true }.setCall call .flagged)
    | _ => none
  | .enter call =>
    match s.calls call with
    | .flagged =>
      if s.unlocked then some (s.setCall call (.entered s.connection s.wakeup)) else none
    | _ => none
  | .close call =>
    match s.calls call with
    | .entered connection wakeup =>
      some ({ s with closed := connection.toList ++ s.closed }.setCall call (.closed wakeup))
    | _ => none
  | .invoke call =>
    match s.calls call with
    | .closed wakeup =>
      some ({ s with invoked := wakeup.toList ++ s.invoked }.setCall call .completed)
    | _ => none
  | .expire => some { s with connection := none }

/-! ### What a step does -/

/-- The steps of the loop and of the environment: they leave the calls of `cancel` alone. -/
inductive LoopMoves (s : RequestControl) : ControlStep → RequestControl → Prop where
  | bind {c : ℕ} (h : s.loop = .idle) :
      LoopMoves s (.bind c) { s with connection := some c, loop := .bound c }
  | checkBound {c : ℕ} (h : s.loop = .bound c) :
      LoopMoves s .checkBound { s with loop := if s.cancelled then .closing c else .idle }
  | closeBound {c : ℕ} (h : s.loop = .closing c) :
      LoopMoves s .closeBound { s with loop := .idle, closed := c :: s.closed }
  | unbind {c : ℕ} {connection : Option ℕ} (h : s.loop = .idle) :
      LoopMoves s (.unbind c) { s with connection }
  | setWakeup {w : Option ℕ} (h : s.loop = .idle) :
      LoopMoves s (.setWakeup w) { s with wakeup := w, loop := .installed w }
  | checkInstalled {w : Option ℕ} (h : s.loop = .installed w) :
      LoopMoves s .checkInstalled { s with loop := if s.cancelled then .waking w else .idle }
  | invokeInstalled {w : Option ℕ} (h : s.loop = .waking w) :
      LoopMoves s .invokeInstalled { s with loop := .idle, invoked := w.toList ++ s.invoked }
  | expire : LoopMoves s .expire { s with connection := none }

/-- The steps of a call of `cancel`: they leave the loop alone. -/
inductive CallMoves (s : RequestControl) (k : ℕ) : ControlStep → RequestControl → Prop where
  | flag (h : s.calls k = .notStarted) :
      CallMoves s k (.flag k) ({ s with cancelled := true }.setCall k .flagged)
  | enter (h : s.calls k = .flagged) :
      CallMoves s k (.enter k) (s.setCall k (.entered s.connection s.wakeup))
  | close {c w : Option ℕ} (h : s.calls k = .entered c w) :
      CallMoves s k (.close k) ({ s with closed := c.toList ++ s.closed }.setCall k (.closed w))
  | invoke {w : Option ℕ} (h : s.calls k = .closed w) :
      CallMoves s k (.invoke k) ({ s with invoked := w.toList ++ s.invoked }.setCall k .completed)

/-- Every step is a step of the loop or of a call.  The invariants below are proved by cases on
these moves and never unfold the step function. -/
theorem moves_of_next {s t : RequestControl} {a : ControlStep} (h : s.next a = some t) :
    LoopMoves s a t ∨ ∃ k, CallMoves s k a t := by
  cases a with
  | bind c =>
    cases hloop : s.loop <;> simp only [next, hloop, reduceCtorEq] at h
    cases h
    exact Or.inl (LoopMoves.bind hloop)
  | checkBound =>
    cases hloop : s.loop <;> simp only [next, hloop, reduceCtorEq] at h
    cases h
    exact Or.inl (LoopMoves.checkBound hloop)
  | closeBound =>
    cases hloop : s.loop <;> simp only [next, hloop, reduceCtorEq] at h
    cases h
    exact Or.inl (LoopMoves.closeBound hloop)
  | unbind c =>
    simp only [next] at h
    split at h
    · rename_i hloop
      left
      -- the slot is cleared only if it still holds this connection
      split_ifs at h
      · cases h
        exact LoopMoves.unbind hloop
      · cases h
        exact @LoopMoves.unbind s c s.connection hloop
    · cases h
  | setWakeup w =>
    cases hloop : s.loop <;> simp only [next, hloop, reduceCtorEq] at h
    cases h
    exact Or.inl (LoopMoves.setWakeup hloop)
  | checkInstalled =>
    cases hloop : s.loop <;> simp only [next, hloop, reduceCtorEq] at h
    cases h
    exact Or.inl (LoopMoves.checkInstalled hloop)
  | invokeInstalled =>
    cases hloop : s.loop <;> simp only [next, hloop, reduceCtorEq] at h
    cases h
    exact Or.inl (LoopMoves.invokeInstalled hloop)
  | flag k =>
    cases hcall : s.calls k <;> simp only [next, hcall, reduceCtorEq] at h
    cases h
    exact Or.inr ⟨k, CallMoves.flag hcall⟩
  | enter k =>
    cases hcall : s.calls k <;> simp only [next, hcall, reduceCtorEq] at h
    split_ifs at h
    cases h
    exact Or.inr ⟨k, CallMoves.enter hcall⟩
  | close k =>
    cases hcall : s.calls k <;> simp only [next, hcall, reduceCtorEq] at h
    cases h
    exact Or.inr ⟨k, CallMoves.close hcall⟩
  | invoke k =>
    cases hcall : s.calls k <;> simp only [next, hcall, reduceCtorEq] at h
    cases h
    exact Or.inr ⟨k, CallMoves.invoke hcall⟩
  | expire =>
    cases h
    exact Or.inl LoopMoves.expire

variable {s t : RequestControl} {a : ControlStep} {k : ℕ}

/-- The loop leaves the calls alone. -/
lemma LoopMoves.calls (h : LoopMoves s a t) : t.calls = s.calls := by
  cases h <;> rfl

/-- The flag stays set, and what was closed or invoked stays so.  So what is known of a state of a
run is known of all later ones. -/
theorem next_mono (h : s.next a = some t) :
    (s.cancelled = true → t.cancelled = true) ∧ s.closed ⊆ t.closed ∧ s.invoked ⊆ t.invoked := by
  rcases moves_of_next h with h | ⟨k, h⟩
  · cases h <;> simp
  · cases h <;> simp [setCall]

/-- A call leaves the others alone. -/
lemma CallMoves.calls_of_ne (h : CallMoves s k a t) {j : ℕ} (hj : j ≠ k) :
    t.calls j = s.calls j := by
  cases h <;> exact Function.update_of_ne hj _ _

/-- A call leaves the loop alone. -/
lemma CallMoves.loop (h : CallMoves s k a t) : t.loop = s.loop := by
  cases h <;> rfl

/-- Only its own steps take a call to its next phase. -/
lemma calls_next (h : s.next a = some t) (k : ℕ) : t.calls k = s.calls k ∨ CallMoves s k a t := by
  rcases moves_of_next h with hm | ⟨j, hm⟩
  · exact Or.inl (congrFun hm.calls k)
  · by_cases hk : k = j
    · subst hk
      exact Or.inr hm
    · exact Or.inl (hm.calls_of_ne hk)

/-- Only the steps of the loop take it to its next phase. -/
lemma loop_next (h : s.next a = some t) : t.loop = s.loop ∨ LoopMoves s a t := by
  rcases moves_of_next h with hm | ⟨k, hm⟩
  · exact Or.inr hm
  · exact Or.inl hm.loop

/-! ### Invariants -/

/-- A call that has started has set the flag. -/
def Flagged (s : RequestControl) : Prop := ∀ k, s.calls k ≠ .notStarted → s.cancelled = true

/-- The flag is set before a call goes on. -/
lemma Flagged.next (hs : s.Flagged) (h : s.next a = some t) : t.Flagged := by
  have hmono := (next_mono h).1
  intro j hj
  rcases calls_next h j with hsame | hm
  · rw [hsame] at hj
    exact hmono (hs j hj)
  · cases hm with
    | flag => rfl
    | enter hphase => exact hmono (hs j (by rw [hphase]; exact CancelPhase.noConfusion))
    | close hphase => exact hmono (hs j (by rw [hphase]; exact CancelPhase.noConfusion))
    | invoke hphase => exact hmono (hs j (by rw [hphase]; exact CancelPhase.noConfusion))

/-- A call that saw a connection closes it. -/
def WillClose (k c : ℕ) (s : RequestControl) : Prop :=
  (∃ w, s.calls k = .entered (some c) w) ∨ c ∈ s.closed

/-- It does not forget the connection. -/
lemma WillClose.next {c : ℕ} (hs : WillClose k c s) (h : s.next a = some t) : WillClose k c t := by
  rcases hs with ⟨w, hw⟩ | hs
  · rcases calls_next h k with hsame | hm
    · exact Or.inl ⟨w, hsame.trans hw⟩
    · cases hm with
      | close hphase =>
        rw [hw] at hphase
        cases hphase
        exact Or.inr List.mem_cons_self
      | _ hphase =>
        rw [hw] at hphase
        cases hphase
  · exact Or.inr ((next_mono h).2.1 hs)

/-- A call that saw a callback invokes it. -/
def WillInvoke (k w : ℕ) (s : RequestControl) : Prop :=
  (∃ c, s.calls k = .entered c (some w)) ∨ s.calls k = .closed (some w) ∨ w ∈ s.invoked

/-- It does not forget the callback. -/
lemma WillInvoke.next {w : ℕ} (hs : WillInvoke k w s) (h : s.next a = some t) :
    WillInvoke k w t := by
  rcases hs with ⟨c, hc⟩ | hc | hs
  · rcases calls_next h k with hsame | hm
    · exact Or.inl ⟨c, hsame.trans hc⟩
    · cases hm with
      | close hphase =>
        rw [hc] at hphase
        cases hphase
        exact Or.inr (Or.inl (Function.update_self _ _ _))
      | _ hphase =>
        rw [hc] at hphase
        cases hphase
  · rcases calls_next h k with hsame | hm
    · exact Or.inr (Or.inl (hsame.trans hc))
    · cases hm with
      | invoke hphase =>
        rw [hc] at hphase
        cases hphase
        exact Or.inr (Or.inr List.mem_cons_self)
      | _ hphase =>
        rw [hc] at hphase
        cases hphase
  · exact Or.inr (Or.inr ((next_mono h).2.2 hs))

/-- `bind` has not returned yet.  It will still look at the flag, or has seen it and closes the
connection itself. -/
def Binding (c : ℕ) (s : RequestControl) : Prop := s.loop = .bound c ∨ s.loop = .closing c

/-- `set_wakeup` has not returned yet.  It will still look at the flag, or has seen it and calls the
callback itself. -/
def Installing (w : ℕ) (s : RequestControl) : Prop :=
  s.loop = .installed (some w) ∨ s.loop = .waking (some w)

/-- Once the flag is set, `bind` closes its connection before it returns. -/
lemma bound_closed_next {c : ℕ} (hs : s.cancelled = true ∧ (Binding c s ∨ c ∈ s.closed))
    (h : s.next a = some t) : t.cancelled = true ∧ (Binding c t ∨ c ∈ t.closed) := by
  obtain ⟨hcancelled, hs⟩ := hs
  refine ⟨(next_mono h).1 hcancelled, ?_⟩
  rcases hs with (hs | hs) | hs
  · rcases loop_next h with hsame | hm
    · exact Or.inl (Or.inl (hsame.trans hs))
    · cases hm with
      | checkBound hphase =>
        rw [hs] at hphase
        cases hphase
        exact Or.inl (Or.inr (if_pos hcancelled))
      | expire => exact Or.inl (Or.inl hs)
      | _ hphase =>
        rw [hs] at hphase
        cases hphase
  · rcases loop_next h with hsame | hm
    · exact Or.inl (Or.inr (hsame.trans hs))
    · cases hm with
      | closeBound hphase =>
        rw [hs] at hphase
        cases hphase
        exact Or.inr List.mem_cons_self
      | expire => exact Or.inl (Or.inr hs)
      | _ hphase =>
        rw [hs] at hphase
        cases hphase
  · exact Or.inr ((next_mono h).2.1 hs)

/-- Once the flag is set, `set_wakeup` invokes its callback before it returns. -/
lemma installed_invoked_next {w : ℕ} (hs : s.cancelled = true ∧ (Installing w s ∨ w ∈ s.invoked))
    (h : s.next a = some t) : t.cancelled = true ∧ (Installing w t ∨ w ∈ t.invoked) := by
  obtain ⟨hcancelled, hs⟩ := hs
  refine ⟨(next_mono h).1 hcancelled, ?_⟩
  rcases hs with (hs | hs) | hs
  · rcases loop_next h with hsame | hm
    · exact Or.inl (Or.inl (hsame.trans hs))
    · cases hm with
      | checkInstalled hphase =>
        rw [hs] at hphase
        cases hphase
        exact Or.inl (Or.inr (if_pos hcancelled))
      | expire => exact Or.inl (Or.inl hs)
      | _ hphase =>
        rw [hs] at hphase
        cases hphase
  · rcases loop_next h with hsame | hm
    · exact Or.inl (Or.inr (hsame.trans hs))
    · cases hm with
      | invokeInstalled hphase =>
        rw [hs] at hphase
        cases hphase
        exact Or.inr List.mem_cons_self
      | expire => exact Or.inl (Or.inr hs)
      | _ hphase =>
        rw [hs] at hphase
        cases hphase
  · exact Or.inr ((next_mono h).2.2 hs)

/-- No cancellation is lost.  Take a call of `cancel` that entered its critical section in some
state of a run and has completed since: what was bound then was closed, what was installed then was
invoked, and so was everything that was bound or installed afterwards by a call that has
returned. -/
theorem cancellation_not_lost {before after : List (RequestControl × ControlStep)}
    {u u' v : RequestControl} {call : ℕ} (hbefore : Run next {} before u)
    (henter : u.next (.enter call) = some u') (hafter : Run next u' after v)
    (hcompleted : v.calls call = .completed) :
    (∀ c, u.connection = some c → c ∈ v.closed) ∧
    (∀ w, u.wakeup = some w → w ∈ v.invoked) ∧
    (∀ s c, (s, .bind c) ∈ after → Binding c v ∨ c ∈ v.closed) ∧
    (∀ s w, (s, .setWakeup (some w)) ∈ after → Installing w v ∨ w ∈ v.invoked) := by
  have hflagged : u.Flagged :=
    hbefore.invariant (fun s a t hs h => hs.next h) fun k hk => absurd rfl hk
  have hphase : u.calls call = .flagged ∧ u'.calls call = .entered u.connection u.wakeup := by
    rcases moves_of_next henter with hm | ⟨k, hm⟩
    · cases hm
    · cases hm with
      | enter hphase => exact ⟨hphase, Function.update_self _ _ _⟩
  -- the flag is set before the call takes what is bound and installed, and it stays set
  have hset : u'.cancelled = true :=
    (next_mono henter).1 (hflagged call (by rw [hphase.1]; exact CancelPhase.noConfusion))
  refine ⟨?_, ?_, ?_, ?_⟩
  · -- bound before: the call has it in hand from here on, until it is closed
    intro c hc
    have hwill : WillClose call c v := by
      refine hafter.invariant (fun s a t hs h => hs.next h) (Or.inl ⟨u.wakeup, ?_⟩)
      rw [hphase.2, hc]
    rcases hwill with ⟨w, hw⟩ | hclosed
    · rw [hcompleted] at hw
      cases hw
    · exact hclosed
  · intro w hw
    have hwill : WillInvoke call w v := by
      refine hafter.invariant (fun s a t hs h => hs.next h) (Or.inl ⟨u.connection, ?_⟩)
      rw [hphase.2, hw]
    rcases hwill with ⟨c, hc⟩ | hc | hinvoked
    · rw [hcompleted] at hc
      cases hc
    · rw [hcompleted] at hc
      cases hc
    · exact hinvoked
  · -- bound afterwards: the binding call finds the flag
    intro s c hmem
    obtain ⟨between, rest, t, hbetween, hbind, hrest⟩ := hafter.split hmem
    have hcancelled : s.cancelled = true :=
      hbetween.invariant (I := fun s => s.cancelled = true) (fun s a t hs h => (next_mono h).1 hs)
        hset
    have hbound : Binding c t := by
      rcases moves_of_next hbind with hm | ⟨k, hm⟩
      · cases hm
        exact Or.inl rfl
      · cases hm
    exact (hrest.invariant (fun s a t hs h => bound_closed_next hs h)
      ⟨(next_mono hbind).1 hcancelled, Or.inl hbound⟩).2
  · intro s w hmem
    obtain ⟨between, rest, t, hbetween, hinstall, hrest⟩ := hafter.split hmem
    have hcancelled : s.cancelled = true :=
      hbetween.invariant (I := fun s => s.cancelled = true) (fun s a t hs h => (next_mono h).1 hs)
        hset
    have hinstalled : Installing w t := by
      rcases moves_of_next hinstall with hm | ⟨k, hm⟩
      · cases hm
        exact Or.inl rfl
      · cases hm
    exact (hrest.invariant (fun s a t hs h => installed_invoked_next hs h)
      ⟨(next_mono hinstall).1 hcancelled, Or.inl hinstalled⟩).2

/-- The control of a request that has bound a connection, with a call of `cancel` that has seen
it. -/
def seen : RequestControl where
  cancelled := true
  connection := some 1
  calls :=
    Function.update (Function.update (fun _ => .notStarted) 0 .flagged) 0 (.entered (some 1) none)

/-- The call closes the connection that was bound, and `bind` closes the next one itself. -/
theorem cancellation_not_lost_of_rebinding :
    ∃ v, (∃ trace, Run next {} trace seen) ∧ (∃ trace, Run next seen trace v) ∧
      v.calls 0 = .completed ∧ 1 ∈ v.closed ∧ (Binding 2 v ∨ 2 ∈ v.closed) := by
  have hstart : Run next ({} : RequestControl) [] {} := Run.start
  have hbound := hstart.step (a := .bind 1) rfl
  have hchecked := hbound.step (a := .checkBound) rfl
  have hflagged := hchecked.step (a := .flag 0) rfl
  have hseen := hflagged.step (a := .enter 0) rfl
  have hafter : Run next seen [] seen := Run.start
  have hclosed := hafter.step (a := .close 0) rfl
  have hinvoked := hclosed.step (a := .invoke 0) rfl
  have hrebound := hinvoked.step (a := .bind 2) rfl
  have hlost := @cancellation_not_lost _ _ _ seen _ 0 hflagged rfl hrebound rfl
  exact ⟨_, ⟨_, hseen⟩, ⟨_, hrebound⟩, rfl, hlost.1 1 rfl, hlost.2.2.1 _ 2
    (List.mem_append_right _ (List.mem_singleton_self _))⟩

end RequestControl

end Chhttp
