import Chhttp.Lib.Run

/-!
# Stopping an event stream

`Connecting` is the state of a `SseClient` whose `connect` runs, from the moment it has set
`running`, and of the calls of `stop` that other threads make meanwhile.  The stop source of an
attempt is the number of the attempt.

A `stop` that reads `active_stop` after the loop has been tested, but before the next attempt has
published its source, finds nothing and is lost (`stop_lost_while_preparing`).  Every run without
such a read obeys every `stop` (`stop_not_lost_of_reads_in_time`).
-/

namespace Chhttp.Sse

open Transition

/-- Where `connect` is.  The phases are cut where `stop` may come in between: at the accesses to
`running` and to `active_stop`. -/
inductive ConnectPhase where
  /-- Before the loop test. -/
  | testing
  /-- After the loop test, with the parser and the request still to be set up. -/
  | preparing
  /-- The stop source of the attempt is in `active_stop`. -/
  | published (source : ℕ)
  | requesting (source : ℕ)
  /-- The request has ended, and its source is still in `active_stop`. -/
  | ended (source : ℕ)
  | cleared
  | waiting
  | returned
  deriving DecidableEq

/-- Where a call of `stop` is.  It takes `running` away first, and then looks for a source to ask; a
request that is set up in between must notice. -/
inductive StopPhase where
  | notStarted
  /-- It has taken `running` away, and `active_stop` is still to be read. -/
  | exchanged
  | taken (source : Option ℕ)
  | finished
  deriving DecidableEq

/-- `SseClient::Impl`, as far as `stop` can tell, with the sources that were asked to stop.  Each
attempt has a source of its own, numbered in order. -/
structure Connecting where
  running : Bool := true
  activeStop : Option ℕ := none
  phase : ConnectPhase := .testing
  attempts : ℕ := 0
  stops : ℕ → StopPhase := fun _ => .notStarted
  asked : List ℕ := []

/-- The steps of `connect` and of the calls of `stop`.  The request and the wait may take any time,
so their ends are steps of the environment. -/
inductive ConnectStep where
  | test
  | publish
  | start
  | finish
  | clear
  /-- After an attempt: return, or wait for the next one. -/
  | decide (reconnect : Bool)
  | wait
  | retry
  | exchange (call : ℕ)
  | read (call : ℕ)
  | ask (call : ℕ)
  deriving DecidableEq

namespace Connecting

/-- A call of `stop` goes on to its next phase. -/
def setStop (s : Connecting) (call : ℕ) (phase : StopPhase) : Connecting :=
  { s with stops := Function.update s.stops call phase }

/-- The steps of `connect`. -/
def advance (s : Connecting) : ConnectPhase → ConnectStep → Option Connecting
  | .testing, .test =>
    if s.running then some { s with phase := .preparing } else some { s with phase := .returned }
  | .preparing, .publish =>
    some {
      s with
      phase := .published s.attempts
      activeStop := some s.attempts
      attempts := s.attempts + 1 }
  | .published source, .start => some { s with phase := .requesting source }
  | .requesting source, .finish => some { s with phase := .ended source }
  | .ended source, .clear =>
    some {
      s with
      phase := .cleared
      activeStop := if s.activeStop = some source then none else s.activeStop }
  | .cleared, .decide reconnect =>
    if s.running && reconnect then some { s with phase := .waiting }
    else some { s with running := false, phase := .returned }
  | .waiting, .wait => if s.running then some s else none
  | .waiting, .retry => some { s with phase := .testing }
  | _, _ => none

/-- The steps of a call of `stop`.  Only the call that takes `running` away goes on to look for a
source; all others return at once. -/
def stop (s : Connecting) (call : ℕ) : StopPhase → ConnectStep → Option Connecting
  | .notStarted, .exchange _ =>
    if s.running then some ({ s with running := false }.setStop call .exchanged)
    else some (s.setStop call .finished)
  | .exchanged, .read _ => some (s.setStop call (.taken s.activeStop))
  | .taken source, .ask _ =>
    some ({ s with asked := source.toList ++ s.asked }.setStop call .finished)
  | _, _ => none

/-- The steps of a running `connect` and of the calls of `stop`.  The parties share `running` and
`active_stop`, and nothing else. -/
def next (s : Connecting) : ConnectStep → Option Connecting
  | .exchange call => s.stop call (s.stops call) (.exchange call)
  | .read call => s.stop call (s.stops call) (.read call)
  | .ask call => s.stop call (s.stops call) (.ask call)
  | step => s.advance s.phase step

/-! ### What a step does -/

/-- The steps of `connect`, which leave the calls of `stop` alone.  They are the cases in which a
call of `stop` may find `connect`. -/
inductive Advances (s : Connecting) : Connecting → Prop where
  | test (h : s.phase = .testing) (hrunning : s.running = true) :
      Advances s { s with phase := .preparing }
  | stopped (h : s.phase = .testing) : Advances s { s with phase := .returned }
  | publish (h : s.phase = .preparing) :
      Advances s {
        s with
        phase := .published s.attempts
        activeStop := some s.attempts
        attempts := s.attempts + 1 }
  | start {source : ℕ} (h : s.phase = .published source) :
      Advances s { s with phase := .requesting source }
  | finish {source : ℕ} (h : s.phase = .requesting source) :
      Advances s { s with phase := .ended source }
  | clear {source : ℕ} (h : s.phase = .ended source) :
      Advances s {
        s with
        phase := .cleared
        activeStop := if s.activeStop = some source then none else s.activeStop }
  | decide (h : s.phase = .cleared) (hrunning : s.running = true) :
      Advances s { s with phase := .waiting }
  | leave (h : s.phase = .cleared) : Advances s { s with running := false, phase := .returned }
  | wait (h : s.phase = .waiting) : Advances s s
  | retry (h : s.phase = .waiting) : Advances s { s with phase := .testing }

/-- The steps of a call of `stop`, which leave the phase of `connect` alone.  A call that finds no
source asks none, and relies on the loop test. -/
inductive Stops (s : Connecting) (k : ℕ) : ConnectStep → Connecting → Prop where
  | exchange (h : s.stops k = .notStarted) (hrunning : s.running = true) :
      Stops s k (.exchange k) ({ s with running := false }.setStop k .exchanged)
  | leave (h : s.stops k = .notStarted) (hrunning : s.running = false) :
      Stops s k (.exchange k) (s.setStop k .finished)
  | read (h : s.stops k = .exchanged) : Stops s k (.read k) (s.setStop k (.taken s.activeStop))
  | ask {source : Option ℕ} (h : s.stops k = .taken source) :
      Stops s k (.ask k) ({ s with asked := source.toList ++ s.asked }.setStop k .finished)

/-- Every step of `connect` is one of these. -/
lemma advances_of_advance {s t : Connecting} {a : ConnectStep}
    (h : s.advance s.phase a = some t) : Advances s t := by
  generalize hphase : s.phase = phase at h
  unfold advance at h
  split at h
  · split_ifs at h with hrunning
    · cases h
      exact Advances.test hphase hrunning
    · cases h
      exact Advances.stopped hphase
  · cases h
    exact Advances.publish hphase
  · cases h
    exact Advances.start hphase
  · cases h
    exact Advances.finish hphase
  · cases h
    exact Advances.clear hphase
  · split_ifs at h with hrunning
    · cases h
      exact Advances.decide hphase (Bool.and_eq_true_iff.mp hrunning).1
    · cases h
      exact Advances.leave hphase
  · split_ifs at h
    cases h
    exact Advances.wait hphase
  · cases h
    exact Advances.retry hphase
  · cases h

/-- Every step is a step of `connect` or of a call of `stop`.  The invariants are proved by cases on
these. -/
theorem moves_of_next {s t : Connecting} {a : ConnectStep} (h : s.next a = some t) :
    Advances s t ∨ ∃ k, Stops s k a t := by
  cases a with
  | exchange k =>
    right
    simp only [next] at h
    generalize hstop : s.stops k = phase at h
    cases phase <;> simp only [stop, reduceCtorEq] at h
    split_ifs at h with hrunning
    · cases h
      exact ⟨k, Stops.exchange hstop hrunning⟩
    · cases h
      exact ⟨k, Stops.leave hstop (Bool.eq_false_iff.mpr hrunning)⟩
  | read k =>
    right
    simp only [next] at h
    generalize hstop : s.stops k = phase at h
    cases phase <;> simp only [stop, reduceCtorEq] at h
    cases h
    exact ⟨k, Stops.read hstop⟩
  | ask k =>
    right
    simp only [next] at h
    generalize hstop : s.stops k = phase at h
    cases phase <;> simp only [stop, reduceCtorEq] at h
    cases h
    exact ⟨k, Stops.ask hstop⟩
  | _ => exact Or.inl (advances_of_advance h)

variable {s t : Connecting} {a : ConnectStep} {k : ℕ}

/-- A call of `stop` leaves the phase and the active source alone. -/
lemma Stops.phase (h : Stops s k a t) : t.phase = s.phase ∧ t.activeStop = s.activeStop := by
  cases h <;> exact ⟨rfl, rfl⟩

/-- A call of `stop` leaves the others alone. -/
lemma Stops.stops_of_ne (h : Stops s k a t) {j : ℕ} (hj : j ≠ k) : t.stops j = s.stops j := by
  cases h <;> exact Function.update_of_ne hj _ _

/-! ### No stop is lost -/

/-- The source of the attempt that has been published and whose request has not ended. -/
def current : ConnectPhase → Option ℕ
  | .published source => some source
  | .requesting source => some source
  | _ => none

/-- A source was asked to stop, or a call of `stop` that has not finished is going to ask it. -/
def WillBeAsked (s : Connecting) (source : ℕ) : Prop :=
  source ∈ s.asked ∨ ∃ k, s.stops k = .taken (some source) ∨
    (s.stops k = .exchanged ∧ s.activeStop = some source)

/-- Every `stop` that has finished is obeyed: the source of an attempt whose request runs or is
about to start was asked to stop, or will be. -/
def StopObeyed (s : Connecting) : Prop :=
  ∀ k source, s.stops k = .finished → current s.phase = some source → s.WillBeAsked source

/-- The invariant of the runs in which no `stop` reads `active_stop` while an attempt is being
prepared. -/
structure Inv (s : Connecting) : Prop where
  /-- Only a call that has not started leaves `running` set. -/
  running : s.running = true → ∀ k, s.stops k = .notStarted
  /-- The active source is the one of the current attempt. -/
  active (source : ℕ) : current s.phase = some source → s.activeStop = some source
  /-- A `stop` that came after the loop test has not looked for a source yet. -/
  preparing : s.phase = .preparing → s.running = false → ∃ k, s.stops k = .exchanged
  asked (source : ℕ) : current s.phase = some source → s.running = false → s.WillBeAsked source

/-- The invariant holds when `connect` starts. -/
lemma inv_start : Inv {} where
  running _ _ := rfl
  active _ h := by cases h
  preparing h := by cases h
  asked _ h := by cases h

/-- Only the active source, the calls and the sources asked matter for what will be asked. -/
lemma WillBeAsked.congr {source : ℕ} (h : s.WillBeAsked source) (hstops : t.stops = s.stops)
    (hasked : t.asked = s.asked) (hactive : t.activeStop = s.activeStop) :
    t.WillBeAsked source := by
  unfold WillBeAsked
  rw [hstops, hasked, hactive]
  exact h

/-- `connect` keeps the invariant. -/
lemma Inv.advances (hs : s.Inv) (h : Advances s t) : t.Inv := by
  cases h with
  | test hphase hrunning =>
    refine ⟨hs.running, fun source h => ?_, fun _ h => ?_, fun source h => ?_⟩
    · cases h
    · exact absurd hrunning (Bool.eq_false_iff.mp h)
    · cases h
  | publish hphase =>
    refine ⟨hs.running, fun source h => h, fun h => ?_, fun source h hrunning => ?_⟩
    · cases h
    · obtain ⟨k, hk⟩ := hs.preparing hphase hrunning
      exact Or.inr ⟨k, Or.inr ⟨hk, h⟩⟩
  | @start source hphase =>
    have hcurrent : ∀ source', current (.requesting source) = some source' →
        current s.phase = some source' := by
      intro source' h
      rw [hphase]
      exact h
    refine ⟨hs.running, fun source' h => hs.active source' (hcurrent source' h), fun h => ?_,
      fun source' h hrunning => (hs.asked source' (hcurrent source' h) hrunning).congr rfl rfl rfl⟩
    cases h
  | leave hphase =>
    refine ⟨fun h => ?_, fun source h => ?_, fun h => ?_, fun source h => ?_⟩
    · cases h
    · cases h
    · cases h
    · cases h
  | wait hphase => exact hs
  | _ hphase =>
    refine ⟨hs.running, fun source h => ?_, fun h => ?_, fun source h => ?_⟩
    · cases h
    · cases h
    · cases h

/-- A step of `stop` that a call takes does not undo what the others are going to do, and what it
is going to do itself it does. -/
lemma WillBeAsked.stops {source : ℕ} (hs : s.WillBeAsked source) (h : Stops s k a t) :
    t.WillBeAsked source := by
  have hactive := h.phase.2
  rcases hs with hasked | ⟨j, hj⟩
  · left
    cases h with
    | ask => exact List.mem_append_right _ hasked
    | _ => exact hasked
  · by_cases hjk : j = k
    · subst hjk
      cases h with
      | exchange hstop =>
        rw [hstop] at hj
        rcases hj with hj | ⟨hj, -⟩ <;> cases hj
      | leave hstop =>
        rw [hstop] at hj
        rcases hj with hj | ⟨hj, -⟩ <;> cases hj
      | read hstop =>
        rcases hj with hj | ⟨-, hj⟩
        · rw [hstop] at hj
          cases hj
        · refine Or.inr ⟨j, Or.inl ?_⟩
          rw [← hj]
          exact Function.update_self _ _ _
      | ask hstop =>
        rcases hj with hj | ⟨hj, -⟩
        · rw [hstop] at hj
          cases hj
          exact Or.inl List.mem_cons_self
        · rw [hstop] at hj
          cases hj
    · exact Or.inr ⟨j, by rw [h.stops_of_ne hjk, hactive]; exact hj⟩

/-- `stop` keeps the invariant, unless it reads `active_stop` while an attempt is being
prepared. -/
lemma Inv.stops (hs : s.Inv) (h : Stops s k a t) (hread : a = .read k → s.phase ≠ .preparing) :
    t.Inv := by
  obtain ⟨hphase, hactive⟩ := h.phase
  have hrunning : t.running = false := by
    have hstarted : s.stops k ≠ .notStarted → s.running = false := by
      intro hne
      rw [Bool.eq_false_iff]
      intro hrunning
      exact hne (hs.running hrunning k)
    cases h with
    | exchange => rfl
    | leave _ hrunning => exact hrunning
    | read hstop => exact hstarted (by rw [hstop]; exact StopPhase.noConfusion)
    | ask hstop => exact hstarted (by rw [hstop]; exact StopPhase.noConfusion)
  constructor
  · intro h
    rw [hrunning] at h
    cases h
  · intro source hcurrent
    rw [hactive]
    exact hs.active source (hphase ▸ hcurrent)
  · intro hpreparing _
    rw [hphase] at hpreparing
    cases h with
    | exchange => exact ⟨k, Function.update_self _ _ _⟩
    | leave hstop hrunning =>
      obtain ⟨j, hj⟩ := hs.preparing hpreparing hrunning
      have hjk : j ≠ k := by
        rintro rfl
        rw [hstop] at hj
        cases hj
      exact ⟨j, (Function.update_of_ne hjk _ _).trans hj⟩
    | read => exact absurd hpreparing (hread rfl)
    | ask hstop =>
      obtain ⟨j, hj⟩ := hs.preparing hpreparing hrunning
      have hjk : j ≠ k := by
        rintro rfl
        rw [hstop] at hj
        cases hj
      exact ⟨j, (Function.update_of_ne hjk _ _).trans hj⟩
  · intro source hcurrent _
    rw [hphase] at hcurrent
    cases hold : s.running with
    | true =>
      -- The call that takes `running` away is going to read the source.
      cases h with
      | exchange => exact Or.inr ⟨k, Or.inr ⟨Function.update_self _ _ _, hs.active source hcurrent⟩⟩
      | _ =>
        have hnot : s.running = false := hrunning
        rw [hold] at hnot
        cases hnot
    | false => exact (hs.asked source hcurrent hold).stops h

/-- The `stop` that takes a step does not read `active_stop` between the loop test and the
publication of the next source. -/
def ReadsInTime (e : Connecting × ConnectStep) : Prop :=
  ∀ k, e.2 = .read k → e.1.phase ≠ .preparing

/-- A run all of whose reads come in time keeps the invariant. -/
lemma inv_of_run {trace : List (Connecting × ConnectStep)} (hrun : Run next {} trace s)
    (hreads : ∀ e ∈ trace, ReadsInTime e) : s.Inv := by
  induction hrun with
  | start => exact inv_start
  | @step trace t u a hrun hnext ih =>
    have ht := ih fun e he => hreads e (List.mem_append_left _ he)
    rcases moves_of_next hnext with h | ⟨k, h⟩
    · exact ht.advances h
    · exact ht.stops h (hreads (t, a) (List.mem_append_right _ (List.mem_singleton_self _)) k)

/-- No `stop` is lost in a run in which every `stop` that took `running` away reads `active_stop`
outside of the preparation of an attempt. -/
theorem stop_not_lost_of_reads_in_time {trace : List (Connecting × ConnectStep)}
    (hrun : Run next {} trace s) (hreads : ∀ e ∈ trace, ReadsInTime e) : s.StopObeyed := by
  intro k source hfinished hcurrent
  have hs := inv_of_run hrun hreads
  apply hs.asked source hcurrent
  rw [Bool.eq_false_iff]
  intro hrunning
  rw [hs.running hrunning k] at hfinished
  cases hfinished

/-- A `stop` that comes while the request runs asks its source. -/
theorem stop_not_lost_of_running_request :
    ∃ s trace, Run next {} trace s ∧ s.phase = .requesting 0 ∧ s.stops 0 = .finished ∧
      s.StopObeyed := by
  have hstart : Run next ({} : Connecting) [] {} := Run.start
  have htested := hstart.step (a := .test) rfl
  have hpublished := htested.step (a := .publish) rfl
  have hrequesting := hpublished.step (a := .start) rfl
  have hexchanged := hrequesting.step (a := .exchange 0) rfl
  have hread := hexchanged.step (a := .read 0) rfl
  have hasked := hread.step (a := .ask 0) rfl
  refine ⟨_, _, hasked, rfl, rfl, stop_not_lost_of_reads_in_time hasked ?_⟩
  intro e he k hk hphase
  simp only [List.nil_append, List.cons_append, List.mem_cons, List.not_mem_nil, or_false] at he
  rcases he with rfl | rfl | rfl | rfl | rfl | rfl
  · cases hk
  · cases hk
  · cases hk
  · cases hk
  · cases hphase
  · cases hk

/-- A `stop` between the loop test and the publication of the first source is lost: it has
finished, and the request runs with a source that nobody is going to ask. -/
theorem stop_lost_while_preparing :
    ∃ s trace, Run next {} trace s ∧ s.phase = .requesting 0 ∧ s.stops 0 = .finished ∧
      ¬ s.StopObeyed := by
  have hstart : Run next ({} : Connecting) [] {} := Run.start
  have htested := hstart.step (a := .test) rfl
  have hexchanged := htested.step (a := .exchange 0) rfl
  have hread := hexchanged.step (a := .read 0) rfl
  have hfinished := hread.step (a := .ask 0) rfl
  have hpublished := hfinished.step (a := .publish) rfl
  have hrequesting := hpublished.step (a := .start) rfl
  refine ⟨_, _, hrequesting, rfl, rfl, fun hobeyed => ?_⟩
  have hstops : ∀ k, k ≠ 0 → Function.update (Function.update (Function.update
      (fun _ => StopPhase.notStarted) 0 .exchanged) 0 (.taken none)) 0 .finished k =
        .notStarted := by
    intro k hk
    rw [Function.update_of_ne hk, Function.update_of_ne hk, Function.update_of_ne hk]
  rcases hobeyed 0 0 rfl rfl with hasked | ⟨k, hk⟩
  · cases hasked
  · by_cases h0 : k = 0
    · subst h0
      rcases hk with hk | ⟨hk, -⟩ <;> cases hk
    · have hnot := hstops k h0
      rcases hk with hk | ⟨hk, -⟩
      · cases hk.symm.trans hnot
      · cases hk.symm.trans hnot

end Connecting

end Chhttp.Sse
