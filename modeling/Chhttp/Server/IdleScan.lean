import Chhttp.Server.Lifetime

/-!
# The scan for idle sessions

`stop` publishes `stopping`, takes `sessions_mutex`, and closes the sessions whose `in_request` is
false.  A session stores false into `in_request` and only then tests `stopping`.  Between the
two threads lies nothing but these loads and stores, so this model goes step by step where
`Lifetime.Session.resume` has stretches: a `Place` stands in front of one load, store or locked
section, and the steps of the listener, of all sessions and of `stop` interleave at will.

The scan misses no session.  One that passed the test has stored false before `stopping` was
published, and stands in the list, so that the scan meets it: either it still waits for a head
and is closed, or it is in a request, and does not pass the next test (`stop_misses_no_idle`).

`loopHead_of_perform` connects the two models: without steps of others in between, the steps at the
head of the loop are the stretch `Lifetime.Session.loopHead`.
-/

namespace Chhttp.IdleScan

open Transition

/-! ### The source -/

/-- The next step of a session, from the callback of the listener to the end of `serve`.  The loop
head is cut at each access to shared state: `in_request` and `stopping` are atomics, and the scan
may run between any two of them. -/
inductive Place where
  | absent
  /-- `stopping` was false when the listener accepted the connection. -/
  | accepting
  | enlisted
  | handshaking
  /-- The condition of the loop. -/
  | checking
  /-- The store of false at the head of the loop. -/
  | clearing
  /-- The test of `stopping`. -/
  | testing
  /-- In `read_request_head`. -/
  | waiting
  /-- The answer to a head that was refused. -/
  | rejecting
  /-- The store of true behind a head. -/
  | entering
  | handling
  /-- The store of false behind the response. -/
  | ending (reusable : Bool)
  | leaving
  /-- `session_finished` takes the session off the list. -/
  | finishing
  /-- `session_finished` counts the session out. -/
  | discounting
  | ended
  deriving DecidableEq

/-- A session with its connection.  Here it has only what the scan and the loop head look at. -/
structure Session where
  place : Place := .absent
  /-- `Connection::open`. -/
  isOpen : Bool := true
  inRequest : Bool := false
  requestCount : ℕ := 0

/-- How `serve` goes on from a request.  What happens in the request is left out: it does not touch
the flags of the scan. -/
inductive Handled where
  /-- `break`, before a response was sent. -/
  | broke
  /-- A response was sent, and the connection may persist. -/
  | replied (reusable : Bool)
  /-- The handler of a WebSocket has returned. -/
  | upgraded
  /-- An exception has left `serve`. -/
  | threw

/-- What the code finds out in a step.  They are chosen by the environment; each step looks at the
ones that concern it. -/
structure Findings where
  /-- The operation succeeds. -/
  ok : Bool := true
  /-- A head that was refused is answered. -/
  answered : Bool := false
  handled : Handled := .replied true

namespace Session

/-- A session at its next step. -/
def goto (s : Session) (place : Place) : Session := { s with place }

/-- `Connection::close`. -/
def close (s : Session) : Session := { s with isOpen := false }

/-- A step of `serve` that touches nothing but the session. -/
def step (c : Lifetime.Config) (stopping : Bool) (s : Session) (f : Findings) : Option Session :=
  match s.place with
  | .handshaking => some (s.goto (if f.ok then .checking else .leaving))
  | .checking =>
    some (s.goto (if s.isOpen ∧ s.requestCount < c.keepAliveMaxRequests then .clearing
      else .leaving))
  | .clearing => some ({ s with inRequest := false }.goto .testing)
  | .testing => some (s.goto (if stopping then .leaving else .waiting))
  | .waiting =>
    some (s.goto (if f.ok then .entering else if f.answered then .rejecting else .leaving))
  | .rejecting => some (s.goto .leaving)
  | .entering => some ({ s with inRequest := true }.goto .handling)
  | .handling =>
    match f.handled with
    | .broke => some (s.goto .leaving)
    | .replied reusable => some (s.goto (.ending reusable))
    | .upgraded => some (s.goto .finishing)
    | .threw => some (s.goto .ended)
  | .ending reusable =>
    some ({ s with requestCount := s.requestCount + 1, inRequest := false }.goto
      (if reusable then .checking else .leaving))
  | .leaving => some (s.close.goto .finishing)
  | _ => none

end Session

/-- The next step of `stop`.  While it goes through a list, it holds `sessions_mutex`.  The list is
locked as a whole, but the flags of the sessions may change under the scan. -/
inductive StopPlace where
  | serving
  /-- `stopping` was published. -/
  | published
  /-- The scan loads `in_request` of the next session. -/
  | scanning (rest : List ℕ)
  /-- The scan closes a session whose `in_request` was false. -/
  | closing (i : ℕ) (rest : List ℕ)
  | draining
  | closingAll (rest : List ℕ)
  | lastWait
  | stopped

/-- `stop` holds `sessions_mutex`. -/
def StopPlace.locked : StopPlace → Bool
  | .scanning _ | .closing _ _ | .closingAll _ => true
  | _ => false

/-- The scan has finished. -/
def StopPlace.scanned : StopPlace → Bool
  | .draining | .closingAll _ | .lastWait | .stopped => true
  | _ => false

/-- A server that was started.  The list has the sessions that have been added and not been taken
off yet. -/
structure Server where
  sessions : List ℕ := []
  session : ℕ → Session := fun _ => {}
  accepted : ℕ := 0
  activeSessions : ℕ := 0
  stop : StopPlace := .serving

/-- The steps of a server.  An interleaving is a run of these. -/
inductive Action where
  /-- The listener has a connection and tests `stopping`; `expired` says that the runtime is gone. -/
  | accept (expired : Bool)
  /-- The next step of a session. -/
  | step (i : ℕ) (f : Findings)
  /-- The connection of a session closes for a reason of its own. -/
  | close (i : ℕ)
  /-- `stop` is called, and publishes `stopping`. -/
  | stop
  /-- The next step of `stop`. -/
  | stopStep

namespace Server

/-- `stopping`. -/
def stopping (s : Server) : Bool :=
  match s.stop with
  | .serving => false
  | _ => true

/-- A session in a new state. -/
def set (s : Server) (i : ℕ) (t : Session) : Server :=
  { s with session := Function.update s.session i t }

/-- The callback of the listener, up to the test of `stopping`. -/
def accept (s : Server) (expired : Bool) : Server :=
  let connection : Session := {}
  { s.set s.accepted
      (if s.stopping || expired then connection.close.goto .ended else connection.goto .accepting)
    with accepted := s.accepted + 1 }

/-- A step of a session.  Where it takes `sessions_mutex`, it waits for `stop`. -/
def stepSession (c : Lifetime.Config) (s : Server) (i : ℕ) (f : Findings) : Option Server :=
  let t := s.session i
  match t.place with
  | .accepting =>
    if f.ok then
      if s.stop.locked then none
      else some { s.set i (t.goto .enlisted) with sessions := s.sessions ++ [i] }
    else some (s.set i (t.close.goto .ended))
  | .enlisted =>
    some { s.set i (t.goto (if c.tls then .handshaking else .checking)) with
      activeSessions := s.activeSessions + 1 }
  | .finishing =>
    if s.stop.locked then none
    else some { s.set i (t.goto .discounting) with sessions := s.sessions.erase i }
  | .discounting =>
    some { s.set i (t.goto .ended) with activeSessions := s.activeSessions - 1 }
  | _ => (t.step c s.stopping f).map (s.set i)

/-- A step of `stop`. -/
def stepStop (s : Server) : Option Server :=
  match s.stop with
  | .published => some { s with stop := .scanning s.sessions }
  | .scanning [] => some { s with stop := .draining }
  | .scanning (i :: rest) =>
    some { s with
      stop := if (s.session i).inRequest then .scanning rest else .closing i rest }
  | .closing i rest => some { s.set i (s.session i).close with stop := .scanning rest }
  | .draining =>
    some { s with stop := if s.activeSessions ≠ 0 then .closingAll s.sessions else .lastWait }
  | .closingAll [] => some { s with stop := .lastWait }
  | .closingAll (i :: rest) =>
    some { s.set i (s.session i).close with stop := .closingAll rest }
  | .lastWait => some { s with stop := .stopped }
  | _ => none

/-- The steps of a server.  Sessions, the listener and `stop` take their steps in any order. -/
def next (c : Lifetime.Config) (s : Server) : Action → Option Server
  | .accept expired => some (s.accept expired)
  | .step i f => s.stepSession c i f
  | .close i => some (s.set i (s.session i).close)
  | .stop =>
    match s.stop with
    | .serving => some { s with stop := .published }
    | _ => none
  | .stopStep => s.stepStop

end Server

/-! ### Steps of a session -/

/-- The session stands in the list of sessions. -/
def Place.listed : Place → Bool
  | .absent | .accepting | .discounting | .ended => false
  | _ => true

/-- The session has passed the test of `stopping`, and has not entered a request. -/
def Place.idle : Place → Bool
  | .testing | .waiting | .rejecting | .entering => true
  | _ => false

/-- The session waits for a head on a connection that has not been closed. -/
def Session.Open (s : Session) : Prop := s.place = .waiting ∧ s.isOpen = true

/-- What a step of a session keeps: a session that is idle has `in_request` false, one that ends up
in the list was there, and one waits for a head only if it passes the test of `stopping`. -/
structure Session.Steps (stopping : Bool) (s t : Session) : Prop where
  listed : t.place.listed = true → s.place.listed = true
  idle : t.place.idle = true → t.inRequest = false
  waiting : t.place = .waiting → stopping = false

variable {c : Lifetime.Config} {stopping : Bool}

/-- A session that stands in the list goes to a place that is not idle. -/
lemma Session.steps_of_not_idle {s t : Session} (hlisted : s.place.listed = true)
    (h : t.place.idle = false) : s.Steps stopping t := by
  refine ⟨fun _ => hlisted, ?_, ?_⟩
  · intro hidle
    rw [h] at hidle
    cases hidle
  · intro hwaiting
    rw [hwaiting] at h
    cases h

/-- The steps of `serve` are such steps. -/
lemma Session.steps_of_step {s t : Session} {f : Findings}
    (hidle : s.place.idle = true → s.inRequest = false) (h : s.step c stopping f = some t) :
    s.Steps stopping t := by
  unfold step at h
  cases hplace : s.place with
  | clearing =>
    rw [hplace] at h
    cases h
    exact ⟨fun _ => by rw [hplace]; rfl, fun _ => rfl, by simp [goto]⟩
  | testing =>
    rw [hplace] at h hidle
    cases h
    refine ⟨fun _ => by rw [hplace]; rfl, fun _ => hidle rfl, ?_⟩
    intro hwaiting
    cases stopping
    · rfl
    · cases hwaiting
  | waiting =>
    rw [hplace] at h hidle
    cases h
    refine ⟨fun _ => by rw [hplace]; rfl, fun _ => hidle rfl, ?_⟩
    intro hwaiting
    simp only [goto] at hwaiting
    split_ifs at hwaiting
  -- from here on the session is listed and not idle, before the step or behind it
  | handling =>
    rw [hplace] at h
    have hlisted : s.place.listed = true := by rw [hplace]; rfl
    cases hhandled : f.handled <;> simp only [hhandled] at h <;> cases h <;>
      exact steps_of_not_idle hlisted rfl
  | handshaking =>
    rw [hplace] at h
    cases h
    refine steps_of_not_idle (by rw [hplace]; rfl) ?_
    simp only [goto]
    split_ifs <;> rfl
  | checking =>
    rw [hplace] at h
    cases h
    refine steps_of_not_idle (by rw [hplace]; rfl) ?_
    simp only [goto]
    split_ifs <;> rfl
  | ending reusable =>
    rw [hplace] at h
    cases h
    refine steps_of_not_idle (by rw [hplace]; rfl) ?_
    simp only [goto]
    split_ifs <;> rfl
  | rejecting =>
    rw [hplace] at h
    cases h
    exact steps_of_not_idle (by rw [hplace]; rfl) rfl
  | entering =>
    rw [hplace] at h
    cases h
    exact steps_of_not_idle (by rw [hplace]; rfl) rfl
  | leaving =>
    rw [hplace] at h
    cases h
    exact steps_of_not_idle (by rw [hplace]; rfl) rfl
  | _ =>
    rw [hplace] at h
    cases h

/-! ### The invariant -/

/-- The sessions that the scan has still to close or to pass by, once it has begun.  The invariant
is about this list: no idle session may be missing from it. -/
def StopPlace.todo : StopPlace → Option (List ℕ)
  | .scanning rest => some rest
  | .closing i rest => some (i :: rest)
  | .serving | .published => none
  | _ => some []

/-- The invariant of the scan.  A session that is idle has `in_request` false, and each session that
waits for a head on an open connection is still ahead of the scan. -/
structure Server.Inv (s : Server) : Prop where
  listed : ∀ i, (s.session i).place.listed = true → i ∈ s.sessions
  idle : ∀ i, (s.session i).place.idle = true → (s.session i).inRequest = false
  scan : ∀ todo, s.stop.todo = some todo → ∀ i, (s.session i).Open → i ∈ todo

/-- When the scan has finished, nothing is left for it. -/
lemma StopPlace.todo_of_scanned {stop : StopPlace} (h : stop.scanned = true) :
    stop.todo = some [] := by
  cases stop <;> first | rfl | cases h

variable {s t : Server} {i : ℕ} {u : Session}

/-- A session that takes no step keeps its state. -/
lemma Server.session_set (s : Server) (i j : ℕ) (u : Session) :
    (s.set i u).session j = if j = i then u else s.session j := by
  rw [set]
  exact Function.update_apply s.session i u j

/-- Once the scan has begun, `stopping` is true. -/
lemma Server.stopping_of_todo {todo : List ℕ} (h : s.stop.todo = some todo) :
    s.stopping = true := by
  unfold stopping
  cases hstop : s.stop with
  | serving =>
    rw [hstop] at h
    cases h
  | _ => rfl

/-- A step of one session keeps the invariant, if nothing is taken off the list that stays in it. -/
lemma Server.Inv.of_session (h : s.Inv) (hstop : t.stop = s.stop)
    (hsession : ∀ j, t.session j = if j = i then u else s.session j)
    (hmem : ∀ j, j ≠ i → j ∈ s.sessions → j ∈ t.sessions)
    (hlisted : u.place.listed = true → i ∈ t.sessions)
    (hidle : u.place.idle = true → u.inRequest = false)
    (hopen : ∀ todo, s.stop.todo = some todo → u.Open → (s.session i).Open) : t.Inv := by
  refine ⟨?_, ?_, ?_⟩
  · intro j hj
    rw [hsession] at hj
    split_ifs at hj with heq
    · exact heq ▸ hlisted hj
    · exact hmem j heq (h.listed j hj)
  · intro j hj
    rw [hsession] at hj ⊢
    split_ifs at hj ⊢
    · exact hidle hj
    · exact h.idle j hj
  · intro todo htodo j hj
    rw [hstop] at htodo
    rw [hsession] at hj
    split_ifs at hj with heq
    · subst heq
      exact h.scan todo htodo j (hopen todo htodo hj)
    · exact h.scan todo htodo j hj

/-- A session that does not wait for a head is not open for one. -/
lemma Session.not_open {s : Session} (h : s.place ≠ .waiting) : ¬ s.Open := fun hopen => h hopen.1

/-- Closing the connection of a session keeps the invariant. -/
lemma Server.Inv.close (h : s.Inv) (i : ℕ) : (s.set i (s.session i).close).Inv := by
  refine h.of_session rfl (s.session_set i · _) (fun j _ hj => hj) (h.listed i) (h.idle i) ?_
  intro _ _ hopen
  cases hopen.2

/-- The listener keeps the invariant. -/
lemma Server.Inv.accept (h : s.Inv) (expired : Bool) : (s.accept expired).Inv := by
  refine h.of_session rfl (s.session_set s.accepted · _) (fun j _ hj => hj) ?_ ?_ ?_ <;>
    split_ifs
  · exact fun hlisted => by cases hlisted
  · exact fun hlisted => by cases hlisted
  · exact fun hidle => by cases hidle
  · exact fun hidle => by cases hidle
  · exact fun _ _ hopen => absurd hopen (Session.not_open (by simp [Session.goto]))
  · exact fun _ _ hopen => absurd hopen (Session.not_open (by simp [Session.goto]))

/-- The steps of a session keep the invariant. -/
lemma Server.Inv.stepSession (h : s.Inv) {f : Findings} (hstep : s.stepSession c i f = some t) :
    t.Inv := by
  have hset := s.session_set i
  unfold Server.stepSession at hstep
  cases hplace : (s.session i).place with
  | accepting =>
    simp only [hplace] at hstep
    split_ifs at hstep
    · cases hstep
      refine h.of_session rfl (hset · _) ?_ ?_ ?_ ?_
      · exact fun j _ hj => List.mem_append_left _ hj
      · exact fun _ => List.mem_append_right _ List.mem_cons_self
      · exact fun hidle => by cases hidle
      · exact fun _ _ hopen => absurd hopen (Session.not_open (by simp [Session.goto]))
    · cases hstep
      refine h.of_session rfl (hset · _) (fun j _ hj => hj) ?_ ?_ ?_
      · exact fun hlisted => by cases hlisted
      · exact fun hidle => by cases hidle
      · exact fun _ _ hopen => absurd hopen (Session.not_open (by simp [Session.goto]))
  | enlisted =>
    simp only [hplace] at hstep
    cases hstep
    refine h.of_session rfl (hset · _) (fun j _ hj => hj) ?_ ?_ ?_
    · exact fun _ => h.listed i (by rw [hplace]; rfl)
    · intro hidle
      simp only [Session.goto] at hidle
      split_ifs at hidle <;> cases hidle
    · refine fun _ _ hopen => absurd hopen (Session.not_open ?_)
      simp only [Session.goto]
      split_ifs <;> simp
  | finishing =>
    simp only [hplace] at hstep
    split_ifs at hstep
    cases hstep
    refine h.of_session rfl (hset · _) ?_ ?_ ?_ ?_
    · exact fun j hne hj => (List.mem_erase_of_ne hne).mpr hj
    · exact fun hlisted => by cases hlisted
    · exact fun hidle => by cases hidle
    · exact fun _ _ hopen => absurd hopen (Session.not_open (by simp [Session.goto]))
  | discounting =>
    simp only [hplace] at hstep
    cases hstep
    refine h.of_session rfl (hset · _) (fun j _ hj => hj) ?_ ?_ ?_
    · exact fun hlisted => by cases hlisted
    · exact fun hidle => by cases hidle
    · exact fun _ _ hopen => absurd hopen (Session.not_open (by simp [Session.goto]))
  | _ =>
    simp only [hplace] at hstep
    obtain ⟨u, hu, rfl⟩ := Option.map_eq_some_iff.mp hstep
    have hsteps := Session.steps_of_step (h.idle i) hu
    refine h.of_session rfl (hset · u) (fun j _ hj => hj) ?_ hsteps.idle ?_
    · exact fun hlisted => h.listed i (hsteps.listed hlisted)
    · -- once the scan has begun, the test of `stopping` is not passed
      intro todo htodo hopen
      have hfalse := hsteps.waiting hopen.1
      rw [s.stopping_of_todo htodo] at hfalse
      cases hfalse

/-- `stop` goes where every open session is still on its list. -/
lemma Server.Inv.of_stop (h : s.Inv) {stop : StopPlace}
    (hscan : ∀ todo, stop.todo = some todo → ∀ i, (s.session i).Open → i ∈ todo) :
    ({ s with stop } : Server).Inv :=
  ⟨h.listed, h.idle, hscan⟩

/-- `stop` goes where it has the same sessions to close. -/
lemma Server.Inv.of_todo (h : s.Inv) {stop : StopPlace} (htodo : stop.todo = s.stop.todo) :
    ({ s with stop } : Server).Inv :=
  h.of_stop fun todo hstop => h.scan todo (htodo ▸ hstop)

/-- A session in a request does not wait for a head. -/
lemma Server.Inv.not_open_of_inRequest (h : s.Inv) (hrequest : (s.session i).inRequest = true) :
    ¬ (s.session i).Open := by
  intro hopen
  have hfalse := h.idle i (by rw [hopen.1]; rfl)
  rw [hrequest] at hfalse
  cases hfalse

/-- A session that is not open needs not be closed. -/
lemma Server.Inv.of_not_open (h : s.Inv) {rest : List ℕ} {stop : StopPlace}
    (hnow : s.stop.todo = some (i :: rest)) (hthen : stop.todo = some rest)
    (hclosed : ¬ (s.session i).Open) : ({ s with stop } : Server).Inv := by
  refine h.of_stop fun todo htodo j hopen => ?_
  rw [hthen] at htodo
  cases htodo
  rcases List.mem_cons.mp (h.scan _ hnow j hopen) with rfl | hmem
  · exact absurd hopen hclosed
  · exact hmem

/-- The steps of `stop` keep the invariant. -/
lemma Server.Inv.stepStop (h : s.Inv) (hstep : s.stepStop = some t) : t.Inv := by
  unfold Server.stepStop at hstep
  cases hstop : s.stop with
  | serving =>
    rw [hstop] at hstep
    cases hstep
  | stopped =>
    rw [hstop] at hstep
    cases hstep
  | published =>
    -- the scan begins with the whole list
    rw [hstop] at hstep
    cases hstep
    refine h.of_stop fun todo htodo i hopen => ?_
    cases htodo
    exact h.listed i (by rw [hopen.1]; rfl)
  | scanning rest =>
    rw [hstop] at hstep
    cases rest with
    | nil =>
      cases hstep
      exact h.of_todo (by rw [hstop]; rfl)
    | cons i rest =>
      cases hstep
      split_ifs with hrequest
      · exact h.of_not_open (by rw [hstop]; rfl) rfl (h.not_open_of_inRequest hrequest)
      · exact h.of_todo (by rw [hstop]; rfl)
  | closing i rest =>
    rw [hstop] at hstep
    cases hstep
    refine (h.close i).of_not_open (i := i) (by simp only [Server.set, hstop]; rfl) rfl ?_
    intro hopen
    have hfalse := hopen.2
    simp [Server.set, Session.close] at hfalse
  | draining =>
    rw [hstop] at hstep
    cases hstep
    refine h.of_todo ?_
    rw [hstop]
    split_ifs <;> rfl
  | closingAll rest =>
    rw [hstop] at hstep
    cases rest with
    | nil =>
      cases hstep
      exact h.of_todo (by rw [hstop]; rfl)
    | cons i rest =>
      cases hstep
      exact (h.close i).of_todo (by simp only [Server.set, hstop]; rfl)
  | lastWait =>
    rw [hstop] at hstep
    cases hstep
    exact h.of_todo (by rw [hstop]; rfl)

/-- Every step keeps the invariant.  The essential cases are a session that passes the test of
`stopping`, which it can only before the scan, and the scan passing a session. -/
theorem Server.Inv.next (h : s.Inv) {a : Action} (hnext : s.next c a = some t) : t.Inv := by
  cases a with
  | accept expired =>
    cases hnext
    exact h.accept expired
  | step i f => exact h.stepSession hnext
  | close i =>
    cases hnext
    exact h.close i
  | stop =>
    simp only [Server.next] at hnext
    split at hnext
    · cases hnext
      refine ⟨h.listed, h.idle, ?_⟩
      intro todo htodo
      cases htodo
    · cases hnext
  | stopStep => exact h.stepStop hnext

/-- A server that was just started. -/
lemma Server.inv_start : ({} : Server).Inv := by
  refine ⟨?_, ?_, ?_⟩
  · intro i hlisted
    cases hlisted
  · intro i _
    rfl
  · intro todo htodo
    cases htodo

/-! ### Runs -/

/-- A step of a session changes that session only, which begins to wait for a head only if
`stopping` is false. -/
lemma Server.stepSession_spec (h : s.Inv) {f : Findings} (hstep : s.stepSession c i f = some t) :
    t.stop = s.stop ∧ ∃ u, (∀ j, t.session j = if j = i then u else s.session j) ∧
      (u.place = .waiting → s.stopping = false) := by
  have hset := s.session_set i
  unfold stepSession at hstep
  cases hplace : (s.session i).place with
  | accepting =>
    simp only [hplace] at hstep
    split_ifs at hstep <;> cases hstep <;> exact ⟨rfl, _, (hset · _), fun h => by cases h⟩
  | enlisted =>
    simp only [hplace] at hstep
    cases hstep
    refine ⟨rfl, _, (hset · _), ?_⟩
    intro hwaiting
    simp only [Session.goto] at hwaiting
    split_ifs at hwaiting
  | finishing =>
    simp only [hplace] at hstep
    split_ifs at hstep
    cases hstep
    exact ⟨rfl, _, (hset · _), fun h => by cases h⟩
  | discounting =>
    simp only [hplace] at hstep
    cases hstep
    exact ⟨rfl, _, (hset · _), fun h => by cases h⟩
  | _ =>
    simp only [hplace] at hstep
    obtain ⟨u, hu, rfl⟩ := Option.map_eq_some_iff.mp hstep
    exact ⟨rfl, u, (hset · u), (Session.steps_of_step (h.idle i) hu).waiting⟩

/-- A step of `stop` leaves the sessions where they are, and does not take back the scan. -/
lemma Server.stepStop_spec (hstep : s.stepStop = some t) :
    (∀ i, (t.session i).place = (s.session i).place) ∧
      (s.stop.scanned = true → t.stop.scanned = true) := by
  have hclose : ∀ i j, ((s.set i (s.session i).close).session j).place = (s.session j).place := by
    intro i j
    rw [session_set]
    split_ifs with heq
    · rw [heq]
      rfl
    · rfl
  unfold stepStop at hstep
  split at hstep
  · cases hstep
    exact ⟨fun _ => rfl, fun h => by simp_all [StopPlace.scanned]⟩
  · cases hstep
    exact ⟨fun _ => rfl, fun _ => rfl⟩
  · cases hstep
    exact ⟨fun _ => rfl, fun h => by simp_all [StopPlace.scanned]⟩
  · cases hstep
    exact ⟨hclose _, fun h => by simp_all [StopPlace.scanned]⟩
  · cases hstep
    refine ⟨fun _ => rfl, fun _ => ?_⟩
    simp only
    split_ifs <;> rfl
  · cases hstep
    exact ⟨fun _ => rfl, fun _ => rfl⟩
  · cases hstep
    exact ⟨hclose _, fun _ => rfl⟩
  · cases hstep
    exact ⟨fun _ => rfl, fun _ => rfl⟩
  · cases hstep

/-- After the scan, the scan remains finished. -/
lemma Server.scanned_next (hinv : s.Inv) {a : Action} (h : s.stop.scanned = true)
    (hnext : s.next c a = some t) : t.stop.scanned = true := by
  cases a with
  | accept expired =>
    cases hnext
    exact h
  | close i =>
    cases hnext
    exact h
  | stop =>
    simp only [next] at hnext
    split at hnext
    · rename_i hserving
      rw [hserving] at h
      cases h
    · cases hnext
  | step i f =>
    rw [(stepSession_spec hinv hnext).1]
    exact h
  | stopStep => exact (stepStop_spec hnext).2 h

/-- After the scan, no session begins to wait for a head. -/
lemma Server.waiting_of_next (hinv : s.Inv) {a : Action} (h : s.stop.scanned = true)
    (hnext : s.next c a = some t) (hwaiting : (t.session i).place = .waiting) :
    (s.session i).place = .waiting := by
  cases a with
  | accept expired =>
    cases hnext
    rw [accept, session_set] at hwaiting
    split_ifs at hwaiting
    · cases hwaiting
    · cases hwaiting
    · exact hwaiting
  | close j =>
    cases hnext
    rw [session_set] at hwaiting
    split_ifs at hwaiting with heq
    · rw [heq]
      exact hwaiting
    · exact hwaiting
  | stop =>
    simp only [next] at hnext
    split at hnext
    · cases hnext
      exact hwaiting
    · cases hnext
  | step j f =>
    obtain ⟨-, u, hsession, hu⟩ := stepSession_spec hinv hnext
    rw [hsession] at hwaiting
    split_ifs at hwaiting
    · have hstopping := s.stopping_of_todo (StopPlace.todo_of_scanned h)
      rw [hu hwaiting] at hstopping
      cases hstopping
    · exact hwaiting
  | stopStep =>
    rw [← (stepStop_spec hnext).1 i]
    exact hwaiting

section

variable {trace trace' : List (Server × Action)}

/-- Graceful stop misses no idle session, in any interleaving of the steps of the listener, of all
sessions and of `stop`.  Once the scan has finished, every session that waits for a head does so on
a connection that has been closed, in all states from then on; and none begins to wait for one. -/
theorem stop_misses_no_idle (h : Run (Server.next c) {} trace s) (hscan : s.stop.scanned = true)
    (h' : Run (Server.next c) s trace' t) (i : ℕ) :
    ((t.session i).place = .waiting → (t.session i).isOpen = false) ∧
      ∀ v ∈ trace', ∀ w, v.1.next c v.2 = some w → (w.session i).place = .waiting →
        (v.1.session i).place = .waiting := by
  have hkeep : ∀ u a v, u.Inv ∧ u.stop.scanned = true → Server.next c u a = some v →
      v.Inv ∧ v.stop.scanned = true := by
    intro u a v hu hnext
    exact ⟨hu.1.next hnext, Server.scanned_next hu.1 hu.2 hnext⟩
  have hs : s.Inv := h.invariant (fun _ _ _ hu hnext => hu.next hnext) Server.inv_start
  constructor
  · intro hwaiting
    obtain ⟨hinv, hscanned⟩ := h'.invariant hkeep ⟨hs, hscan⟩
    by_contra hopen
    have hmem := hinv.scan [] (StopPlace.todo_of_scanned hscanned) i
      ⟨hwaiting, by simpa using hopen⟩
    exact absurd hmem List.not_mem_nil
  · intro v hv w hw hwaiting
    obtain ⟨w', hw', hP⟩ := h'.forall_mem (P := fun u a v =>
      (v.session i).place = .waiting → (u.session i).place = .waiting) hkeep
      (fun u a v hu hnext => Server.waiting_of_next hu.1 hu.2 hnext) ⟨hs, hscan⟩ v hv
    rw [hw'] at hw
    cases hw
    exact hP hwaiting

end

/-- A session that waits for its first head when `stop` is called: the scan closes it. -/
theorem stop_misses_no_idle_of_waiting :
    ∃ trace s, Run (Server.next {}) {} trace s ∧ s.stop.scanned = true ∧
      (s.session 0).place = .waiting ∧ (s.session 0).isOpen = false := by
  obtain ⟨s, hs, hscanned, hwaiting⟩ :
      ∃ s, perform (Server.next {}) {}
          [.accept false, .step 0 {}, .step 0 {}, .step 0 {}, .step 0 {}, .step 0 {}, .stop,
            .stopStep, .stopStep, .stopStep, .stopStep] = some s ∧
        s.stop.scanned = true ∧ (s.session 0).place = .waiting := ⟨_, rfl, rfl, rfl⟩
  obtain ⟨trace, hrun⟩ := run_of_perform hs
  exact ⟨trace, s, hrun, hscanned, hwaiting,
    (stop_misses_no_idle hrun hscanned Run.start 0).1 hwaiting⟩

/-! ### Stretches -/

/-- The data of a session that the two models share. -/
def Session.onto (s : Session) (base : Lifetime.Session) : Lifetime.Session :=
  { base with isOpen := s.isOpen, inRequest := s.inRequest, requestCount := s.requestCount }

/-- Taken in a row, the steps at the head of the loop are a stretch: the session waits for a head,
or it leaves the loop. -/
theorem loopHead_of_perform (c : Lifetime.Config) (stopping : Bool) {s : Session}
    (h : s.place = .checking) (base : Lifetime.Session) :
    ∃ findings t, perform (Session.step c stopping) s findings = some t ∧
      ((t.place = .waiting ∧
          (s.onto base).loopHead c stopping = (t.onto base).goto .readingHead) ∨
        (t.place = .leaving ∧ (s.onto base).loopHead c stopping = (t.onto base).leave)) := by
  by_cases hgo : s.isOpen ∧ s.requestCount < c.keepAliveMaxRequests
  · refine ⟨[{}, {}, {}],
      { s with inRequest := false }.goto (if stopping then .leaving else .waiting), ?_, ?_⟩
    · simp [perform, Session.step, h, hgo, Session.goto]
    · have hhead : (s.onto base).isOpen ∧ (s.onto base).requestCount < c.keepAliveMaxRequests := hgo
      rw [Lifetime.Session.loopHead, if_pos hhead]
      cases stopping
      · exact Or.inl ⟨rfl, rfl⟩
      · exact Or.inr ⟨rfl, rfl⟩
  · refine ⟨[{}], s.goto .leaving, ?_, Or.inr ⟨rfl, ?_⟩⟩
    · simp [perform, Session.step, h, hgo]
    · have hhead : ¬ ((s.onto base).isOpen ∧
        (s.onto base).requestCount < c.keepAliveMaxRequests) := hgo
      rw [Lifetime.Session.loopHead, if_neg hhead]
      rfl

end Chhttp.IdleScan
