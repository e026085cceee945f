import Chhttp.Server.SessionAccounting

/-!
# The worker pool during shutdown

`stop` waits twice for the sessions, each time for a bounded while, and between the two it closes
all connections.  Then it destroys the worker pool.  A session that goes on with a closed connection
meets a check of `Connection::open` before it uses the pool, with two exceptions: after pre routing,
`dispatch` goes straight to the pool; and a read that was pending may still deliver bytes, until the
loop has carried out `close_on_loop`.

A session is `Quiet` if it is at neither of these places.  In a run in which `stop` destroys the pool
only when the sessions are quiet, every job reaches the pool; and after a `stop` that does not
respect this, a job may be handed to a pool that was destroyed (`jobs_reach_pool`).
-/

namespace Chhttp.Lifetime

open Transition

/-! ### Sessions with a closed connection -/

/-- A session in this place is not on the pool, nor on the way to it without a check. -/
def Place.aside : Place → Bool
  | .preRouting stream => stream
  | place => !place.onPool && !place.reading

/-- A place aside is neither on the pool nor in a read, and is not the one before routing. -/
lemma Place.facts_of_aside {place : Place} (h : place.aside) :
    place.onPool = false ∧ place.reading = false ∧ place ≠ .preRouting false := by
  cases place <;> simp_all [aside, onPool, reading]

/-- The stretch ends, and if it ends in a place, this is aside. -/
def Stretch.Aside : Stretch → Prop
  | .waits t => t.place.aside
  | _ => True

namespace Session

variable {c : Config} {stopping : Bool} {s : Session}

/-- The head of the loop checks the connection. -/
lemma aside_loopHead (h : s.isOpen = false) : (s.loopHead c stopping).Aside := by
  unfold loopHead
  rw [if_neg (by simp [h])]
  trivial

/-- The loop is left, or goes on with its head. -/
lemma aside_nextRequest (h : s.isOpen = false) : (s.nextRequest c stopping).Aside := by
  unfold nextRequest
  dsimp only
  split_ifs
  · exact aside_loopHead h
  · trivial

/-- The logger runs on the loop, and the head of the loop checks the connection. -/
lemma aside_sent (h : s.isOpen = false) (error : Bool) : (s.sent c stopping error).Aside := by
  unfold sent
  dsimp only
  split_ifs
  · exact rfl
  · exact aside_nextRequest h

/-- The check after `dispatch`. -/
lemma aside_dispatched (h : s.isOpen = false) (f : Findings) :
    (s.dispatched c stopping f).Aside := by
  unfold dispatched
  rw [if_neg (by simp [h])]
  trivial

/-- The exception handler runs on the loop; what follows it is checked. -/
lemma aside_caught (h : s.isOpen = false) (f : Findings) : (s.caught c stopping f).Aside := by
  unfold caught
  split_ifs
  · exact rfl
  · exact aside_dispatched h f

/-- Post routing runs on the loop; what follows it is checked. -/
lemma aside_finish (h : s.isOpen = false) (f : Findings) : (s.finish c stopping f).Aside := by
  unfold finish
  split_ifs
  · exact rfl
  · exact aside_dispatched h f

/-- The error handler runs on the loop; what follows it is checked. -/
lemma aside_notFound (h : s.isOpen = false) (f : Findings) : (s.notFound c stopping f).Aside := by
  unfold notFound
  split_ifs
  · exact rfl
  · exact aside_finish h f

/-- The last chunk of a stream is sent without the pool. -/
lemma aside_produced (h : s.isOpen = false) (f : Findings) : (s.produced c stopping f).Aside := by
  unfold produced
  split_ifs
  · exact rfl
  · exact aside_sent h false
  · exact aside_sent h true

/-- After a WebSocket the session ends. -/
lemma aside_webSocketDone : s.webSocketDone.Aside := by
  unfold webSocketDone
  split_ifs
  · exact rfl
  · trivial

/-- Nothing leads the session to the pool without a check.  It is not in pre routing before a pool
job, and it does not wait for bytes on an open connection. -/
def Quiet (s : Session) : Prop :=
  s.place ≠ .preRouting false ∧ (s.place.reading → s.closed)

/-- A session aside is quiet. -/
lemma quiet_of_aside (h : s.place.aside) : s.Quiet := by
  obtain ⟨-, hreading, hplace⟩ := Place.facts_of_aside h
  exact ⟨hplace, fun hread => absurd hread (by rw [hreading]; exact Bool.false_ne_true)⟩

/-- A quiet session with a closed connection does not get to the pool. -/
lemma resume_aside {f : Findings} {e : Ending} {st : Stretch}
    (h : s.resume c stopping f e = some st) (hopen : s.isOpen = false) (hquiet : s.Quiet) :
    st.Aside := by
  unfold resume at h
  unfold Quiet at hquiet
  generalize s.place = place at h hquiet
  cases place with
  | absent | finished | escaped => cases e <;> cases h
  | handshaking =>
    cases e <;> cases h
    · exact aside_loopHead hopen
    · trivial
  | readingHead | readingBody =>
    -- the connection is closed, so the read cannot have returned
    have hclosed := hquiet.2 rfl
    cases e with
    | returned =>
      dsimp only at h
      rw [if_pos hclosed] at h
      cases h
    | failed =>
      cases h
      first | exact rfl | (split_ifs <;> first | exact rfl | trivial)
    | threw => cases h
  | rejecting | closingWebSocket => cases e <;> cases h <;> trivial
  | preRouting stream =>
    cases stream with
    -- only this place hands the request to the pool, and the session is not there
    | false => exact absurd rfl hquiet.1
    | true =>
      cases e <;> cases h
      · split_ifs
        · exact aside_dispatched hopen f
        · exact rfl
      · exact aside_caught hopen f
  | streamHandler | asyncHandler | syncHandler | errorHandler =>
    cases e <;> cases h
    · exact aside_finish hopen f
    · exact aside_caught hopen f
  | servingStatic =>
    cases e <;> cases h
    · split_ifs
      · exact aside_finish hopen f
      · exact aside_notFound hopen f
    · exact aside_caught hopen f
  | postRouting =>
    cases e <;> cases h
    · exact aside_dispatched hopen f
    · exact aside_caught hopen f
  | exceptionHandler =>
    cases e <;> cases h
    · exact aside_dispatched hopen f
    · trivial
  | compressing =>
    cases e <;> cases h
    exact rfl
  | sendingHead =>
    cases e <;> cases h
    · split_ifs
      · exact aside_sent hopen false
      · exact rfl
    · exact aside_sent hopen true
  | producing =>
    cases e <;> cases h
    · exact aside_produced hopen f
    · exact aside_sent hopen true
  | sending => cases e <;> cases h <;> exact aside_sent hopen _
  | logging => cases e <;> cases h <;> exact aside_nextRequest hopen
  | selecting =>
    cases e <;> cases h
    · exact rfl
    · trivial
  | upgrading =>
    cases e <;> cases h
    · exact rfl
    · trivial
  | webSocketHandler => cases e <;> cases h <;> exact aside_webSocketDone

/-- A stretch that ends in a place leaves the connection as it is. -/
lemma isOpen_of_resume {f : Findings} {e : Ending} {u : Session}
    (h : s.resume c stopping f e = some (.waits u)) : u.isOpen = s.isOpen := by
  by_cases hsound : s.Sound e
  · exact (resume_from h hsound).2.1
  · obtain hst | ⟨hst, -⟩ := resume_unsound h hsound
    · cases hst
    · cases hst

end Session

/-! ### The shutdown -/

/-- What `stop` has seen to about a live session. -/
def StopPlace.Shuts (i : ℕ) (u : Session) : StopPlace → Prop
  | .closingAll rest => i ∈ rest ∨ u.isOpen = false
  | .lastWait | .stopped => u.isOpen = false
  | _ => True

/-- `stop` has seen to a session that is still as closed as it was. -/
lemma StopPlace.Shuts.mono {stop : StopPlace} {i : ℕ} {u v : Session} (h : stop.Shuts i u)
    (hopen : u.isOpen = false → v.isOpen = false) : stop.Shuts i v := by
  cases stop with
  | closingAll rest => exact h.imp_right hopen
  | lastWait | stopped => exact hopen h
  | _ => trivial

/-- The step calls `workers->execute`. -/
def Action.Executes (t : Server) (a : Action) : Prop :=
  ∃ i e f, a = .resume i e f ∧ (t.session i).place.onPool

/-- Only the step of a session executes a job. -/
lemma Action.not_executes {t : Server} {a : Action} (h : ∀ i e f, a ≠ .resume i e f) :
    ¬ a.Executes t := by
  rintro ⟨i, e, f, heq, -⟩
  exact h i e f heq

/-- Nothing leads a session to the pool without a check. -/
def Server.Quiet (s : Server) : Prop := ∀ i, (s.session i).Quiet

/-- If the step destroys the pool, the sessions are quiet.  It is a condition on the moment at which
the last wait of `stop` ends. -/
def Action.Patient (s : Server) (a : Action) : Prop :=
  a = .waitEnds → s.stop = .lastWait → s.Quiet

/-- While the pool is there, `stop` sees to the sessions; without it, they are quiet.  Quiet
sessions cannot get to the pool any more, which is what makes its destruction safe. -/
structure Guarded (s : Server) : Prop where
  shuts : ∀ i, (s.session i).place.live → s.stop.Shuts i (s.session i)
  workers : s.workers = false → s.stop = .stopped
  quiet : s.stop = .stopped → s.Quiet

/-- The end of a stretch does not concern `stop` and the pool. -/
lemma settle_frame {s t : Server} {i : ℕ} {st : Stretch} (ht : s.settle i st = some t) :
    t.stop = s.stop ∧ t.workers = s.workers := by
  cases st with
  | waits u =>
    cases ht
    exact ⟨rfl, rfl⟩
  | finishes u =>
    simp only [Server.settle] at ht
    split_ifs at ht
    cases ht
    exact ⟨rfl, rfl⟩
  | escapes u =>
    cases ht
    exact ⟨rfl, rfl⟩

/-- A closed connection stays closed. -/
lemma Session.closeIdle_isOpen (s : Session) (h : s.isOpen = false) : s.closeIdle.isOpen = false := by
  unfold closeIdle
  split_ifs
  · exact h
  · rfl

/-- `close_idle` does not carry out `close_on_loop`. -/
lemma Session.closeIdle_closed (s : Session) : s.closeIdle.closed = s.closed := by
  unfold closeIdle
  split_ifs <;> rfl

namespace Guarded

variable {c : Config} {s t : Server} {i : ℕ}

/-- A server that has not accepted anything is guarded. -/
lemma started : Guarded {} where
  shuts i _ := trivial
  workers h := by cases h
  quiet h := by cases h

/-- A step of one session. -/
lemma update (h : Guarded s) (hstop : t.stop = s.stop) (hworkers : t.workers = s.workers)
    (hother : ∀ j, j ≠ i → t.session j = s.session j)
    (hshuts : (t.session i).place.live → s.stop.Shuts i (t.session i))
    (hquiet : s.stop = .stopped → (t.session i).Quiet) : Guarded t where
  shuts j hj := by
    rw [hstop]
    by_cases hij : j = i
    · subst hij
      exact hshuts hj
    · rw [hother j hij] at hj ⊢
      exact h.shuts j hj
  workers hgone := by
    rw [hstop]
    exact h.workers (hworkers ▸ hgone)
  quiet hstopped j := by
    rw [hstop] at hstopped
    by_cases hij : j = i
    · subst hij
      exact hquiet hstopped
    · rw [hother j hij]
      exact h.quiet hstopped j

/-- A session changes in its place. -/
lemma touch (h : Guarded s) {u : Session} (hplace : u.place = (s.session i).place)
    (hopen : (s.session i).isOpen = false → u.isOpen = false)
    (hclosed : (s.session i).closed → u.closed) : Guarded (s.set i u) := by
  have hself : (s.set i u).session i = u := Function.update_self ..
  refine h.update (t := s.set i u) (i := i) rfl rfl (fun j hij => Function.update_of_ne hij ..) ?_ ?_
  · rw [hself]
    intro hlive
    exact (h.shuts i (hplace ▸ hlive)).mono hopen
  · rw [hself]
    intro hstopped
    obtain ⟨hrouting, hreading⟩ := h.quiet hstopped i
    exact ⟨hplace ▸ hrouting, fun hread => hclosed (hreading (hplace ▸ hread))⟩

/-- A step of a session keeps the guard, and gets to the pool only while this is there: afterwards
the connection is closed and the session is quiet. -/
lemma resume (h : Guarded s) {e : Ending} {f : Findings}
    (ht : s.next c (.resume i e f) = some t) :
    Guarded t ∧ ((t.session i).place.onPool → s.workers = true) := by
  obtain ⟨st, hst, hsettle⟩ := Option.bind_eq_some_iff.mp ht
  have hlive := Session.live_of_resume hst
  have hother : ∀ j, j ≠ i → t.session j = s.session j := fun j => settle_of_ne hsettle
  have hstopped : s.stop = .stopped → st.Aside := by
    intro hstop
    have hshuts := h.shuts i hlive
    rw [hstop] at hshuts
    exact Session.resume_aside hst hshuts (h.quiet hstop i)
  cases st with
  | waits u =>
    cases hsettle
    have hself : (s.set i u).session i = u := Function.update_self ..
    constructor
    · refine h.update (t := s.set i u) (i := i) rfl rfl hother ?_ ?_
      · rw [hself]
        intro _
        exact (h.shuts i hlive).mono fun hclosed => (Session.isOpen_of_resume hst).trans hclosed
      · rw [hself]
        exact fun hstop => Session.quiet_of_aside (hstopped hstop)
    · rw [hself]
      intro hpool
      by_contra hgone
      have haside := hstopped (h.workers (Bool.eq_false_iff.mpr hgone))
      rw [(Place.facts_of_aside haside).1] at hpool
      cases hpool
  | finishes u =>
    simp only [Server.settle] at hsettle
    split_ifs at hsettle
    cases hsettle
    have hplace : ((s.sessionFinished i u).session i).place = .finished := by
      simp [Server.sessionFinished, Server.set]
    rw [hplace]
    refine ⟨h.update (i := i) rfl rfl hother ?_ ?_, fun hpool => by cases hpool⟩
    · rw [hplace]
      intro hended
      cases hended
    · exact fun _ => Session.quiet_of_aside (by rw [hplace]; rfl)
  | escapes u =>
    cases hsettle
    have hplace : ((s.set i { u with place := .escaped }).session i).place = .escaped := by
      simp [Server.set]
    rw [hplace]
    refine ⟨h.update (i := i) rfl rfl hother ?_ ?_, fun hpool => by cases hpool⟩
    · rw [hplace]
      intro hended
      cases hended
    · exact fun _ => Session.quiet_of_aside (by rw [hplace]; rfl)

/-- The pool is there until `stop` is over. -/
lemma workers_of_ne (h : Guarded s) (hstop : s.stop ≠ .stopped) : s.workers = true := by
  by_contra hgone
  exact hstop (h.workers (Bool.eq_false_iff.mpr hgone))

/-- `stop` goes on, and the pool is there. -/
lemma stops (h : Guarded s) {place : StopPlace} (hne : s.stop ≠ .stopped)
    (hplace : place ≠ .stopped)
    (hshuts : ∀ i, (s.session i).place.live → place.Shuts i (s.session i)) :
    Guarded { s with stop := place } where
  shuts := hshuts
  workers hgone := by
    change s.workers = false at hgone
    rw [h.workers_of_ne hne] at hgone
    cases hgone
  quiet hstop := absurd hstop hplace

/-- Only a server that is not stopping accepts sessions. -/
lemma accept (h : Guarded s) {ready : Bool}
    (ht : s.next c (.accept ready) = some t) : Guarded t := by
  simp only [Server.next, Server.accept] at ht
  split_ifs at ht with hready
  · cases ht
    exact h
  · have hstop : s.stop = .serving := by
      by_contra hne
      simp [Server.stopping, hne] at hready
    have hframe := settle_frame ht
    have hother : ∀ j, j ≠ s.accepted → t.session j = s.session j := by
      intro j hij
      rw [settle_of_ne ht hij]
    refine h.update (t := t) (i := s.accepted) hframe.1 hframe.2 hother ?_ ?_
    · rw [hstop]
      exact fun _ => trivial
    · rw [hstop]
      exact fun hstopped => by cases hstopped

/-- The loops of `stop` close one connection after the other, the second loop all of them. -/
lemma closeNext (h : Guarded s) (ht : s.closeNext = some t) : Guarded t := by
  unfold Server.closeNext at ht
  have hshuts := h.shuts
  cases hstop : s.stop with
  | closingIdle rest =>
    have hne : s.stop ≠ .stopped := by rw [hstop]; exact nofun
    rw [hstop] at ht
    cases rest with
    | nil =>
      cases ht
      exact h.stops hne nofun fun i _ => trivial
    | cons i rest =>
      cases ht
      have htouch : Guarded (s.set i (s.session i).closeIdle) :=
        h.touch (Session.closeIdle_place _) (Session.closeIdle_isOpen _) fun hclosed => by
          rw [Session.closeIdle_closed, hclosed]
      exact htouch.stops hne nofun fun j _ => trivial
  | closingAll rest =>
    have hne : s.stop ≠ .stopped := by rw [hstop]; exact nofun
    rw [hstop] at ht hshuts
    cases rest with
    | nil =>
      cases ht
      exact h.stops hne nofun fun i hlive => (hshuts i hlive).resolve_left nofun
    | cons i rest =>
      cases ht
      have htouch : Guarded (s.set i (s.session i).close) := h.touch rfl (fun _ => rfl) id
      refine htouch.stops hne nofun fun j hlive => ?_
      by_cases hij : j = i
      · subst hij
        exact .inr (by simp [Server.set, Session.close])
      · simp only [Server.set, Function.update_of_ne hij] at hlive ⊢
        exact (hshuts j hlive).imp_left fun hmem => (List.mem_cons.mp hmem).resolve_left hij
  | _ =>
    rw [hstop] at ht
    cases ht

/-- The end of a wait.  Behind the second one the pool is destroyed: the sessions must be quiet. -/
lemma waitEnds (h : Guarded s) (hbooks : Books s) (hpatient : s.stop = .lastWait → s.Quiet)
    (ht : s.waitEnds = some t) : Guarded t := by
  unfold Server.waitEnds at ht
  cases hstop : s.stop with
  | draining =>
    have hne : s.stop ≠ .stopped := by rw [hstop]; exact nofun
    rw [hstop] at ht
    cases ht
    split_ifs with hactive
    · refine h.stops hne nofun fun i hlive => ?_
      exact .inl ((hbooks.mem_sessions i).mpr (Place.listed_of_live hlive))
    · refine h.stops hne nofun fun i hlive => ?_
      -- Without active sessions, the list is empty.
      have hmem := (hbooks.mem_sessions i).mpr (Place.listed_of_live hlive)
      rw [hbooks.active, not_not, List.length_eq_zero_iff] at hactive
      rw [hactive] at hmem
      cases hmem
  | lastWait =>
    have hshuts := h.shuts
    rw [hstop] at ht hshuts
    cases ht
    exact ⟨hshuts, fun _ => rfl, fun _ => hpatient hstop⟩
  | _ =>
    rw [hstop] at ht
    cases ht

/-- Every step is guarded, and its job reaches the pool. -/
lemma step {a : Action} (h : Guarded s) (hbooks : Books s) (hpatient : a.Patient s)
    (ht : s.next c a = some t) : Guarded t ∧ (a.Executes t → s.workers = true) := by
  cases a with
  | resume i e f =>
    obtain ⟨hguarded, hpool⟩ := h.resume ht
    refine ⟨hguarded, ?_⟩
    rintro ⟨i', e', f', heq, honPool⟩
    cases heq
    exact hpool honPool
  | accept ready =>
    exact ⟨h.accept ht, fun hexecutes => absurd hexecutes (Action.not_executes (by simp))⟩
  | close i =>
    refine ⟨?_, fun hexecutes => absurd hexecutes (Action.not_executes (by simp))⟩
    simp only [Server.next] at ht
    split_ifs at ht
    cases ht
    exact h.touch rfl (fun _ => rfl) id
  | closeOnLoop i =>
    refine ⟨?_, fun hexecutes => absurd hexecutes (Action.not_executes (by simp))⟩
    simp only [Server.next] at ht
    split_ifs at ht
    cases ht
    exact h.touch rfl id fun _ => rfl
  | transportEnds i =>
    refine ⟨?_, fun hexecutes => absurd hexecutes (Action.not_executes (by simp))⟩
    simp only [Server.next] at ht
    split_ifs at ht
    cases ht
    exact h.touch rfl id id
  | channelCloses i =>
    refine ⟨?_, fun hexecutes => absurd hexecutes (Action.not_executes (by simp))⟩
    simp only [Server.next] at ht
    split_ifs at ht
    cases ht
    exact h.touch rfl (fun _ => rfl) id
  | stop =>
    refine ⟨?_, fun hexecutes => absurd hexecutes (Action.not_executes (by simp))⟩
    simp only [Server.next] at ht
    split_ifs at ht with hstop
    cases ht
    exact h.stops (by simp [hstop]) (by simp) fun i _ => trivial
  | closeNext =>
    exact ⟨h.closeNext ht, fun hexecutes => absurd hexecutes (Action.not_executes (by simp))⟩
  | waitEnds =>
    exact ⟨h.waitEnds hbooks (hpatient rfl) ht,
      fun hexecutes => absurd hexecutes (Action.not_executes (by simp))⟩

end Guarded

section Run

variable {c : Config} {s t : Server} {trace : List (Server × Action)}

/-- A run whose steps are patient hands jobs only to a pool that is there. -/
lemma patient_run (h : Run (Server.next c) {} trace s)
    (hpatient : ∀ v ∈ trace, v.2.Patient v.1) :
    Guarded s ∧
      ∀ v ∈ trace, ∀ t, v.1.next c v.2 = some t → v.2.Executes t → v.1.workers = true := by
  induction h with
  | start => exact ⟨Guarded.started, fun v hv => by cases hv⟩
  | @step trace t u a hrun hnext ih =>
    obtain ⟨hguarded, hjobs⟩ := ih fun v hv => hpatient v (List.mem_append_left _ hv)
    have hpatient := hpatient (t, a) (List.mem_append_right _ (List.mem_singleton_self _))
    obtain ⟨hstep, hjob⟩ := hguarded.step (Books.run hrun) hpatient hnext
    refine ⟨hstep, fun v hv w hw hexecutes => ?_⟩
    rcases List.mem_append.mp hv with hv | hv
    · exact hjobs v hv w hw hexecutes
    · rw [List.mem_singleton] at hv
      subst hv
      rw [Option.some.inj (hw.symm.trans hnext)] at hexecutes
      exact hjob hexecutes

/-- After some actions, a step hands a job to a pool that was destroyed.  It says that some way to
go on loses a job, not that every way does. -/
def LosesJob (c : Config) (s : Server) : Prop :=
  ∃ actions t a u, perform (Server.next c) s actions = some t ∧ t.next c a = some u ∧
    a.Executes u ∧ t.workers = false

/-- What loses a job later, loses a job. -/
lemma LosesJob.before {a : Action} (h : LosesJob c t) (hnext : s.next c a = some t) :
    LosesJob c s := by
  obtain ⟨actions, u, b, v, hperform, hstep, hexecutes, hworkers⟩ := h
  refine ⟨a :: actions, u, b, v, ?_, hstep, hexecutes, hworkers⟩
  rw [perform, hnext]
  exact hperform

/-- Pre routing returns, and the route has a synchronous handler. -/
lemma losesJob_of_preRouting {i : ℕ} (hworkers : s.workers = false)
    (hplace : (s.session i).place = .preRouting false) : LosesJob c s := by
  refine ⟨[], s, .resume i .returned {},
    s.set i { s.session i with place := .syncHandler }, rfl, ?_, ?_, hworkers⟩
  · simp [Server.next, Session.resume, hplace, Session.route, Session.goto, Server.settle]
  · exact ⟨i, _, _, rfl, by simp [Server.set, Place.onPool]⟩

/-- The request that the session waited for is there after all. -/
lemma losesJob_of_received {i : ℕ} {e : Ending} {f : Findings} {u : Session}
    (hworkers : s.workers = false)
    (hresume : (s.session i).resume c s.stopping f e = some (u.dispatch c s.stopping {} false)) :
    LosesJob c s := by
  unfold Session.dispatch at hresume
  split_ifs at hresume
  · have hnext : s.next c (.resume i e f) =
        some (s.set i { u with place := .preRouting false }) := by
      simp [Server.next, hresume, Session.goto, Server.settle]
    have hlost : LosesJob c (s.set i { u with place := .preRouting false }) :=
      losesJob_of_preRouting (i := i) hworkers (by simp [Server.set])
    exact hlost.before hnext
  · refine ⟨[], s, .resume i e f, s.set i { u with place := .syncHandler }, rfl, ?_, ?_,
      hworkers⟩
    · simp [Server.next, hresume, Session.route, Session.goto, Server.settle]
    · exact ⟨i, _, _, rfl, by simp [Server.set, Place.onPool]⟩

/-- A session that is not quiet may lose a job. -/
lemma losesJob_of_not_quiet (hworkers : s.workers = false) (h : ¬s.Quiet) : LosesJob c s := by
  obtain ⟨i, hi⟩ := not_forall.mp h
  unfold Session.Quiet at hi
  by_cases hplace : (s.session i).place = .preRouting false
  · exact losesJob_of_preRouting hworkers hplace
  · obtain ⟨hreading, hclosed⟩ := Classical.not_imp.mp fun himp => hi ⟨hplace, himp⟩
    cases hreads : (s.session i).place with
    | readingHead =>
      apply losesJob_of_received (i := i) (e := .returned) (f := {})
        (u := { s.session i with inRequest := true }) hworkers
      unfold Session.resume
      rw [hreads]
      exact if_neg hclosed
    | readingBody =>
      apply losesJob_of_received (i := i) (e := .returned) (f := {}) (u := s.session i) hworkers
      unfold Session.resume
      rw [hreads]
      exact if_neg hclosed
    | _ =>
      rw [hreads] at hreading
      cases hreading

/-- If `stop` destroys the pool only while no session is in pre routing and no session waits for
bytes whose `close_on_loop` has not been carried out, then every job reaches the pool.  If `stop`
does not respect this, a job may be lost. -/
theorem jobs_reach_pool (h : Run (Server.next c) {} trace s) :
    ((∀ v ∈ trace, v.2.Patient v.1) → ∀ v ∈ trace, ∀ t, v.1.next c v.2 = some t →
        v.2.Executes t → v.1.workers = true) ∧
      (s.stop = .lastWait → ¬s.Quiet → LosesJob c s) := by
  refine ⟨fun hpatient => (patient_run h hpatient).2, fun hstop hquiet => ?_⟩
  have hnext : s.next c .waitEnds = some { s with stop := .stopped, workers := false } := by
    simp only [Server.next, Server.waitEnds, hstop]
  have hloses : LosesJob c { s with stop := .stopped, workers := false } :=
    losesJob_of_not_quiet rfl hquiet
  exact hloses.before hnext

end Run

/-- The last wait of `stop`, with a session in pre routing: no job was lost, but one may be. -/
theorem jobs_reach_pool_of_slow_preRouting :
    ∃ trace s, Run (Server.next { preRouting := true }) {} trace s ∧
      (∀ v ∈ trace, ∀ t, v.1.next { preRouting := true } v.2 = some t → v.2.Executes t →
        v.1.workers = true) ∧
      LosesJob { preRouting := true } s := by
  have hstart : Run (Server.next { preRouting := true }) {} [] {} := Run.start
  have hrouting := (hstart.step (a := .accept true) rfl).step (a := .resume 0 .returned {}) rfl
  have hdraining := ((hrouting.step (a := .stop) rfl).step (a := .closeNext) rfl).step
    (a := .closeNext) rfl
  have hrun := ((hdraining.step (a := .waitEnds) rfl).step (a := .closeNext) rfl).step
    (a := .closeNext) rfl
  refine ⟨_, _, hrun, (jobs_reach_pool hrun).1 ?_, (jobs_reach_pool hrun).2 rfl ?_⟩
  · intro v hv hwait hstop
    simp only [List.nil_append, List.cons_append, List.mem_cons, List.not_mem_nil, or_false] at hv
    rcases hv with rfl | rfl | rfl | rfl | rfl | rfl | rfl | rfl <;>
      first
      | cases hwait
        done
      | cases hstop
  · exact fun hquiet => (hquiet 0).1 rfl

/-- Pre routing outlasts both waits of `stop`, and the job goes to a pool that was destroyed. -/
theorem job_after_shutdown :
    ∃ trace s a t, Run (Server.next { preRouting := true }) {} trace s ∧
      s.next { preRouting := true } a = some t ∧ a.Executes t ∧ s.workers = false := by
  obtain ⟨s, t, hs, ht, hplace, hworkers⟩ :
      ∃ s t, perform (Server.next { preRouting := true }) {}
          [.accept true, .resume 0 .returned {}, .stop, .closeNext, .closeNext, .waitEnds,
            .closeNext, .closeNext, .waitEnds] = some s ∧
        s.next { preRouting := true } (.resume 0 .returned {}) = some t ∧
        (t.session 0).place.onPool ∧ s.workers = false := ⟨_, _, rfl, rfl, rfl, rfl⟩
  obtain ⟨trace, hrun⟩ := run_of_perform hs
  exact ⟨trace, s, _, t, hrun, ht, ⟨0, _, _, rfl, hplace⟩, hworkers⟩

end Chhttp.Lifetime
