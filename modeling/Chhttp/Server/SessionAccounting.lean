import Chhttp.Server.Lifetime

/-!
# Accounting for sessions

`AccountedFor` says of a server that every session that has ended executed `session_finished` once
and closed its connection, and that `active_sessions` counts the sessions that are still there.

`serve` calls callbacks within handlers of exceptions, with two exceptions of its own: the selector
of a subprotocol, and the exception handler.  If one of them throws, the session ends where it is.
And after the handler of a WebSocket, `serve` closes the connection only if the channel is open;
the channel is not open once the client has ended the transport.  A step that avoids these three
cases is `Sound`, and `sessions_accounted_iff` says that they are all.
-/

namespace Chhttp.Lifetime

open Transition

/-! ### Stretches -/

/-- What a stretch does to a session outside these cases: it goes on as it was, or it ends with its
connection closed. -/
def Stretch.From (s : Session) : Stretch → Prop
  | .waits t => t.place.live ∧ t.isOpen = s.isOpen ∧ t.finishes = s.finishes
  | .finishes t => t.isOpen = false ∧ t.finishes = s.finishes
  | .escapes _ => False

/-- What every stretch does to a session.  A stretch does not execute `session_finished` by itself:
that comes with its end. -/
def Stretch.Keeps (s : Session) : Stretch → Prop
  | .waits t => t.place.live ∧ t.finishes = s.finishes
  | .finishes t => t.finishes = s.finishes
  | .escapes t => t.finishes = s.finishes

/-- A stretch outside these cases does what every stretch does. -/
lemma Stretch.From.keeps {s : Session} {st : Stretch} (h : st.From s) : st.Keeps s := by
  cases st with
  | waits t => exact ⟨h.1, h.2.2⟩
  | finishes t => exact h.2
  | escapes t => exact h.elim

namespace Session

variable {c : Config} {stopping : Bool}

/-- A stretch that ends at the next suspension point. -/
lemma from_goto (s : Session) {place : Place} (h : place.live) : (s.goto place).From s :=
  ⟨h, rfl, rfl⟩

/-- A stretch that leaves the loop of `serve`: its connection is closed on the way out. -/
lemma from_leave (s : Session) : s.leave.From s := ⟨rfl, rfl⟩

/-- The head of the loop waits for the next request, or leaves. -/
lemma from_loopHead (s : Session) : (s.loopHead c stopping).From s := by
  unfold loopHead
  split_ifs
  · exact from_leave s
  · exact from_goto s rfl
  · exact from_leave s

/-- What follows a response: the counter goes up, and the loop goes on or is left. -/
lemma from_nextRequest (s : Session) : (s.nextRequest c stopping).From s := by
  unfold nextRequest
  dsimp only
  split_ifs
  · exact from_loopHead { s with requestCount := s.requestCount + 1, inRequest := false }
  · exact from_leave s

/-- After a response, a logger is called, or the iteration ends. -/
lemma from_sent (s : Session) (error : Bool) : (s.sent c stopping error).From s := by
  unfold sent
  dsimp only
  split_ifs
  · exact from_goto s rfl
  · exact from_nextRequest { s with reusable := s.reusable && !error }

/-- Every kind of response is sent from a place where the session is live. -/
lemma from_sendResponse (s : Session) (reply : Reply) : (s.sendResponse reply).From s := by
  cases reply <;> exact from_goto s rfl

/-- A connection that was closed during `dispatch` gets no response. -/
lemma from_dispatched (s : Session) (f : Findings) : (s.dispatched c stopping f).From s := by
  unfold dispatched
  split_ifs
  · exact from_sendResponse
      { s with
        reusable := f.keepAlive &&
          !(decide (c.keepAliveMaxRequests ≤ s.requestCount + 1) || stopping) } f.reply
  · exact from_leave s

/-- What follows a callback that threw. -/
lemma from_caught (s : Session) (f : Findings) : (s.caught c stopping f).From s := by
  unfold caught
  split_ifs
  · exact from_goto s rfl
  · exact from_dispatched s f

/-- Post routing, if there is such a handler. -/
lemma from_finish (s : Session) (f : Findings) : (s.finish c stopping f).From s := by
  unfold finish
  split_ifs
  · exact from_goto s rfl
  · exact from_dispatched s f

/-- Without a route and a file, the error handler is called, if there is one. -/
lemma from_notFound (s : Session) (f : Findings) : (s.notFound c stopping f).From s := by
  unfold notFound
  split_ifs
  · exact from_goto s rfl
  · exact from_finish s f

/-- Routing leads to a handler, to the mounts, or to nothing. -/
lemma from_route (s : Session) (f : Findings) (stream : Bool) :
    (s.route c stopping f stream).From s := by
  unfold route
  cases stream with
  | true => exact from_goto s rfl
  | false =>
    rw [if_neg Bool.false_ne_true]
    cases f.target with
    | asyncRoute => exact from_goto s rfl
    | syncRoute => exact from_goto s rfl
    | noRoute =>
      dsimp only
      split_ifs
      · exact from_goto s rfl
      · exact from_notFound s f

/-- Pre routing comes first, if there is such a handler. -/
lemma from_dispatch (s : Session) (f : Findings) (stream : Bool) :
    (s.dispatch c stopping f stream).From s := by
  unfold dispatch
  split_ifs
  · exact from_goto s rfl
  · exact from_route s f stream

/-- An upgrade leads to a selector, to the handshake or to a rejection; others are dispatched. -/
lemma from_received (s : Session) (f : Findings) : (s.received c stopping f).From s := by
  unfold received
  split_ifs
  · exact from_goto s rfl
  · exact from_goto s rfl
  · exact from_goto s rfl
  · exact from_dispatch s f false

/-- A stream route gets its request without the body; elsewhere the body is read first. -/
lemma from_headRead (s : Session) (f : Findings) : (s.headRead c stopping f).From s := by
  unfold headRead
  dsimp only
  split_ifs
  · exact from_goto s rfl
  · exact from_dispatch { s with inRequest := true } f true
  · exact from_goto s rfl
  · exact from_received { s with inRequest := true } f

/-- The producer of a stream has returned: the last chunk is sent, or the response is complete. -/
lemma from_produced (s : Session) (f : Findings) : (s.produced c stopping f).From s := by
  unfold produced
  split_ifs
  · exact from_goto s rfl
  · exact from_sent s false
  · exact from_sent s true

/-- `serve` starts with a handshake, or with its loop. -/
lemma from_serve (s : Session) : (s.serve c stopping).From s := by
  unfold serve
  split_ifs
  · exact from_goto s rfl
  · exact from_loopHead s

/-- The handler of a WebSocket ends while its channel is closed and its connection is not. -/
def Abandons (s : Session) : Prop := s.channelOpen = false ∧ s.isOpen = true

instance (s : Session) : Decidable s.Abandons := inferInstanceAs (Decidable (_ ∧ _))

/-- A session and the way its callback or operation ends are not one of the three cases.  These are
the three ways in which a session can end, or stay, without `session_finished`. -/
def Sound (s : Session) (e : Ending) : Prop :=
  match s.place with
  | .selecting => e ≠ .threw
  | .exceptionHandler => e ≠ .threw
  | .webSocketHandler => ¬s.Abandons
  | _ => True

/-- What follows the handler of a WebSocket, unless it abandons its connection: it closes
the channel, or the connection is already closed. -/
lemma from_webSocketDone (s : Session) (h : ¬s.Abandons) : s.webSocketDone.From s := by
  unfold webSocketDone
  split_ifs with hopen
  · exact from_goto { s with channelOpen := false } rfl
  · refine ⟨?_, rfl⟩
    rw [Bool.and_eq_true, not_and] at hopen
    by_contra hisOpen
    rw [Bool.not_eq_false] at hisOpen
    exact h ⟨Bool.eq_false_iff.mpr fun hchannel => hopen hchannel hisOpen, hisOpen⟩

/-- A sound stretch. -/
lemma resume_from {s : Session} {f : Findings} {e : Ending} {st : Stretch}
    (h : s.resume c stopping f e = some st) (hsound : s.Sound e) : st.From s := by
  unfold resume at h
  unfold Sound at hsound
  -- one case for each place of the source, and in it one for each way it can end
  generalize s.place = place at h hsound
  cases place with
  | absent | finished | escaped => cases e <;> cases h
  | handshaking =>
    cases e <;> cases h
    · exact from_loopHead s
    · exact from_leave s
  | readingHead =>
    cases e with
    | returned =>
      dsimp only at h
      split_ifs at h
      cases h
      exact from_headRead s f
    | failed =>
      cases h
      split_ifs
      · exact from_goto s rfl
      · exact from_leave s
    | threw => cases h
  | readingBody =>
    cases e with
    | returned =>
      dsimp only at h
      split_ifs at h
      cases h
      exact from_received s f
    | failed =>
      cases h
      exact from_goto s rfl
    | threw => cases h
  | rejecting | closingWebSocket => cases e <;> cases h <;> exact from_leave s
  | preRouting stream =>
    cases e <;> cases h
    · split_ifs
      · exact from_dispatched s f
      · exact from_route s f stream
    · exact from_caught s f
  | streamHandler | asyncHandler | syncHandler | errorHandler =>
    cases e <;> cases h
    · exact from_finish s f
    · exact from_caught s f
  | servingStatic =>
    cases e <;> cases h
    · split_ifs
      · exact from_finish s f
      · exact from_notFound s f
    · exact from_caught s f
  | postRouting =>
    cases e <;> cases h
    · exact from_dispatched s f
    · exact from_caught s f
  -- the handler of exceptions may not throw itself: a sound session excludes that
  | exceptionHandler =>
    cases e <;> cases h
    · exact from_dispatched s f
    · exact absurd rfl hsound
  | compressing =>
    cases e <;> cases h
    exact from_goto s rfl
  | sendingHead =>
    cases e <;> cases h
    · split_ifs
      · exact from_sent s false
      · exact from_goto s rfl
    · exact from_sent s true
  | producing =>
    cases e <;> cases h
    · exact from_produced s f
    · exact from_sent s true
  | sending => cases e <;> cases h <;> exact from_sent s _
  | logging => cases e <;> cases h <;> exact from_nextRequest s
  -- nor may the selector of the subprotocol
  | selecting =>
    cases e <;> cases h
    · exact from_goto s rfl
    · exact absurd rfl hsound
  | upgrading =>
    cases e <;> cases h
    · exact from_goto { s with channelOpen := true } rfl
    · exact from_leave s
  | webSocketHandler => cases e <;> cases h <;> exact from_webSocketDone s hsound

/-- A stretch that is not sound ends the session as it is. -/
lemma resume_unsound {s : Session} {f : Findings} {e : Ending} {st : Stretch}
    (h : s.resume c stopping f e = some st) (hsound : ¬s.Sound e) :
    st = .escapes s ∨ st = .finishes s ∧ s.isOpen = true := by
  unfold resume at h
  unfold Sound at hsound
  generalize s.place = place at h hsound
  cases place with
  | selecting | exceptionHandler =>
    obtain rfl := not_not.mp hsound
    cases h
    exact .inl rfl
  | webSocketHandler =>
    obtain ⟨hchannel, hopen⟩ := not_not.mp hsound
    have hdone : s.webSocketDone = .finishes s := by
      unfold webSocketDone
      rw [hchannel, Bool.false_and, if_neg Bool.false_ne_true]
    cases e <;> cases h <;> exact .inr ⟨hdone, hopen⟩
  | _ => exact absurd trivial hsound

/-- No stretch but its end executes `session_finished`. -/
lemma resume_keeps {s : Session} {f : Findings} {e : Ending} {st : Stretch}
    (h : s.resume c stopping f e = some st) : st.Keeps s := by
  by_cases hsound : s.Sound e
  · exact (resume_from h hsound).keeps
  · obtain rfl | ⟨rfl, -⟩ := resume_unsound h hsound
    · exact rfl
    · exact rfl

/-- Only live sessions go on. -/
lemma live_of_resume {s : Session} {f : Findings} {e : Ending} {st : Stretch}
    (h : s.resume c stopping f e = some st) : s.place.live := by
  unfold resume at h
  generalize s.place = place at h
  cases place with
  | absent | finished | escaped => cases e <;> cases h
  | _ => rfl

end Session

/-! ### The books -/

/-- The session is in `sessions`. -/
def Place.listed : Place → Bool
  | .absent | .finished => false
  | _ => true

/-- How often a session in a place has executed `session_finished`. -/
def Place.finishes : Place → ℕ
  | .finished => 1
  | _ => 0

/-- A live session is in the list. -/
lemma Place.listed_of_live {place : Place} (h : place.live) : place.listed := by
  cases place <;> first | rfl | cases h

/-- A session in the list has not executed `session_finished`. -/
lemma Place.finishes_of_listed {place : Place} (h : place.listed) : place.finishes = 0 := by
  cases place <;> first | rfl | cases h

/-- A session in the list is live, unless an exception has escaped from it. -/
lemma Place.live_iff {place : Place} : place.live ↔ place.listed ∧ place ≠ .escaped := by
  cases place <;> simp [Place.live, Place.ended, Place.listed]

/-- The sessions that the loop of `stop` has still to look at. -/
def StopPlace.rest : StopPlace → List ℕ
  | .closingIdle rest | .closingAll rest => rest
  | _ => []

/-- The list and the counter of sessions agree with the sessions, whatever has happened.  This holds
also in runs with exceptions: a session that escaped stays on the list for ever, and the books say
so. -/
structure Books (s : Server) : Prop where
  nodup : s.sessions.Nodup
  mem_sessions : ∀ i, i ∈ s.sessions ↔ (s.session i).place.listed
  active : s.activeSessions = s.sessions.length
  absent : ∀ i, (s.session i).place = .absent ↔ s.accepted ≤ i
  finishes : ∀ i, (s.session i).finishes = (s.session i).place.finishes
  rest : ∀ i ∈ s.stop.rest, i ∈ s.sessions

/-- Closing an idle session does not move it. -/
@[simp] lemma Session.closeIdle_place (s : Session) : s.closeIdle.place = s.place := by
  unfold closeIdle
  split_ifs <;> rfl

/-- Closing an idle session does not finish it. -/
@[simp] lemma Session.closeIdle_finishes (s : Session) : s.closeIdle.finishes = s.finishes := by
  unfold closeIdle
  split_ifs <;> rfl

/-- A stretch replaces what the session was. -/
lemma Server.settle_set (s : Server) {i : ℕ} {u : Session} (st : Stretch) :
    (s.set i u).settle i st = s.settle i st := by
  cases st <;> simp [settle, set, sessionFinished]

namespace Books

variable {c : Config} {s t : Server}

/-- The books of a server that has not accepted anything. -/
lemma started : Books {} where
  nodup := List.nodup_nil
  mem_sessions i := by simp [Place.listed]
  active := rfl
  absent i := by simp
  finishes i := rfl
  rest i hi := by cases hi

/-- A session changes, and its place in the books does not. -/
lemma set (h : Books s) {i : ℕ} {u : Session}
    (hlisted : u.place.listed = (s.session i).place.listed)
    (habsent : u.place = .absent ↔ (s.session i).place = .absent)
    (hfinishes : u.finishes = u.place.finishes) : Books (s.set i u) where
  nodup := h.nodup
  mem_sessions j := by
    by_cases hij : j = i
    · subst hij
      simpa [Server.set, hlisted] using h.mem_sessions j
    · simpa [Server.set, Function.update_of_ne hij] using h.mem_sessions j
  active := h.active
  absent j := by
    by_cases hij : j = i
    · subst hij
      simpa [Server.set, habsent] using h.absent j
    · simpa [Server.set, Function.update_of_ne hij] using h.absent j
  finishes j := by
    by_cases hij : j = i
    · subst hij
      simpa [Server.set] using hfinishes
    · simpa [Server.set, Function.update_of_ne hij] using h.finishes j
  rest := h.rest

/-- A session changes in its place. -/
lemma touch (h : Books s) {i : ℕ} {u : Session} (hplace : u.place = (s.session i).place)
    (hfinishes : u.finishes = (s.session i).finishes) : Books (s.set i u) :=
  h.set (by rw [hplace]) (by rw [hplace]) (by rw [hfinishes, hplace, h.finishes i])

/-- A session goes on to another place. -/
lemma move (h : Books s) {i : ℕ} {u : Session} (hi : (s.session i).place.live)
    (hu : u.place.listed) (hfinishes : u.finishes = (s.session i).finishes) :
    Books (s.set i u) := by
  have hlisted := Place.listed_of_live hi
  apply h.set
  · rw [hu, hlisted]
  · constructor
    · intro habsent
      rw [habsent] at hu
      cases hu
    · intro habsent
      rw [habsent] at hi
      cases hi
  · rw [hfinishes, h.finishes i, Place.finishes_of_listed hlisted, Place.finishes_of_listed hu]

/-- `stop` goes on. -/
lemma stops (h : Books s) {place : StopPlace} {workers : Bool}
    (hrest : ∀ i ∈ place.rest, i ∈ s.sessions) : Books { s with stop := place, workers } :=
  { h with rest := hrest }

/-- `session_finished` removes a session from the list and counts it down.  It does not come between
the steps of a loop of `stop`, which has the mutex. -/
lemma sessionFinished (h : Books s) {i : ℕ} {u : Session} (hi : (s.session i).place.live)
    (hfinishes : u.finishes = (s.session i).finishes) (hlocked : s.stop.locked = false) :
    Books (s.sessionFinished i u) := by
  have hlisted := Place.listed_of_live hi
  have hmem := (h.mem_sessions i).mpr hlisted
  refine ⟨h.nodup.erase i, fun j => ?_, ?_, fun j => ?_, fun j => ?_, fun j hj => ?_⟩
  · by_cases hij : j = i
    · subst hij
      simp [Server.sessionFinished, Server.set, h.nodup.mem_erase_iff, Place.listed]
    · simpa [Server.sessionFinished, Server.set, Function.update_of_ne hij,
        h.nodup.mem_erase_iff, hij] using h.mem_sessions j
  · simp only [Server.sessionFinished, Server.set, List.length_erase_of_mem hmem, h.active]
  · by_cases hij : j = i
    · subst hij
      have habsent := h.absent j
      have hpresent : (s.session j).place ≠ .absent := fun heq => by
        rw [heq] at hi
        cases hi
      simpa [Server.sessionFinished, Server.set, hpresent] using habsent
    · simpa [Server.sessionFinished, Server.set, Function.update_of_ne hij] using h.absent j
  · by_cases hij : j = i
    · subst hij
      have hzero := (h.finishes j).trans (Place.finishes_of_listed hlisted)
      simp [Server.sessionFinished, Server.set, hfinishes, hzero, Place.finishes]
    · simpa [Server.sessionFinished, Server.set, Function.update_of_ne hij] using h.finishes j
  · change j ∈ s.stop.rest at hj
    cases hstop : s.stop with
    | closingIdle | closingAll =>
      rw [hstop] at hlocked
      cases hlocked
    | _ =>
      rw [hstop] at hj
      cases hj

/-- A stretch of a live session. -/
lemma settle (h : Books s) {i : ℕ} {st : Stretch} (hi : (s.session i).place.live)
    (hst : st.Keeps (s.session i)) (ht : s.settle i st = some t) : Books t := by
  cases st with
  | waits u =>
    cases ht
    exact h.move hi (Place.listed_of_live hst.1) hst.2
  | finishes u =>
    simp only [Server.settle] at ht
    split_ifs at ht with hlocked
    cases ht
    exact h.sessionFinished hi hst (Bool.not_eq_true _ ▸ hlocked)
  | escapes u =>
    cases ht
    exact h.move hi rfl hst

/-- The first session that there is room for. -/
lemma enlist (h : Books s) (hstop : s.stop = .serving) :
    Books
      (Server.set
        { s with
          sessions := s.sessions ++ [s.accepted]
          accepted := s.accepted + 1
          activeSessions := s.activeSessions + 1 }
        s.accepted { place := .handshaking }) := by
  have habsent : ∀ j, s.accepted ≤ j → (s.session j).place = .absent := fun j => (h.absent j).mpr
  have hnew : s.accepted ∉ s.sessions := fun hmem => by
    rw [h.mem_sessions, habsent _ le_rfl] at hmem
    cases hmem
  refine ⟨?_, fun j => ?_, ?_, fun j => ?_, fun j => ?_, fun j hj => ?_⟩
  · exact List.nodup_append.mpr
      ⟨h.nodup, List.nodup_singleton _, fun a ha b hb => by
        rw [List.mem_singleton] at hb
        rintro rfl
        exact hnew (hb ▸ ha)⟩
  · by_cases hj : j = s.accepted
    · subst hj
      simp [Server.set, Place.listed]
    · simpa [Server.set, Function.update_of_ne hj, hj] using h.mem_sessions j
  · simp [Server.set, h.active]
  · by_cases hj : j = s.accepted
    · subst hj
      simp [Server.set]
    · have hlt : s.accepted + 1 ≤ j ↔ s.accepted ≤ j := by omega
      simpa [Server.set, Function.update_of_ne hj, hlt] using h.absent j
  · by_cases hj : j = s.accepted
    · subst hj
      simp [Server.set, Place.finishes]
    · simpa [Server.set, Function.update_of_ne hj] using h.finishes j
  · change j ∈ s.stop.rest at hj
    rw [hstop] at hj
    cases hj

/-- A session that is accepted is entered into the list before it starts. -/
lemma accept (h : Books s) {ready : Bool} (ht : s.accept c ready = some t) : Books t := by
  unfold Server.accept at ht
  split_ifs at ht with hready
  · cases ht
    exact h
  · have hstop : s.stop = .serving := by
      by_contra hne
      simp [Server.stopping, hne] at hready
    rw [← Server.settle_set (u := { place := .handshaking })] at ht
    refine (h.enlist hstop).settle ?_ ?_ ht
    · simp [Server.set, Place.live, Place.ended]
    · have hkeeps : (Session.serve c s.stopping {}).Keeps { place := .handshaking } :=
        (Session.from_serve {}).keeps
      simpa [Server.set] using hkeeps

/-- The loops of `stop` go through the list that they have copied. -/
lemma closeNext (h : Books s) (ht : s.closeNext = some t) : Books t := by
  unfold Server.closeNext at ht
  have hrest := h.rest
  cases hstop : s.stop with
  | closingIdle rest =>
    rw [hstop] at ht hrest
    cases rest with
    | nil =>
      cases ht
      exact h.stops fun i hi => by cases hi
    | cons i rest =>
      cases ht
      refine (h.touch (Session.closeIdle_place _) (Session.closeIdle_finishes _)).stops ?_
      intro j hj
      exact hrest j (List.mem_cons_of_mem i hj)
  | closingAll rest =>
    rw [hstop] at ht hrest
    cases rest with
    | nil =>
      cases ht
      exact h.stops fun i hi => by cases hi
    | cons i rest =>
      cases ht
      have hbooks : Books (s.set i (s.session i).close) := h.touch rfl rfl
      refine hbooks.stops ?_
      intro j hj
      exact hrest j (List.mem_cons_of_mem i hj)
  | _ =>
    rw [hstop] at ht
    cases ht

/-- The waits of `stop` change neither the list nor the counter. -/
lemma waitEnds (h : Books s) (ht : s.waitEnds = some t) : Books t := by
  unfold Server.waitEnds at ht
  cases hstop : s.stop with
  | draining =>
    rw [hstop] at ht
    cases ht
    refine h.stops fun i hi => ?_
    split_ifs at hi
    · exact hi
    · cases hi
  | lastWait =>
    rw [hstop] at ht
    cases ht
    exact h.stops fun i hi => by cases hi
  | _ =>
    rw [hstop] at ht
    cases ht

/-- Every step keeps the books. -/
lemma step {a : Action} (h : Books s) (ht : s.next c a = some t) : Books t := by
  cases a with
  | accept ready => exact h.accept ht
  | resume i e f =>
    obtain ⟨st, hst, hsettle⟩ := Option.bind_eq_some_iff.mp ht
    exact h.settle (Session.live_of_resume hst) (Session.resume_keeps hst) hsettle
  | close i =>
    simp only [Server.next] at ht
    split_ifs at ht
    cases ht
    exact h.touch rfl rfl
  | closeOnLoop i =>
    simp only [Server.next] at ht
    split_ifs at ht
    cases ht
    exact h.touch rfl rfl
  | transportEnds i =>
    simp only [Server.next] at ht
    split_ifs at ht
    cases ht
    exact h.touch rfl rfl
  | channelCloses i =>
    simp only [Server.next] at ht
    split_ifs at ht
    cases ht
    exact h.touch rfl rfl
  | stop =>
    simp only [Server.next] at ht
    split_ifs at ht
    cases ht
    exact h.stops fun i hi => hi
  | closeNext => exact h.closeNext ht
  | waitEnds => exact h.waitEnds ht

end Books

/-! ### Ruined sessions -/

/-- The session has ended without `session_finished`, or with its connection open. -/
def Session.Ruined (s : Session) : Prop :=
  s.place = .escaped ∨ s.place = .finished ∧ s.isOpen = true

/-- A live session is not ruined. -/
lemma Session.not_ruined_of_live {s : Session} (h : s.place.live) : ¬s.Ruined := by
  rintro (hplace | ⟨hplace, -⟩)
  · rw [hplace] at h
    cases h
  · rw [hplace] at h
    cases h

/-- A change of a session in its place does not ruin it, and nothing repairs it. -/
lemma Session.ruined_touch {s u : Session} (hplace : u.place = s.place)
    (h : u.isOpen = s.isOpen ∨ s.place.listed) : u.Ruined ↔ s.Ruined := by
  unfold Ruined
  rw [hplace]
  obtain hopen | hlisted := h
  · rw [hopen]
  · have hfinished : s.place ≠ .finished := fun heq => by
      rw [heq] at hlisted
      cases hlisted
    simp [hfinished]

/-- A sound step of a server.  Only the resumption of a session can be unsound. -/
def Action.Sound (s : Server) : Action → Prop
  | .resume i e _ => (s.session i).Sound e
  | _ => True

/-- The step ruins a session. -/
def Action.Ruins (s : Server) (i : ℕ) (a : Action) : Prop :=
  ∃ e f, a = .resume i e f ∧ ¬(s.session i).Sound e

section Ruin

variable {c : Config} {s t : Server} {i j : ℕ}

/-- A change of one session in its place ruins none. -/
lemma ruined_set {u : Session} (hplace : u.place = (s.session i).place)
    (h : u.isOpen = (s.session i).isOpen ∨ (s.session i).place.listed) :
    ((s.set i u).session j).Ruined ↔ (s.session j).Ruined := by
  by_cases hij : j = i
  · subst hij
    simpa [Server.set] using Session.ruined_touch hplace h
  · simp [Server.set, Function.update_of_ne hij]

/-- The end of a stretch concerns its own session only. -/
lemma settle_of_ne {st : Stretch} (ht : s.settle i st = some t) (hij : j ≠ i) :
    t.session j = s.session j := by
  cases st with
  | waits u =>
    cases ht
    exact Function.update_of_ne hij _ _
  | finishes u =>
    simp only [Server.settle] at ht
    split_ifs at ht
    cases ht
    exact Function.update_of_ne hij _ _
  | escapes u =>
    cases ht
    exact Function.update_of_ne hij _ _

/-- A stretch outside the three cases does not ruin its session. -/
lemma not_ruined_of_settle {st : Stretch} (hst : st.From (s.session i))
    (ht : s.settle i st = some t) : ¬(t.session i).Ruined := by
  cases st with
  | waits u =>
    cases ht
    apply Session.not_ruined_of_live
    simpa [Server.set] using hst.1
  | finishes u =>
    simp only [Server.settle] at ht
    split_ifs at ht
    cases ht
    simp [Server.sessionFinished, Server.set, Session.Ruined, hst.1]
  | escapes u => exact hst.elim

/-- A session that goes on ruins no other one, and itself only if its step is not sound. -/
lemma ruined_resume {i : ℕ} {e : Ending} {f : Findings} (ht : s.next c (.resume i e f) = some t) :
    (t.session j).Ruined ↔ (s.session j).Ruined ∨ (j = i ∧ ¬(s.session i).Sound e) := by
  obtain ⟨st, hst, hsettle⟩ := Option.bind_eq_some_iff.mp ht
  by_cases hij : j = i
  · subst hij
    have hlive := Session.not_ruined_of_live (Session.live_of_resume hst)
    by_cases hsound : (s.session j).Sound e
    · exact iff_of_false (not_ruined_of_settle (Session.resume_from hst hsound) hsettle)
        (not_or.mpr ⟨hlive, fun h => h.2 hsound⟩)
    · refine iff_of_true ?_ (.inr ⟨rfl, hsound⟩)
      obtain rfl | ⟨rfl, hopen⟩ := Session.resume_unsound hst hsound
      · cases hsettle
        exact .inl (by simp [Server.set])
      · simp only [Server.settle] at hsettle
        split_ifs at hsettle
        cases hsettle
        exact .inr (by simp [Server.sessionFinished, Server.set, hopen])
  · rw [settle_of_ne hsettle hij, or_iff_left fun h => hij h.1]

/-- A session that is accepted is not ruined. -/
lemma ruined_accept {ready : Bool} (h : Books s) (ht : s.next c (.accept ready) = some t) :
    (t.session j).Ruined ↔ (s.session j).Ruined := by
  simp only [Server.next, Server.accept] at ht
  split_ifs at ht
  · cases ht
    exact Iff.rfl
  · by_cases hij : j = s.accepted
    · subst hij
      have habsent : (s.session s.accepted).place = .absent := (h.absent _).mpr le_rfl
      rw [← Server.settle_set (u := {})] at ht
      refine iff_of_false (not_ruined_of_settle ?_ ht) ?_
      · simpa [Server.set] using Session.from_serve (c := c) {}
      · simp [Session.Ruined, habsent]
    · rw [settle_of_ne ht hij]

/-- `stop` ruins no session that it closes. -/
lemma ruined_closeNext (h : Books s) (ht : s.next c .closeNext = some t) :
    (t.session j).Ruined ↔ (s.session j).Ruined := by
  simp only [Server.next, Server.closeNext] at ht
  have hrest := h.rest
  split at ht
  · cases ht
    exact Iff.rfl
  · rename_i i rest hstop
    cases ht
    have hlisted := (h.mem_sessions i).mp (hrest i (by simp [hstop, StopPlace.rest]))
    exact ruined_set (Session.closeIdle_place _) (.inr hlisted)
  · cases ht
    exact Iff.rfl
  · rename_i i rest hstop
    cases ht
    have hlisted := (h.mem_sessions i).mp (hrest i (by simp [hstop, StopPlace.rest]))
    exact ruined_set (i := i) (u := (s.session i).close) rfl (.inr hlisted)
  · cases ht

/-- Exactly the unsound steps ruin sessions, and for good. -/
lemma ruined_step {a : Action} (h : Books s) (ht : s.next c a = some t) :
    (t.session j).Ruined ↔ (s.session j).Ruined ∨ a.Ruins s j := by
  -- only the resumption of the session itself can be unsound
  have hother : (∀ e f, a ≠ .resume j e f) → ¬a.Ruins s j := fun hne ⟨e, f, heq, _⟩ => hne e f heq
  cases a with
  | resume i e f =>
    rw [ruined_resume ht]
    refine or_congr_right ⟨?_, ?_⟩
    · rintro ⟨rfl, hunsound⟩
      exact ⟨e, f, rfl, hunsound⟩
    · rintro ⟨e', f', heq, hunsound⟩
      cases heq
      exact ⟨rfl, hunsound⟩
  | accept ready =>
    rw [or_iff_left (hother fun _ _ => nofun)]
    exact ruined_accept h ht
  | close i =>
    rw [or_iff_left (hother fun _ _ => nofun)]
    simp only [Server.next] at ht
    split_ifs at ht with hlive
    cases ht
    exact ruined_set rfl (.inr (Place.listed_of_live hlive))
  | closeOnLoop i =>
    rw [or_iff_left (hother fun _ _ => nofun)]
    simp only [Server.next] at ht
    split_ifs at ht
    cases ht
    exact ruined_set rfl (.inl rfl)
  | transportEnds i =>
    rw [or_iff_left (hother fun _ _ => nofun)]
    simp only [Server.next] at ht
    split_ifs at ht
    cases ht
    exact ruined_set rfl (.inl rfl)
  | channelCloses i =>
    rw [or_iff_left (hother fun _ _ => nofun)]
    simp only [Server.next] at ht
    split_ifs at ht with hplace
    cases ht
    exact ruined_set rfl (.inr (by rw [hplace.1]; rfl))
  | stop =>
    rw [or_iff_left (hother fun _ _ => nofun)]
    simp only [Server.next] at ht
    split_ifs at ht
    cases ht
    exact Iff.rfl
  | closeNext =>
    rw [or_iff_left (hother fun _ _ => nofun)]
    exact ruined_closeNext h ht
  | waitEnds =>
    rw [or_iff_left (hother fun _ _ => nofun)]
    simp only [Server.next, Server.waitEnds] at ht
    split at ht
    · cases ht
      exact Iff.rfl
    · cases ht
      exact Iff.rfl
    · cases ht

end Ruin

/-! ### Accounting -/

/-- The sessions that have not ended.  It is defined by the coroutines themselves, not by the list
of the server. -/
def Server.liveSessions (s : Server) : Finset ℕ :=
  (Finset.range s.accepted).filter fun i => (s.session i).place.live

/-- Every session that has ended executed `session_finished` exactly once, closed its connection and
is not in the list; `active_sessions` counts the others, and without any, `stop` does not wait. -/
structure AccountedFor (s : Server) : Prop where
  ended : ∀ i, (s.session i).place.ended →
    (s.session i).finishes = 1 ∧ (s.session i).isOpen = false ∧ i ∉ s.sessions
  active : s.activeSessions = s.liveSessions.card
  drained : (∀ i, ¬(s.session i).place.live) → s.activeSessions = 0

section Accounts

variable {c : Config} {s : Server} {trace : List (Server × Action)}

/-- The books are kept in every run. -/
lemma Books.run (h : Run (Server.next c) {} trace s) : Books s :=
  h.invariant (fun _ _ _ hbooks hnext => hbooks.step hnext) Books.started

/-- Without ruined sessions, the books are those of the live sessions. -/
lemma Books.toFinset_sessions (h : Books s) (hruined : ∀ i, ¬(s.session i).Ruined) :
    s.sessions.toFinset = s.liveSessions := by
  ext i
  rw [List.mem_toFinset, h.mem_sessions, Server.liveSessions, Finset.mem_filter, Finset.mem_range,
    Place.live_iff]
  constructor
  · intro hlisted
    have habsent : ¬s.accepted ≤ i := fun hle => by
      rw [(h.absent i).mpr hle] at hlisted
      cases hlisted
    exact ⟨not_le.mp habsent, hlisted, fun hescaped => hruined i (.inl hescaped)⟩
  · exact fun hlive => hlive.2.1

/-- Without ruined sessions, all sessions are accounted for. -/
lemma Books.accountedFor (h : Books s) (hruined : ∀ i, ¬(s.session i).Ruined) :
    AccountedFor s := by
  have hactive : s.activeSessions = s.liveSessions.card := by
    rw [h.active, ← List.toFinset_card_of_nodup h.nodup, h.toFinset_sessions hruined]
  refine ⟨fun i hended => ?_, hactive, fun hlive => ?_⟩
  · have hplace : (s.session i).place = .finished := by
      cases hplace : (s.session i).place with
      | finished => rfl
      | escaped => exact (hruined i (.inl hplace)).elim
      | _ =>
        rw [hplace] at hended
        cases hended
    refine ⟨?_, ?_, ?_⟩
    · rw [h.finishes, hplace]
      rfl
    · exact Bool.eq_false_iff.mpr fun hopen => hruined i (.inr ⟨hplace, hopen⟩)
    · rw [h.mem_sessions, hplace]
      exact Bool.false_ne_true
  · rw [hactive, Finset.card_eq_zero]
    exact Finset.filter_eq_empty_iff.mpr fun i _ => hlive i

/-- A session that is accounted for is not ruined. -/
lemma AccountedFor.not_ruined (h : AccountedFor s) (hbooks : Books s) (i : ℕ) :
    ¬(s.session i).Ruined := by
  rintro (hplace | ⟨hplace, hopen⟩)
  · have hfinishes := (h.ended i (by rw [hplace]; rfl)).1
    rw [hbooks.finishes, hplace] at hfinishes
    cases hfinishes
  · rw [(h.ended i (by rw [hplace]; rfl)).2.1] at hopen
    cases hopen

/-- A run has ruined no session exactly if its steps were sound. -/
lemma not_ruined_iff (h : Run (Server.next c) {} trace s) :
    (∀ i, ¬(s.session i).Ruined) ↔ ∀ v ∈ trace, v.2.Sound v.1 := by
  induction h with
  | start => simp [Session.Ruined]
  | @step trace t u a hrun hnext ih =>
    have hsound : (∀ i, ¬a.Ruins t i) ↔ a.Sound t := by
      cases a with
      | resume i e f =>
        constructor
        · intro hruins
          by_contra hunsound
          exact hruins i ⟨e, f, rfl, hunsound⟩
        · rintro hsound j ⟨e', f', heq, hunsound⟩
          cases heq
          exact hunsound hsound
      | _ => exact iff_of_true (fun i hruins => by obtain ⟨_, _, heq, _⟩ := hruins; cases heq) trivial
    simp only [ruined_step (Books.run hrun) hnext, not_or, forall_and, List.forall_mem_append,
      List.forall_mem_singleton, ih, hsound]

/-- The sessions of a run are accounted for exactly if no selector of a subprotocol and no exception
handler threw, and no handler of a WebSocket ended while the channel was closed and the connection
open. -/
theorem sessions_accounted_iff (h : Run (Server.next c) {} trace s) :
    AccountedFor s ↔ ∀ v ∈ trace, v.2.Sound v.1 := by
  have hbooks := Books.run h
  rw [← not_ruined_iff h]
  exact ⟨fun haccounted => haccounted.not_ruined hbooks, hbooks.accountedFor⟩

end Accounts

/-- A session with one request, that goes as it should, is accounted for at its end. -/
theorem sessions_accounted_iff_of_request :
    ∃ trace s, Run (Server.next {}) {} trace s ∧ s.accepted = 1 ∧
      (s.session 0).place = .finished ∧ (∀ v ∈ trace, v.2.Sound v.1) ∧ AccountedFor s := by
  obtain ⟨s, hs, haccepted, hplace, hopen⟩ :
      ∃ s, perform (Server.next {}) {}
          [.accept true, .resume 0 .returned {}, .resume 0 .returned { keepAlive := false },
            .resume 0 .returned {}] = some s ∧
        s.accepted = 1 ∧ (s.session 0).place = .finished ∧ (s.session 0).isOpen = false :=
    ⟨_, rfl, rfl, rfl, rfl⟩
  obtain ⟨trace, hrun⟩ := run_of_perform hs
  have hruined : ∀ i, ¬(s.session i).Ruined := by
    intro i
    by_cases hi : i = 0
    · subst hi
      rintro (hescaped | ⟨-, hleft⟩)
      · rw [hplace] at hescaped
        cases hescaped
      · rw [hopen] at hleft
        cases hleft
    · have habsent := ((Books.run hrun).absent i).mpr (by omega)
      rintro (hescaped | ⟨hfinished, -⟩)
      · rw [habsent] at hescaped
        cases hescaped
      · rw [habsent] at hfinished
        cases hfinished
  have hsound := (not_ruined_iff hrun).mp hruined
  exact ⟨trace, s, hrun, haccepted, hplace, hsound, (sessions_accounted_iff hrun).mpr hsound⟩

/-- A selector throws, and its session remains active with an open connection. -/
theorem selector_throws :
    ∃ trace s, Run (Server.next {}) {} trace s ∧ (s.session 0).place = .escaped ∧
      (s.session 0).finishes = 0 ∧ (s.session 0).isOpen = true ∧ s.activeSessions = 1 ∧
      s.liveSessions = ∅ ∧ ¬AccountedFor s := by
  obtain ⟨s, hs, hplace, hfacts⟩ :
      ∃ s, perform (Server.next {}) {}
          [.accept true,
            .resume 0 .returned { websocketUpgrade := true, wsRoute := true, selector := true },
            .resume 0 .threw {}] = some s ∧
        (s.session 0).place = .escaped ∧ (s.session 0).finishes = 0 ∧
        (s.session 0).isOpen = true ∧ s.activeSessions = 1 ∧ s.liveSessions = ∅ :=
    ⟨_, rfl, rfl, rfl, rfl, rfl, by decide⟩
  obtain ⟨trace, hrun⟩ := run_of_perform hs
  obtain ⟨hfinishes, hopen, hactive, hlive⟩ := hfacts
  refine ⟨trace, s, hrun, hplace, hfinishes, hopen, hactive, hlive, fun haccounted => ?_⟩
  rw [haccounted.active, hlive] at hactive
  cases hactive

end Chhttp.Lifetime
