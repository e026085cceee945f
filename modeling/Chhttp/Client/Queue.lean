import Chhttp.Client.Accounting

/-!
# The queue of waiting requests

A notification is with a waiter that has got a slot, or with a request that remembers the origin it
was notified for (`tokens`).  While somebody waits for an origin without having been notified, there
are at least as many notifications as there is room: idle connections, and slots below the limit
(`Covered`).  Giving room back without waking a waiter would leave the notifications behind by one;
`Covered` has this slack as a parameter, and waking a waiter makes up for it.

`no_lost_wakeup` is the result for all runs of the client.
-/

namespace Chhttp.AsyncClient

open Tally

namespace RequestState

variable {K : Type*}

/-- The notifications for an origin that a request carries. -/
def tokens [DecidableEq K] (key : K) (r : RequestState K) : ℕ :=
  (if r.waiter.any (·.slotNotified) = true ∧ r.key = key then 1 else 0) +
    if r.notifiedOrigin = some key then 1 else 0

/-- A request remembers a notification for its own origin, and only until it acquires or waits
again; a waiter with a slot has been notified. -/
structure Settled (r : RequestState K) : Prop where
  origin : ∀ k, r.notifiedOrigin = some k → r.key = k
  forgets : r.usesSlot = true ∨ r.waiter ≠ none ∨ r.stage = .finished → r.notifiedOrigin = none
  notified : ∀ w, r.waiter = some w → w.slotNotified = true → w.notified = true

end RequestState

namespace Impl

open RequestState

variable {K : Type*}

/-- Request `i` stands in the queue of an origin. -/
def Waits (requests : List (RequestState K)) (key : K) (i : ℕ) : Prop :=
  ∃ r w, requests[i]? = some r ∧ r.waiter = some w ∧ r.key = key ∧ w.queued = true ∧
    w.slotNotified = false

/-- Request `i` waits without having been notified.  As long as there is one, room in its origin
must have a notification under way. -/
def Unnotified (requests : List (RequestState K)) (i : ℕ) : Prop :=
  ∃ r w, requests[i]? = some r ∧ r.waiter = some w ∧ w.notified = false

/-- The waiter of a request that waits. -/
lemma stage_of_waiter {r : RequestState K} {w : PoolWaiter} (h : r.waiter = some w) :
    ∃ inAcquire, r.stage = .waiting w inAcquire := by
  unfold RequestState.waiter at h
  split at h
  · rename_i w' inAcquire hstage
    cases h
    exact ⟨inAcquire, hstage⟩
  · cases h

/-- What the loop of `wake_pool_waiter` keeps: the rest of the queue, and the requests that are not
taken from it. -/
lemma wakeFirst_kept {requests : List (RequestState K)} {queue : List ℕ} (hnodup : queue.Nodup) :
    (wakeFirst requests queue).2 <:+ queue ∧
      ∀ j, j ∉ queue ∨ j ∈ (wakeFirst requests queue).2 →
        (wakeFirst requests queue).1[j]? = requests[j]? := by
  induction queue generalizing requests with
  | nil => exact ⟨List.suffix_rfl, fun j _ => rfl⟩
  | cons i queue ih =>
    obtain ⟨hi, hnodup⟩ := List.nodup_cons.mp hnodup
    have hne : ∀ {j : ℕ}, j ∉ i :: queue ∨ j ∈ queue → i ≠ j := by
      rintro j (hj | hj) rfl
      · exact hj List.mem_cons_self
      · exact hi hj
    have hset : ∀ (r' : RequestState K) (j : ℕ), j ∉ i :: queue ∨ j ∈ queue →
        (requests.set i r')[j]? = requests[j]? :=
      fun r' j hj => List.getElem?_set_ne (hne hj)
    have hrest : ∀ rs : List (RequestState K),
        (∀ j, j ∉ i :: queue ∨ j ∈ queue → rs[j]? = requests[j]?) →
        (wakeFirst rs queue).2 <:+ i :: queue ∧
          ∀ j, j ∉ i :: queue ∨ j ∈ (wakeFirst rs queue).2 →
            (wakeFirst rs queue).1[j]? = requests[j]? := by
      intro rs hrs
      obtain ⟨hsuffix, hkept⟩ := @ih rs hnodup
      refine ⟨hsuffix.trans (List.suffix_cons i queue), fun j hj => ?_⟩
      rcases hj with hj | hj
      · rw [hkept j (Or.inl fun hmem => hj (List.mem_cons_of_mem i hmem)), hrs j (Or.inl hj)]
      · rw [hkept j (Or.inr hj), hrs j (Or.inr (hsuffix.subset hj))]
    rw [wakeFirst]
    split
    · exact hrest requests fun j _ => rfl
    · rename_i r hr
      split
      · dsimp only
        split_ifs
        · exact ⟨List.suffix_cons i queue, hset _⟩
        · exact hrest _ (hset _)
      · exact hrest requests fun j _ => rfl

/-- The loop of `wake_pool_waiter` keeps what does not concern waiters. -/
lemma wakeFirst_settled {requests : List (RequestState K)} (h : ∀ r ∈ requests, r.Settled)
    (queue : List ℕ) : ∀ r ∈ (wakeFirst requests queue).1, r.Settled := by
  have hwoken : ∀ {r : RequestState K} {w w' : PoolWaiter} {inAcquire : Bool}, r.Settled →
      r.stage = .waiting w inAcquire → (w'.slotNotified = true → w'.notified = true) →
      Settled { r with stage := .waiting w' inAcquire } := by
    intro r w w' inAcquire hr hstage hw'
    refine ⟨hr.origin, fun _ => hr.forgets (Or.inr (Or.inl ?_)), fun v hv => ?_⟩
    · simp [RequestState.waiter, hstage]
    · cases hv
      exact hw'
  induction queue generalizing requests with
  | nil => exact h
  | cons i queue ih =>
    have hset : ∀ {r' : RequestState K}, r'.Settled → ∀ r ∈ requests.set i r', r.Settled := by
      intro r' hr' r hr
      rcases List.mem_or_eq_of_mem_set hr with hr | rfl
      · exact h r hr
      · exact hr'
    rw [wakeFirst]
    split
    · exact ih h
    · rename_i r hr
      have hsettled := h r (List.mem_of_getElem? hr)
      split
      · rename_i w inAcquire hstage
        dsimp only
        split_ifs with hfirst
        · refine hset (hwoken hsettled hstage fun _ => ?_)
          rw [Bool.and_eq_true, Bool.not_eq_true', Bool.not_eq_true'] at hfirst
          simp [PoolWaiter.notify, hfirst.1, hfirst.2]
        · refine ih (hset (hwoken hsettled hstage fun hslot => ?_))
          exact hsettled.notified w (by rw [RequestState.waiter, hstage]) hslot
      · exact ih h

/-- A request waits for one origin. -/
lemma Waits.key_unique {requests : List (RequestState K)} {i : ℕ} {k k' : K} (h : Waits requests k i)
    (h' : Waits requests k' i) : k = k' := by
  obtain ⟨r, w, hr, -, hkey, -⟩ := h
  obtain ⟨r', w', hr', -, hkey', -⟩ := h'
  rw [hr, Option.some.injEq] at hr'
  rw [← hkey, ← hkey', hr']

/-- The queue of an origin holds the requests that wait for it and have got no slot, each once;
there is one only if there is a limit. -/
structure Queued (options : PoolOptions) (s : Impl K) : Prop where
  waits : ∀ k, ∀ i ∈ s.poolWaiters k, Waits s.requests k i
  nodup : ∀ k, (s.poolWaiters k).Nodup
  limit : ∀ k, s.poolWaiters k ≠ [] → options.maxConnectionsPerOrigin ≠ 0
  settled : ∀ r ∈ s.requests, r.Settled

/-- A request without a waiter stands in no queue. -/
lemma Queued.not_mem {options : PoolOptions} {s : Impl K} {i : ℕ} {r : RequestState K}
    (h : Queued options s) (hr : s.requests[i]? = some r) (hwaiter : r.waiter = none) (k : K) : i ∉ s.poolWaiters k := by
  intro hmem
  obtain ⟨r', w, hr', hw, -⟩ := h.waits k i hmem
  rw [hr, Option.some.injEq] at hr'
  rw [← hr', hwaiter] at hw
  cases hw

/-- A request that forgets its notifications is settled. -/
lemma settled_of_forgotten {r : RequestState K} (h : r.notifiedOrigin = none)
    (hwaiter : ∀ w, r.waiter = some w → w.slotNotified = true → w.notified = true) : r.Settled :=
  ⟨fun k hk => (by rw [h] at hk; cases hk), fun _ => h, hwaiter⟩

/-- A request that holds what it held stays settled. -/
lemma settled_of_keeps {r r' : RequestState K} (h : r.Settled) (hkeeps : r.Keeps r') : r'.Settled := by
  have hwaiter : r'.waiter ≠ none → r.waiter ≠ none := by
    rcases hkeeps.waiter with heq | ⟨v, hv, -⟩
    · rw [heq]
      exact id
    · rw [hv]
      exact fun _ => Option.some_ne_none v
  refine ⟨fun k hk => ?_, fun hheld => ?_, fun w hw hslot => ?_⟩
  · rw [hkeeps.notifiedOrigin] at hk
    rw [hkeeps.key]
    exact h.origin k hk
  · rw [hkeeps.notifiedOrigin]
    refine h.forgets ?_
    rcases hheld with huses | hw | hfinished
    · exact Or.inl (hkeeps.usesSlot ▸ huses)
    · exact Or.inr (Or.inl (hwaiter hw))
    · exact Or.inr (Or.inr (hkeeps.finished hfinished))
  · rcases hkeeps.waiter with heq | ⟨v, hv, hv'⟩
    · exact h.notified w (heq ▸ hw) hslot
    · rw [hv', Option.some.injEq] at hw
      rw [← hw] at hslot ⊢
      unfold PoolWaiter.notify at hslot ⊢
      split_ifs at hslot ⊢ with hdone
      · exact h.notified v hv hslot
      · rfl

variable [DecidableEq K]

/-- The loop of `wake_pool_waiter` makes a notification, unless it empties the queue.  Entries whose
request has gone on are skipped, so a notification reaches a request that waits. -/
lemma wakeFirst_tokens {requests : List (RequestState K)} {key : K} {queue : List ℕ}
    (hwaits : ∀ i ∈ queue, Waits requests key i) (hnodup : queue.Nodup) :
    (∀ k, tally (tokens k) requests ≤ tally (tokens k) (wakeFirst requests queue).1) ∧
      ((wakeFirst requests queue).2 ≠ [] →
        tally (tokens key) requests + 1 ≤ tally (tokens key) (wakeFirst requests queue).1) := by
  induction queue generalizing requests with
  | nil => exact ⟨fun k => le_rfl, fun h => absurd rfl h⟩
  | cons i queue ih =>
    obtain ⟨hi, hnodup⟩ := List.nodup_cons.mp hnodup
    obtain ⟨r, w, hr, hw, hkey, -, hslot⟩ := hwaits i List.mem_cons_self
    obtain ⟨inAcquire, hstage⟩ := stage_of_waiter hw
    rw [wakeFirst, hr]
    simp only [hstage]
    split_ifs with hfirst
    · rw [Bool.and_eq_true, Bool.not_eq_true', Bool.not_eq_true'] at hfirst
      obtain ⟨hcompleted, hnotified⟩ := hfirst
      have hplus : ∀ k, tokens k { r with
          stage := .waiting (PoolWaiter.notify { w with queued := false, slotNotified := true })
            inAcquire } = tokens k r + if k = key then 1 else 0 := by
        intro k
        simp only [tokens, RequestState.waiter, hstage, PoolWaiter.notify, hcompleted, hnotified,
          hslot, Bool.or_self, Bool.false_eq_true, if_false, Option.any_some, false_and, true_and,
          hkey, eq_comm]
        omega
      refine ⟨fun k => ?_, fun _ => ?_⟩
      · have hset := tally_set (tokens k) hr { r with
          stage := .waiting (PoolWaiter.notify { w with queued := false, slotNotified := true })
            inAcquire }
        rw [hplus] at hset
        dsimp only
        omega
      · have hset := tally_set (tokens key) hr { r with
          stage := .waiting (PoolWaiter.notify { w with queued := false, slotNotified := true })
            inAcquire }
        rw [hplus, if_pos rfl] at hset
        dsimp only
        omega
    · have hsame : ∀ k, tokens k
          { r with stage := .waiting { w with queued := false } inAcquire } = tokens k r := by
        intro k
        rw [tokens, tokens, RequestState.waiter, RequestState.waiter, hstage]
        rfl
      have hrest : ∀ j ∈ queue, Waits (requests.set i
          { r with stage := .waiting { w with queued := false } inAcquire }) key j := by
        intro j hj
        obtain ⟨r', w', hr', hwaits'⟩ := hwaits j (List.mem_cons_of_mem i hj)
        have hne : i ≠ j := fun heq => hi (heq ▸ hj)
        exact ⟨r', w', (List.getElem?_set_ne hne).trans hr', hwaits'⟩
      obtain ⟨hle, hplus⟩ := ih hrest hnodup
      simp only [tally_set_of_eq hr (hsame _)] at hle hplus
      exact ⟨hle, hplus⟩

/-! ### The invariant of the queues -/

/-- While somebody waits for an origin without having been notified, the notifications cover the
room, up to some slack. -/
def Covered (options : PoolOptions) (slack : K → ℕ) (s : Impl K) : Prop :=
  ∀ k, (∃ i ∈ s.poolWaiters k, Unnotified s.requests i) →
    options.maxConnectionsPerOrigin + (s.pool k).length ≤
      s.connectionCounts k + tally (tokens k) s.requests + slack k

/-- The invariant of the queues, up to some slack.  Waiters are in the queues they belong to, and an
origin with room and waiters has enough notifications under way.  The slack counts notifications
that are owed in the middle of an event. -/
structure Alert (options : PoolOptions) (slack : K → ℕ) (s : Impl K) : Prop where
  queued : Queued options s
  covered : Covered options slack s

section

variable {options : PoolOptions} {slack slack' : K → ℕ} {s : Impl K} {i : ℕ}
  {r r' : RequestState K}

/-- Slack may grow. -/
lemma Alert.mono (h : Alert options slack s) (hle : ∀ k, slack k ≤ slack' k) :
    Alert options slack' s := by
  refine ⟨h.queued, fun k hk => ?_⟩
  have := h.covered k hk
  have := hle k
  omega

/-- Waking a waiter makes up for one slot. -/
lemma Alert.wakePoolWaiter {key : K} (h : Alert options (oneSlot key) s) :
    Alert options 0 (s.wakePoolWaiter key) := by
  obtain ⟨hsuffix, hkept⟩ := @wakeFirst_kept _ s.requests _ (h.queued.nodup key)
  obtain ⟨hle, hplus⟩ := wakeFirst_tokens (h.queued.waits key) (h.queued.nodup key)
  have hsettled := wakeFirst_settled h.queued.settled (s.poolWaiters key)
  unfold Impl.wakePoolWaiter
  generalize wakeFirst s.requests (s.poolWaiters key) = woken at *
  obtain ⟨requests, queue⟩ := woken
  dsimp only at *
  -- who still stands in a queue has stood there, and is as before
  have hsame : ∀ k, ∀ i ∈ Function.update s.poolWaiters key queue k,
      i ∈ s.poolWaiters k ∧ requests[i]? = s.requests[i]? := by
    intro k i hi
    by_cases hkk : k = key
    · rw [hkk, Function.update_self] at hi
      exact ⟨hkk ▸ hsuffix.subset hi, hkept i (Or.inr hi)⟩
    · rw [Function.update_of_ne hkk] at hi
      refine ⟨hi, hkept i (Or.inl fun hmem => hkk ?_)⟩
      exact (h.queued.waits k i hi).key_unique (h.queued.waits key i hmem)
  refine ⟨⟨fun k i hi => ?_, fun k => ?_, fun k hk => ?_, hsettled⟩, fun k hk => ?_⟩
  · obtain ⟨hmem, heq⟩ := hsame k i hi
    obtain ⟨r, w, hr, hwaits⟩ := h.queued.waits k i hmem
    exact ⟨r, w, heq.trans hr, hwaits⟩
  · dsimp only
    by_cases hkk : k = key
    · rw [hkk, Function.update_self]
      exact (h.queued.nodup key).sublist hsuffix.sublist
    · rw [Function.update_of_ne hkk]
      exact h.queued.nodup k
  · dsimp only at hk
    by_cases hkk : k = key
    · rw [hkk, Function.update_self] at hk
      refine h.queued.limit key fun hempty => hk ?_
      rw [hempty] at hsuffix
      exact List.suffix_nil.mp hsuffix
    · rw [Function.update_of_ne hkk] at hk
      exact h.queued.limit k hk
  · dsimp only at hk ⊢
    obtain ⟨i, hi, r, w, hr, hw⟩ := hk
    obtain ⟨hmem, heq⟩ := hsame k i hi
    have hcovered := h.covered k ⟨i, hmem, r, w, heq.symm.trans hr, hw⟩
    rw [Pi.zero_apply]
    by_cases hkk : k = key
    · rw [hkk] at hcovered ⊢
      rw [oneSlot, if_pos rfl] at hcovered
      rw [hkk, Function.update_self] at hi
      have := hplus (List.ne_nil_of_mem hi)
      omega
    · rw [oneSlot, if_neg hkk] at hcovered
      have := hle k
      omega

/-- A request that stands in no queue may change, and with it the notifications. -/
lemma Alert.put (h : Alert options slack s) (hr : s.requests[i]? = some r)
    (hnot : ∀ k, i ∉ s.poolWaiters k) (hsettled : r'.Settled)
    (htokens : ∀ k, tokens k r + slack k ≤ tokens k r' + slack' k) :
    Alert options slack' (s.put i r') := by
  have hother : ∀ k, ∀ j ∈ s.poolWaiters k, (s.requests.set i r')[j]? = s.requests[j]? := by
    intro k j hj
    exact List.getElem?_set_ne fun heq : i = j => hnot k (heq ▸ hj)
  refine ⟨⟨fun k j hj => ?_, h.queued.nodup, h.queued.limit, fun r'' hr'' => ?_⟩, fun k hk => ?_⟩
  · obtain ⟨r'', w, hr'', hwaits⟩ := h.queued.waits k j hj
    exact ⟨r'', w, (hother k j hj).trans hr'', hwaits⟩
  · rcases List.mem_or_eq_of_mem_set hr'' with hold | rfl
    · exact h.queued.settled r'' hold
    · exact hsettled
  · obtain ⟨j, hj, r'', w, hr'', hw⟩ := hk
    have hcovered := h.covered k ⟨j, hj, r'', w, (hother k j hj).symm.trans hr'', hw⟩
    have hset := tally_set (tokens k) hr r'
    have hk := htokens k
    show options.maxConnectionsPerOrigin + (s.pool k).length ≤
      s.connectionCounts k + tally (tokens k) (s.requests.set i r') + slack' k
    omega

/-- The room of the origins may change where nobody waits or the slack makes up for it. -/
lemma Alert.of_room {s' : Impl K} (h : Alert options slack s) (hrequests : s'.requests = s.requests)
    (hwaiters : s'.poolWaiters = s.poolWaiters)
    (hroom : ∀ k, (s'.pool k).length + s.connectionCounts k + slack k ≤
      (s.pool k).length + s'.connectionCounts k + slack' k) : Alert options slack' s' := by
  refine ⟨⟨?_, ?_, ?_, ?_⟩, fun k hk => ?_⟩
  · rw [hrequests, hwaiters]
    exact h.queued.waits
  · rw [hwaiters]
    exact h.queued.nodup
  · rw [hwaiters]
    exact h.queued.limit
  · rw [hrequests]
    exact h.queued.settled
  · rw [hrequests, hwaiters] at hk
    rw [hrequests]
    have := h.covered k hk
    have := hroom k
    omega

/-- Releasing a slot wakes a waiter for it. -/
lemma Alert.releaseSlot (h : Alert options 0 s) (key : K) :
    Alert options 0 (s.releaseSlot key) := by
  refine Alert.wakePoolWaiter ?_
  unfold dropSlot
  by_cases hzero : s.connectionCounts key = 0
  · rw [if_pos hzero]
    exact h.mono fun k => Nat.zero_le _
  · rw [if_neg hzero]
    refine h.of_room rfl rfl fun k => ?_
    dsimp only
    rw [Pi.zero_apply]
    by_cases hkk : k = key
    · rw [hkk, Function.update_self, oneSlot, if_pos rfl]
      split_ifs
      · rw [Function.update_self, List.length_nil]
        omega
      · omega
    · rw [Function.update_of_ne hkk, oneSlot, if_neg hkk]
      split_ifs
      · rw [Function.update_of_ne hkk]
      · exact le_rfl

/-- A notification that a request hands on is not lost. -/
lemma Alert.passOn {handedOn : Option K}
    (h : Alert options (fun k => if handedOn = some k then 1 else 0) s) :
    Alert options 0 (s.passOn handedOn) := by
  cases handedOn with
  | none => exact h.mono fun k => by simp
  | some key =>
    refine Alert.wakePoolWaiter (h.mono fun k => ?_)
    rw [oneSlot]
    by_cases hkk : k = key
    · rw [if_pos hkk]
      split_ifs <;> omega
    · rw [if_neg fun hsome => hkk (Option.some.inj hsome).symm]
      exact Nat.zero_le _

/-- A request that uses a slot has no notifications. -/
lemma tokens_of_usesSlot (h : r.Settled) (huses : r.usesSlot = true) (k : K) : tokens k r = 0 := by
  have hwaiter : r.waiter = none := by
    unfold RequestState.waiter
    split
    · rename_i hstage
      simp [usesSlot, hstage] at huses
    · rfl
  simp [tokens, hwaiter, h.forgets (Or.inl huses)]

/-- The notifications of a request that does not wait. -/
lemma tokens_of_waiter (h : r.waiter = none) (k : K) :
    tokens k r = if r.notifiedOrigin = some k then 1 else 0 := by
  simp [tokens, h]

/-- A request that holds what it held may have been notified, but not for a slot. -/
lemma Alert.keep (h : Alert options slack s) (hr : s.requests[i]? = some r)
    (hkeeps : r.Keeps r') : Alert options slack (s.put i r') := by
  have hi : i < s.requests.length := (List.getElem?_eq_some_iff.mp hr).1
  have hself : (s.requests.set i r')[i]? = some r' := by rw [List.getElem?_set_self hi]
  have htokens : ∀ k, tokens k r' = tokens k r := by
    intro k
    rw [tokens, tokens, hkeeps.notifiedOrigin, hkeeps.key]
    rcases hkeeps.waiter with heq | ⟨v, hv, hv'⟩
    · rw [heq]
    · rw [hv, hv', Option.any_some, Option.any_some]
      unfold PoolWaiter.notify
      split_ifs <;> rfl
  refine ⟨⟨fun k j hj => ?_, h.queued.nodup, h.queued.limit, fun r'' hr'' => ?_⟩, fun k hk => ?_⟩
  · by_cases hij : i = j
    · obtain ⟨r'', w, hr'', hw, hkey, hqueued, hslot⟩ := h.queued.waits k j hj
      rw [← hij, hr, Option.some.injEq] at hr''
      rw [← hr''] at hw hkey
      rcases hkeeps.waiter with heq | ⟨v, hv, hv'⟩
      · exact ⟨r', w, hij ▸ hself, heq.trans hw, hkeeps.key.trans hkey, hqueued, hslot⟩
      · rw [hv, Option.some.injEq] at hw
        refine ⟨r', v.notify, hij ▸ hself, hv', hkeeps.key.trans hkey, ?_, ?_⟩
        · unfold PoolWaiter.notify
          split_ifs <;> exact hw ▸ hqueued
        · unfold PoolWaiter.notify
          split_ifs <;> exact hw ▸ hslot
    · obtain ⟨r'', w, hr'', hwaits⟩ := h.queued.waits k j hj
      exact ⟨r'', w, (List.getElem?_set_ne hij).trans hr'', hwaits⟩
  · rcases List.mem_or_eq_of_mem_set hr'' with hold | rfl
    · exact h.queued.settled r'' hold
    · exact settled_of_keeps (h.queued.settled r (List.mem_of_getElem? hr)) hkeeps
  · show options.maxConnectionsPerOrigin + (s.pool k).length ≤
      s.connectionCounts k + tally (tokens k) (s.requests.set i r') + slack k
    rw [tally_set_of_eq hr (htokens k)]
    refine h.covered k ?_
    obtain ⟨j, hj, r'', w, hr'', hw, hnotified⟩ := hk
    have hr'' : (s.requests.set i r')[j]? = some r'' := hr''
    by_cases hij : i = j
    · rw [← hij, hself, Option.some.injEq] at hr''
      rw [← hr''] at hw
      rcases hkeeps.waiter with heq | ⟨v, hv, hv'⟩
      · exact ⟨j, hj, r, w, hij ▸ hr, heq ▸ hw, hnotified⟩
      · refine ⟨j, hj, r, v, hij ▸ hr, hv, ?_⟩
        rw [hv', Option.some.injEq] at hw
        rw [← hw] at hnotified
        unfold PoolWaiter.notify at hnotified
        split_ifs at hnotified
        exact hnotified
    · rw [List.getElem?_set_ne hij] at hr''
      exact ⟨j, hj, r'', w, hr'', hw, hnotified⟩

/-- A waiter that resumes leaves its queue, and takes its notification along.  It looks for room
again at once, and so needs no other notification. -/
lemma Alert.resume {w : PoolWaiter} {inAcquire : Bool} {stage : Stage} (h : Alert options 0 s)
    (hr : s.requests[i]? = some r) (hwaiting : r.stage = .waiting w inAcquire)
    (hstage : stage = .acquiring ∨ stage = .checking) :
    Alert options 0 (s.awaitResume i r { w with completed := true } stage) := by
  have hsettled := h.queued.settled r (List.mem_of_getElem? hr)
  have hwaiter : r.waiter = some w := by rw [RequestState.waiter, hwaiting]
  have hforgot : r.notifiedOrigin = none :=
    hsettled.forgets (Or.inr (Or.inl (by rw [hwaiter]; exact Option.some_ne_none w)))
  -- first the request leaves its queue, then it goes on
  have hleft : Alert options 0 { s with
      poolWaiters :=
        if w.queued then Function.update s.poolWaiters r.key ((s.poolWaiters r.key).erase i)
        else s.poolWaiters } := by
    have hsub : ∀ k, ((if w.queued then
        Function.update s.poolWaiters r.key ((s.poolWaiters r.key).erase i)
        else s.poolWaiters) k).Sublist (s.poolWaiters k) := by
      intro k
      split_ifs
      · by_cases hkk : k = r.key
        · rw [hkk, Function.update_self]
          exact List.erase_sublist
        · rw [Function.update_of_ne hkk]
      · exact List.Sublist.refl _
    refine ⟨⟨fun k j hj => h.queued.waits k j ((hsub k).subset hj),
      fun k => (h.queued.nodup k).sublist (hsub k), fun k hk => h.queued.limit k fun hempty => ?_,
      h.queued.settled⟩, fun k hk => ?_⟩
    · have hsubk := hsub k
      rw [hempty] at hsubk
      exact hk (List.sublist_nil.mp hsubk)
    · obtain ⟨j, hj, hunnotified⟩ := hk
      exact h.covered k ⟨j, (hsub k).subset hj, hunnotified⟩
  have hnot : ∀ k, i ∉ (if w.queued then
      Function.update s.poolWaiters r.key ((s.poolWaiters r.key).erase i)
      else s.poolWaiters) k := by
    intro k hmem
    have hwaits : ∀ k, i ∈ s.poolWaiters k → r.key = k ∧ w.queued = true := by
      intro k hk
      obtain ⟨r', w', hr', hw', hkey, hqueued, -⟩ := h.queued.waits k i hk
      rw [hr, Option.some.injEq] at hr'
      rw [← hr', hwaiter, Option.some.injEq] at hw'
      exact ⟨hr' ▸ hkey, hw' ▸ hqueued⟩
    split_ifs at hmem with hqueued
    · by_cases hkk : k = r.key
      · rw [hkk, Function.update_self] at hmem
        exact (h.queued.nodup r.key).not_mem_erase hmem
      · rw [Function.update_of_ne hkk] at hmem
        exact hkk (hwaits k hmem).1.symm
    · exact hqueued (hwaits k hmem).2
  refine hleft.put hr hnot ?_ fun k => ?_
  · refine ⟨fun k hk => ?_, fun hheld => ?_, fun v hv => ?_⟩
    · dsimp only at hk
      rw [hforgot] at hk
      split_ifs at hk
      · exact Option.some.inj hk
    · exfalso
      rcases hstage with rfl | rfl <;> simp [usesSlot, RequestState.waiter] at hheld
    · exfalso
      rcases hstage with rfl | rfl <;> simp [RequestState.waiter] at hv
  · have hnone : ({ r with
        stage, onLoop := true
        notifiedOrigin := if w.slotNotified then some r.key else r.notifiedOrigin } :
          RequestState K).waiter = none := by
      rcases hstage with rfl | rfl <;> rfl
    rw [tokens_of_waiter hnone]
    simp only [tokens, hwaiter, hforgot, Option.any_some]
    by_cases hslot : w.slotNotified = true
    · simp [hslot]
    · simp [hslot]

/-- A request remembers at most one notification, for its own origin. -/
lemma tokens_le_oneSlot (h : r.Settled) (hidle : r.Idle) (k : K) :
    tokens k r ≤ oneSlot r.key k := by
  rw [tokens_of_waiter hidle.waiter, oneSlot]
  split_ifs with hnotified hkey
  · exact le_rfl
  · exact absurd (h.origin k hnotified).symm hkey
  · exact Nat.zero_le _
  · exact le_rfl

/-- A request waits when there is no room.  There is no room then, so nobody has to be notified for
it. -/
lemma Alert.suspend (h : Alert options 0 s) (hr : s.requests[i]? = some r) (hidle : r.Idle)
    (hlimit : options.maxConnectionsPerOrigin ≠ 0)
    (hcount : options.maxConnectionsPerOrigin ≤ s.connectionCounts r.key)
    (hpool : s.pool r.key = []) (inAcquire : Bool) :
    Alert options 0 (s.awaitSuspend i r inAcquire) := by
  have hsettled := h.queued.settled r (List.mem_of_getElem? hr)
  have hnot := h.queued.not_mem hr hidle.waiter
  have hi : i < s.requests.length := (List.getElem?_eq_some_iff.mp hr).1
  -- who stands in a queue is the new waiter, or has stood there before
  have hmem : ∀ k, ∀ j ∈ Function.update s.poolWaiters r.key (s.poolWaiters r.key ++ [i]) k,
      (k = r.key ∧ j = i) ∨ (j ∈ s.poolWaiters k ∧ i ≠ j) := by
    intro k j hj
    by_cases hkk : k = r.key
    · rw [hkk, Function.update_self, List.mem_append, List.mem_singleton] at hj
      rcases hj with hj | hj
      · exact Or.inr ⟨hkk ▸ hj, fun hij => hnot r.key (hij ▸ hj)⟩
      · exact Or.inl ⟨hkk, hj⟩
    · rw [Function.update_of_ne hkk] at hj
      exact Or.inr ⟨hj, fun hij => hnot k (hij ▸ hj)⟩
  unfold awaitSuspend
  refine ⟨⟨fun k j hj => ?_, fun k => ?_, fun k hk => ?_, fun r' hr' => ?_⟩, fun k hk => ?_⟩
  · rcases hmem k j hj with ⟨hkk, hji⟩ | ⟨hj, hij⟩
    · refine ⟨{ r with stage := .waiting { queued := true } inAcquire, notifiedOrigin := none },
        { queued := true }, ?_, rfl, hkk.symm, rfl, rfl⟩
      rw [hji]
      exact List.getElem?_set_self hi
    · obtain ⟨r', w, hr', hwaits⟩ := h.queued.waits k j hj
      exact ⟨r', w, (List.getElem?_set_ne hij).trans hr', hwaits⟩
  · dsimp only
    by_cases hkk : k = r.key
    · rw [hkk, Function.update_self]
      refine (h.queued.nodup r.key).append (List.nodup_singleton i) ?_
      rw [List.disjoint_singleton]
      exact hnot r.key
    · rw [Function.update_of_ne hkk]
      exact h.queued.nodup k
  · exact hlimit
  · rcases List.mem_or_eq_of_mem_set hr' with hold | rfl
    · exact h.queued.settled r' hold
    · refine settled_of_forgotten rfl fun w hw hslot => ?_
      cases hw
      cases hslot
  · dsimp only at hk ⊢
    by_cases hkk : k = r.key
    · rw [hkk, hpool, List.length_nil]
      omega
    · obtain ⟨j, hj, r', w, hr', hw⟩ := hk
      rcases hmem k j hj with ⟨hkey, -⟩ | ⟨hj, hij⟩
      · exact absurd hkey hkk
      · rw [List.getElem?_set_ne hij] at hr'
        have hcovered := h.covered k ⟨j, hj, r', w, hr', hw⟩
        have hnone : tokens k r = 0 := by
          have := tokens_le_oneSlot hsettled hidle k
          rw [oneSlot, if_neg hkk] at this
          omega
        have hset := tally_set (tokens k) hr
          { r with stage := .waiting { queued := true } inAcquire, notifiedOrigin := none }
        omega

/-- Dropping connections makes no room: they are idle, and not counted afterwards. -/
lemma Alert.drops {key : K} {t : Impl K} (h : Alert options slack s) (hdrops : Drops key s t) :
    Alert options slack t := by
  cases hdrops with
  | @intro dropped entries count hpool hcount =>
    have hlength := congrArg List.length hpool
    rw [List.length_append] at hlength
    refine h.of_room rfl rfl fun k => ?_
    dsimp only
    by_cases hkk : k = key
    · rw [hkk, Function.update_self, Function.update_self]
      omega
    · rw [Function.update_of_ne hkk, Function.update_of_ne hkk]

/-- Acquiring a connection or a slot uses up room, and waiting happens without room. -/
lemma Alert.acquire (h : Alert options 0 s) (haccount : Accounted options 0 s)
    (hr : s.requests[i]? = some r) (hidle : r.Idle) :
    Alert options 0 (s.acquire options i r) := by
  have hkey := haccount.count r.key
  obtain ⟨t, hdrops, hacquires⟩ : ∃ t, Drops r.key s t ∧
      Acquires options i r t (s.acquire options i r) := acquires_of_acquire (by omega)
  generalize s.acquire options i r = u at hacquires ⊢
  have ht := h.drops hdrops
  have hrt : t.requests[i]? = some r := hdrops.requests ▸ hr
  -- a request that acquires forgets its notification
  have hforget : ∀ {r' : RequestState K}, r'.Settled →
      Alert options (oneSlot r.key) (t.put i r') := by
    intro r' hr'
    refine ht.put hrt (ht.queued.not_mem hrt hidle.waiter) hr' fun k => ?_
    have := tokens_le_oneSlot (ht.queued.settled r (List.mem_of_getElem? hrt)) hidle k
    rw [Pi.zero_apply]
    omega
  cases hacquires with
  | @reuse c entries hpool =>
    refine (hforget (settled_of_forgotten rfl fun w hw => by cases hw)).of_room rfl rfl fun k => ?_
    show (Function.update t.pool r.key entries k).length + t.connectionCounts k + _ ≤
      (t.pool k).length + t.connectionCounts k + _
    rw [Pi.zero_apply]
    by_cases hkk : k = r.key
    · rw [hkk, Function.update_self, hpool, List.length_cons, oneSlot, if_pos rfl]
      omega
    · rw [Function.update_of_ne hkk, oneSlot, if_neg hkk]
  | slot =>
    refine (hforget (settled_of_forgotten rfl fun w hw => by cases hw)).of_room rfl rfl fun k => ?_
    show (t.pool k).length + t.connectionCounts k + _ ≤ (t.pool k).length +
      Function.update t.connectionCounts r.key (t.connectionCounts r.key + 1) k + _
    rw [Pi.zero_apply]
    by_cases hkk : k = r.key
    · rw [hkk, Function.update_self, oneSlot, if_pos rfl]
      omega
    · rw [Function.update_of_ne hkk, oneSlot, if_neg hkk]
  | wait hpool hlimit hcount => exact ht.suspend hrt hidle hlimit hcount hpool true

/-- Every move of a request keeps the queues alert.  A move that frees room also passes a
notification on, and one that consumes a notification uses the room. -/
theorem Alert.moves {s' : Impl K} (h : Alert options 0 s) (haccount : Accounted options 0 s)
    (hr : s.requests[i]? = some r) (hmoves : Moves options s i r s') : Alert options 0 s' := by
  have hsettled := h.queued.settled r (List.mem_of_getElem? hr)
  cases hmoves with
  | keep isOpen hkeeps => exact (h.keep hr hkeeps).of_room rfl rfl fun k => le_rfl
  | resume hwaiting hstage => exact h.resume hr hwaiting hstage
  | exit hidle =>
    refine Alert.passOn (h.put hr (h.queued.not_mem hr hidle.waiter)
      (settled_of_forgotten rfl fun w hw => by cases hw) fun k => ?_)
    rw [tokens_of_waiter hidle.waiter, tokens_of_waiter rfl, if_neg (Option.some_ne_none k).symm,
      Pi.zero_apply]
    exact (Nat.zero_add _).ge
  | suspend inAcquire hidle hlimit hcount hpool =>
    exact h.suspend hr hidle hlimit hcount hpool inAcquire
  | acquire hidle => exact h.acquire haccount hr hidle
  -- the request keeps its slot while it connects, so there is no new room for a waiter
  | connect isOpen hstage =>
    have huses : r.usesSlot = true := by rw [usesSlot, hstage]
    have hwaiter : r.waiter = none := by rw [RequestState.waiter, hstage]
    have hforgot := hsettled.forgets (Or.inl huses)
    refine Alert.of_room (s := s.put i { r with stage := .connecting (some s.connections) })
      (h.put hr (h.queued.not_mem hr hwaiter)
        (settled_of_forgotten hforgot fun w hw => by cases hw) fun k => ?_) rfl rfl fun k => le_rfl
    rw [tokens_of_usesSlot hsettled huses]
    exact Nat.zero_le _
  -- the slot becomes free, and the notification of the exit makes up for it
  | @leave r' t handedOn huses hidle hback hnotified hhanded =>
    have hforgot := hsettled.forgets (Or.inl huses)
    have hwaiter : r.waiter = none := by
      unfold RequestState.waiter
      split
      · rename_i hstage
        rw [usesSlot, hstage] at huses
        cases huses
      · rfl
    have hnone : r'.notifiedOrigin = none := by
      rcases hnotified with hnone | hsame
      · exact hnone
      · exact hsame.trans hforgot
    have hput : Alert options 0 (s.put i r') := by
      refine h.put hr (h.queued.not_mem hr hwaiter)
        (settled_of_forgotten hnone fun w hw => ?_) fun k => ?_
      · rw [hidle.waiter] at hw
        cases hw
      · rw [tokens_of_usesSlot hsettled huses]
        exact Nat.zero_le _
    have hhandedOn : handedOn = none := by
      rcases hhanded with hnone | hsame
      · exact hnone
      · exact hsame.trans hforgot
    rw [hhandedOn]
    -- the connection is dropped, or it goes back to the pool: each way wakes a waiter of the origin
    cases hback with
    | drop isOpen =>
      have hopen : Alert options 0 { s.put i r' with isOpen } :=
        hput.of_room rfl rfl fun k => le_rfl
      exact hopen.releaseSlot r.key
    | @pool c hbound hroom =>
      refine Alert.wakePoolWaiter (hput.of_room rfl rfl fun k => ?_)
      dsimp only
      by_cases hkk : k = r.key
      · rw [hkk, Function.update_self, List.length_cons, oneSlot, if_pos rfl, Pi.zero_apply]
        omega
      · rw [Function.update_of_ne hkk, oneSlot, if_neg hkk, Pi.zero_apply]

/-- Every step of the client keeps the queues alert.  With `Balanced.step` this is the step lemma of
`no_lost_wakeup`. -/
theorem Alert.step {a : Action K} {s' : Impl K} (h : Alert options 0 s)
    (haccount : Accounted options 0 s) (hstep : AsyncClient.step options s a = some s') :
    Alert options 0 s' := by
  cases a with
  | request r =>
    cases hstep
    have hold : ∀ k, ∀ i ∈ s.poolWaiters k, ∀ r', (s.requests ++ [r'])[i]? = s.requests[i]? := by
      intro k i hi r'
      obtain ⟨r'', w, hr'', -⟩ := h.queued.waits k i hi
      exact List.getElem?_append_left (List.getElem?_eq_some_iff.mp hr'').1
    refine ⟨⟨fun k i hi => ?_, h.queued.nodup, h.queued.limit, fun r' hr' => ?_⟩, fun k hk => ?_⟩
    · obtain ⟨r', w, hr', hwaits⟩ := h.queued.waits k i hi
      exact ⟨r', w, (hold k i hi _).trans hr', hwaits⟩
    · rcases List.mem_append.mp hr' with hr' | hr'
      · exact h.queued.settled r' hr'
      · rw [List.mem_singleton] at hr'
        rw [hr']
        exact settled_of_forgotten rfl fun w hw => by cases hw
    · obtain ⟨i, hi, r', w, hr', hw⟩ := hk
      have hcovered := h.covered k ⟨i, hi, r', w, (hold k i hi _).symm.trans hr', hw⟩
      dsimp only
      rw [tally_append]
      omega
  | closed c =>
    cases hstep
    exact h.of_room rfl rfl fun k => le_rfl
  | event i e =>
    simp only [AsyncClient.step] at hstep
    split at hstep
    · cases hstep
    · rename_i r hr
      exact h.moves haccount hr (moves_of_event hstep)

/-- In a new client nobody waits. -/
lemma alert_start (options : PoolOptions) : Alert options 0 ({} : Impl K) := by
  refine ⟨⟨fun k i hi => ?_, fun k => List.nodup_nil, fun k hne => absurd rfl hne, fun r hr => ?_⟩,
    fun k hk => ?_⟩
  · cases hi
  · cases hr
  · obtain ⟨i, hi, -⟩ := hk
    cases hi

end

end Impl

open RequestState Impl

variable {K : Type*} [DecidableEq K]

/-- No lost wake-up.  In every state that the client reaches, whatever its requests do and in which
order: if a request waits for an origin without having been notified, and there is an idle
connection or a free slot for it, then somebody has been notified for a slot of this origin: a
waiter that has not resumed yet, or a request that will acquire, wait again or hand the
notification on. -/
theorem no_lost_wakeup (options : PoolOptions) (s : Impl K) (trace : List (Impl K × Action K))
    (h : Transition.Run (step options) {} trace s) (key : K)
    (hwaits : ∃ i ∈ s.poolWaiters key, Unnotified s.requests i)
    (hroom : s.pool key ≠ [] ∨ options.maxConnectionsPerOrigin = 0 ∨
      s.connectionCounts key < options.maxConnectionsPerOrigin) :
    ∃ (i : ℕ) (r : RequestState K), s.requests[i]? = some r ∧
      ((∃ w, r.waiter = some w ∧ r.key = key ∧ w.slotNotified = true ∧ w.notified = true) ∨
        r.notifiedOrigin = some key ∧ r.stage ≠ .finished) := by
  obtain ⟨hbalanced, halert⟩ := h.invariant
    (I := fun s => Balanced options s ∧ Alert options 0 s)
    (fun _ _ _ hI hnext => ⟨hI.1.step hnext, hI.2.step hI.1.accounted hnext⟩)
    ⟨balanced_start options, alert_start options⟩
  have hcovered := halert.covered key hwaits
  have hlimit : options.maxConnectionsPerOrigin ≠ 0 := by
    obtain ⟨i, hi, -⟩ := hwaits
    exact halert.queued.limit key (List.ne_nil_of_mem hi)
  have hcount := hbalanced.accounted.limit hlimit key
  have hpositive : 0 < tally (tokens key) s.requests := by
    rw [Pi.zero_apply] at hcovered
    rcases hroom with hpool | hmax | hslot
    · have := List.length_pos_of_ne_nil hpool
      omega
    · exact absurd hmax hlimit
    · omega
  obtain ⟨i, r, hr, htoken⟩ := exists_of_tally_pos hpositive
  have hsettled := halert.queued.settled r (List.mem_of_getElem? hr)
  refine ⟨i, r, hr, ?_⟩
  by_cases hnotified : r.notifiedOrigin = some key
  · refine Or.inr ⟨hnotified, fun hfinished => ?_⟩
    rw [hsettled.forgets (Or.inr (Or.inr hfinished))] at hnotified
    cases hnotified
  · rw [tokens, if_neg hnotified, Nat.add_zero] at htoken
    split_ifs at htoken with hslot
    · obtain ⟨hslot, hkey⟩ := hslot
      obtain ⟨w, hw, hslot⟩ := (Option.any_eq_true _ _).mp hslot
      exact Or.inl ⟨w, hw, hkey, hslot, hsettled.notified w hw hslot⟩
    · exact absurd htoken (lt_irrefl _)

/-- Two requests wait while a third one uses the only slot, which it then returns. -/
def handedOver : List (Action Unit) :=
  [.request { key := (), onLoop := true }, .request { key := (), onLoop := true },
    .request { key := (), onLoop := true }, .event 0 (.check false), .event 0 (.exchange false),
    .event 0 (.acquire false), .event 0 (.connect true), .event 0 (.establish true),
    .event 0 (.send false), .event 0 (.written false), .event 1 (.check false),
    .event 2 (.check false), .event 0 (.received (.response true .finish))]

/-- The second waiter has not been notified, but the first one has. -/
theorem no_lost_wakeup_handedOver :
    ∃ s : Impl Unit,
      Transition.perform (step { maxConnectionsPerOrigin := 1 }) {} handedOver = some s ∧
      ∃ (i : ℕ) (r : RequestState Unit), s.requests[i]? = some r ∧
        ((∃ w, r.waiter = some w ∧ r.key = () ∧ w.slotNotified = true ∧ w.notified = true) ∨
          r.notifiedOrigin = some () ∧ r.stage ≠ .finished) := by
  obtain ⟨s, hs, hwaiters, hpool, r, w, hr, hw⟩ : ∃ s : Impl Unit,
      Transition.perform (step { maxConnectionsPerOrigin := 1 }) {} handedOver = some s ∧
      s.poolWaiters () = [2] ∧ s.pool () = [0] ∧
      ∃ r w, s.requests[2]? = some r ∧ r.waiter = some w ∧ w.notified = false :=
    ⟨_, rfl, rfl, rfl, _, _, rfl, rfl, rfl⟩
  obtain ⟨trace, hrun⟩ := Transition.run_of_perform hs
  refine ⟨s, hs, no_lost_wakeup { maxConnectionsPerOrigin := 1 } s trace hrun () ?_ ?_⟩
  · exact ⟨2, by rw [hwaiters]; exact List.mem_singleton_self 2, r, w, hr, hw⟩
  · exact Or.inl (by rw [hpool]; exact List.cons_ne_nil 0 [])

end Chhttp.AsyncClient
