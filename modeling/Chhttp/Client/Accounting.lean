import Chhttp.Client.Moves
import Chhttp.Lib.Tally

/-!
# Accounting for connections

The count of an origin is the number of slots in use plus the number of idle connections
(`Accounted`), and every connection is in one place (`Owned`).  Between taking the slot from a
request and giving it back, the count of its origin is ahead by one; `Accounted` has this debt as a
parameter.

`pool_accounting` is the result for all runs of the client.
-/

namespace Chhttp.AsyncClient

open Tally

namespace RequestState

variable {K : Type*}

/-- The slots of an origin that a request uses. -/
def slots [DecidableEq K] (key : K) (r : RequestState K) : ℕ :=
  if r.usesSlot = true ∧ r.key = key then 1 else 0

/-- A request is bound to a connection. -/
def binds (c : ℕ) (r : RequestState K) : ℕ := if Impl.boundConnection r = some c then 1 else 0

/-- The waiter of a request says nothing about its slot. -/
lemma slots_waiting [DecidableEq K] {r : RequestState K} {w : PoolWaiter} {inAcquire : Bool}
    (h : r.stage = .waiting w inAcquire) (w' : PoolWaiter) (key : K) :
    slots key { r with stage := .waiting w' inAcquire } = slots key r := by
  rw [slots, slots, usesSlot, usesSlot, h]

/-- The waiter of a request says nothing about its connection. -/
lemma binds_waiting {r : RequestState K} {w : PoolWaiter} {inAcquire : Bool}
    (h : r.stage = .waiting w inAcquire) (w' : PoolWaiter) (c : ℕ) :
    binds c { r with stage := .waiting w' inAcquire } = binds c r := by
  rw [binds, binds, Impl.boundConnection, Impl.boundConnection, h]

end RequestState

namespace Impl

open RequestState

variable {K : Type*}

/-! ### Waking waiters -/

/-- Waking a waiter does not change what the requests hold. -/
lemma tally_wakeFirst {f : RequestState K → ℕ}
    (hf : ∀ r w inAcquire w', r.stage = .waiting w inAcquire →
      f { r with stage := .waiting w' inAcquire } = f r)
    (requests : List (RequestState K)) (queue : List ℕ) :
    tally f (wakeFirst requests queue).1 = tally f requests := by
  induction queue generalizing requests with
  | nil => rfl
  | cons i queue ih =>
    rw [wakeFirst]
    split
    · exact ih requests
    · rename_i r hr
      split
      · rename_i w inAcquire hstage
        dsimp only
        split_ifs
        · exact tally_set_of_eq hr (hf r w inAcquire _ hstage)
        · rw [ih]
          exact tally_set_of_eq hr (hf r w inAcquire _ hstage)
      · exact ih requests

/-! ### Connections -/

/-- Every connection is in one place: bound to one request, or once among the idle connections of
one origin. -/
structure Owned (s : Impl K) : Prop where
  once : ∀ c k, tally (binds c) s.requests + (s.pool k).count c ≤ 1
  origin : ∀ c k k', c ∈ s.pool k → c ∈ s.pool k' → k = k'
  created : ∀ c, 0 < tally (binds c) s.requests ∨ (∃ k, c ∈ s.pool k) → c < s.connections

/-- Connections may disappear from their places. -/
lemma Owned.of_le {s s' : Impl K} (h : Owned s)
    (hbinds : ∀ c, tally (binds c) s'.requests ≤ tally (binds c) s.requests)
    (hpool : ∀ k, (s'.pool k).Sublist (s.pool k)) (hcreated : s.connections ≤ s'.connections) :
    Owned s' := by
  refine ⟨fun c k => ?_, fun c k k' hk hk' => ?_, fun c hc => ?_⟩
  · have := h.once c k
    have := hbinds c
    have := (hpool k).count_le c
    omega
  · exact h.origin c k k' ((hpool k).subset hk) ((hpool k').subset hk')
  · refine lt_of_lt_of_le (h.created c ?_) hcreated
    rcases hc with hc | ⟨k, hk⟩
    · exact Or.inl (hc.trans_le (hbinds c))
    · exact Or.inr ⟨k, (hpool k).subset hk⟩

/-- A request may give its connection up. -/
lemma Owned.put {s : Impl K} {i : ℕ} {r r' : RequestState K} (h : Owned s)
    (hr : s.requests[i]? = some r)
    (hbinds : ∀ c, binds c r' ≤ binds c r) : Owned (s.put i r') := by
  refine h.of_le (fun c => ?_) (fun k => List.Sublist.refl _) le_rfl
  have := tally_set (binds c) hr r'
  have := hbinds c
  show tally (binds c) (s.requests.set i r') ≤ tally (binds c) s.requests
  omega

/-- An idle request is bound to no connection. -/
lemma binds_of_bound {r : RequestState K} (h : boundConnection r = none) (c : ℕ) : binds c r = 0 := by
  rw [binds, h, if_neg (Option.some_ne_none c).symm]

/-- A connection that its request gives up is in no other place. -/
lemma Owned.free {s : Impl K} {i c : ℕ} {r r' : RequestState K} (h : Owned s)
    (hr : s.requests[i]? = some r)
    (hbound : boundConnection r = some c) (hidle : boundConnection r' = none) :
    tally (binds c) (s.put i r').requests = 0 ∧ (∀ k, c ∉ s.pool k) ∧ c < s.connections := by
  have hone : binds c r = 1 := by rw [binds, hbound, if_pos rfl]
  have hle := le_tally (f := binds c) hr
  refine ⟨?_, fun k hk => ?_, h.created c (Or.inl (by omega))⟩
  · have hset := tally_set (binds c) hr r'
    have honce := h.once c r.key
    rw [binds_of_bound hidle] at hset
    show tally (binds c) (s.requests.set i r') = 0
    omega
  · have honce := h.once c k
    have hpos := List.count_pos_iff.mpr hk
    omega

variable [DecidableEq K]

/-! ### Slots -/

/-- The slots of the requests, the idle connections and the count of every origin agree, up to a
debt; the limits are kept. -/
structure Accounted (options : PoolOptions) (debt : K → ℕ) (s : Impl K) : Prop where
  count : ∀ k, s.connectionCounts k = tally (slots k) s.requests + (s.pool k).length + debt k
  limit : options.maxConnectionsPerOrigin ≠ 0 →
    ∀ k, s.connectionCounts k ≤ options.maxConnectionsPerOrigin
  room : ∀ k, (s.pool k).length ≤ options.connectionPoolSize

/-- One slot of an origin. -/
def oneSlot (key : K) : K → ℕ := fun k => if k = key then 1 else 0

section

variable {options : PoolOptions} {debt debt' : K → ℕ} {s : Impl K} {i : ℕ} {r r' : RequestState K}

/-- A request that moves on exchanges its slot for debt. -/
lemma Accounted.put (h : Accounted options debt s) (hr : s.requests[i]? = some r)
    (hslots : ∀ k, slots k r' + debt' k = slots k r + debt k) :
    Accounted options debt' (s.put i r') := by
  refine ⟨fun k => ?_, h.limit, h.room⟩
  have hcount := h.count k
  have hset := tally_set (slots k) hr r'
  have hk := hslots k
  show s.connectionCounts k = tally (slots k) (s.requests.set i r') + (s.pool k).length + debt' k
  omega

/-- Waking a waiter keeps the account. -/
lemma Accounted.wakePoolWaiter (h : Accounted options debt s) (key : K) :
    Accounted options debt (s.wakePoolWaiter key) := by
  refine ⟨fun k => ?_, h.limit, h.room⟩
  have htally := tally_wakeFirst (f := slots k)
    (fun r w inAcquire w' hstage => slots_waiting hstage w' k) s.requests (s.poolWaiters key)
  show s.connectionCounts k = tally (slots k) (wakeFirst s.requests (s.poolWaiters key)).1 +
    (s.pool k).length + debt k
  rw [htally]
  exact h.count k

/-- Releasing a slot pays the debt. -/
lemma Accounted.releaseSlot {key : K} (h : Accounted options (oneSlot key) s) :
    Accounted options 0 (s.releaseSlot key) := by
  refine Accounted.wakePoolWaiter ?_ key
  have hkey := h.count key
  rw [oneSlot, if_pos rfl] at hkey
  unfold dropSlot
  rw [if_neg (by omega)]
  dsimp only
  refine ⟨fun k => ?_, fun hmax k => ?_, fun k => ?_⟩
  · have hk := h.count k
    by_cases hkk : k = key
    · subst hkk
      dsimp only
      rw [Function.update_self]
      split_ifs with hzero
      · rw [Function.update_self, List.length_nil, Pi.zero_apply]
        omega
      · rw [Pi.zero_apply]
        omega
    · rw [oneSlot, if_neg hkk] at hk
      dsimp only
      rw [Function.update_of_ne hkk, Pi.zero_apply]
      split_ifs
      · rw [Function.update_of_ne hkk]
        omega
      · omega
  · have hk := h.limit hmax k
    by_cases hkk : k = key
    · subst hkk
      dsimp only
      rw [Function.update_self]
      omega
    · dsimp only
      rw [Function.update_of_ne hkk]
      exact hk
  · dsimp only
    split_ifs
    · by_cases hkk : k = key
      · subst hkk
        rw [Function.update_self]
        exact Nat.zero_le _
      · rw [Function.update_of_ne hkk]
        exact h.room k
    · exact h.room k

/-- Giving a slot back pays the debt. -/
lemma Accounted.givesBack {t : Impl K} (h : Accounted options (oneSlot r.key) s)
    (hback : GivesBack options r s t) : Accounted options 0 t := by
  cases hback with
  | drop isOpen => exact Accounted.releaseSlot ⟨h.count, h.limit, h.room⟩
  | @pool c hbound hroom =>
    refine Accounted.wakePoolWaiter
      (s := { s with pool := Function.update s.pool r.key (c :: s.pool r.key) })
      ⟨fun k => ?_, h.limit, fun k => ?_⟩
      r.key
    · have hk := h.count k
      by_cases hkk : k = r.key
      · rw [oneSlot, if_pos hkk] at hk
        rw [hkk] at hk ⊢
        dsimp only
        rw [Function.update_self, List.length_cons, Pi.zero_apply]
        omega
      · rw [oneSlot, if_neg hkk] at hk
        dsimp only
        rw [Function.update_of_ne hkk, Pi.zero_apply]
        exact hk
    · by_cases hkk : k = r.key
      · rw [hkk]
        dsimp only
        rw [Function.update_self, List.length_cons]
        omega
      · dsimp only
        rw [Function.update_of_ne hkk]
        exact h.room k

/-- Handing a notification on keeps the account. -/
lemma Accounted.passOn (h : Accounted options debt s) (handedOn : Option K) :
    Accounted options debt (s.passOn handedOn) := by
  cases handedOn with
  | none => exact h
  | some key => exact h.wakePoolWaiter key

/-- The slots of a request without one. -/
lemma slots_of_usesSlot (h : r.usesSlot = false) (k : K) : slots k r = 0 := by
  simp [slots, h]

/-- The slot of a request that uses one. -/
lemma slots_eq_oneSlot (h : r.usesSlot = true) (k : K) : slots k r = oneSlot r.key k := by
  simp only [slots, oneSlot, h, true_and, eq_comm]

/-- The connections that are checked out have left the list of idle connections, and the count. -/
lemma checkOut_spec (isOpen : ℕ → Bool) (entries : List ℕ) (count : ℕ)
    (h : entries.length ≤ count) :
    ∃ dropped, entries = dropped ++ ((checkOut isOpen entries count).1.toList ++
        (checkOut isOpen entries count).2.1) ∧
      (checkOut isOpen entries count).2.2 + dropped.length = count ∧
      ((checkOut isOpen entries count).1 = none → (checkOut isOpen entries count).2.1 = []) := by
  induction entries generalizing count with
  | nil => exact ⟨[], rfl, rfl, fun _ => rfl⟩
  | cons c entries ih =>
    rw [List.length_cons] at h
    rw [checkOut]
    split_ifs
    · exact ⟨[], rfl, rfl, fun hnone => by cases hnone⟩
    · obtain ⟨dropped, hentries, hcount, hnone⟩ := ih (count - 1) (by omega)
      refine ⟨c :: dropped, ?_, ?_, hnone⟩
      · rw [List.cons_append, ← hentries]
      · rw [List.length_cons]
        omega

/-- Idle connections of an origin are dropped, and no longer counted.  This is what `acquire` does
at first: it takes entries off the front whose connections have closed in the meantime. -/
inductive Drops (key : K) (s : Impl K) : Impl K → Prop where
  | intro {dropped entries : List ℕ} {count : ℕ} (hpool : s.pool key = dropped ++ entries)
      (hcount : count + dropped.length = s.connectionCounts key) :
      Drops key s { s with
        pool := Function.update s.pool key entries
        connectionCounts := Function.update s.connectionCounts key count }

/-- What `acquire` does after it has dropped the connections that have closed: it takes an idle
connection or a slot, or waits. -/
inductive Acquires (options : PoolOptions) (i : ℕ) (r : RequestState K) (t : Impl K) :
    Impl K → Prop where
  | reuse {c : ℕ} {entries : List ℕ} (hpool : t.pool r.key = c :: entries) :
      Acquires options i r t
        ({ t with pool := Function.update t.pool r.key entries }.put i
          { r with stage := .leased c true .acquired, notifiedOrigin := none })
  | slot (hpool : t.pool r.key = [])
      (hroom : options.maxConnectionsPerOrigin = 0 ∨
        t.connectionCounts r.key < options.maxConnectionsPerOrigin) :
      Acquires options i r t
        ({ t with connectionCounts :=
            Function.update t.connectionCounts r.key (t.connectionCounts r.key + 1) }.put i
          { r with stage := .connecting none, notifiedOrigin := none })
  | wait (hpool : t.pool r.key = []) (hlimit : options.maxConnectionsPerOrigin ≠ 0)
      (hcount : options.maxConnectionsPerOrigin ≤ t.connectionCounts r.key) :
      Acquires options i r t (t.awaitSuspend i r true)

/-- `acquire` drops connections, and goes on in one of three ways. -/
lemma acquires_of_acquire (h : (s.pool r.key).length ≤ s.connectionCounts r.key) :
    ∃ t, Drops r.key s t ∧ Acquires options i r t (s.acquire options i r) := by
  obtain ⟨dropped, hentries, hcount, hnone⟩ := checkOut_spec s.isOpen (s.pool r.key)
    (s.connectionCounts r.key) h
  unfold Impl.acquire
  rcases hres : checkOut s.isOpen (s.pool r.key) (s.connectionCounts r.key) with
    ⟨connection, entries, count⟩
  rw [hres] at hentries hcount hnone
  refine ⟨_, .intro hentries hcount, ?_⟩
  have hself : Function.update s.connectionCounts r.key count r.key = count :=
    Function.update_self _ _ _
  cases connection with
  | some c =>
    have hreuse : Acquires options i r
        { s with
          pool := Function.update s.pool r.key (c :: entries)
          connectionCounts := Function.update s.connectionCounts r.key count } _ :=
      .reuse (Function.update_self _ _ _)
    dsimp only at hreuse ⊢
    rwa [Function.update_idem] at hreuse
  | none =>
    obtain rfl : entries = [] := hnone rfl
    dsimp only
    split_ifs with hroom
    · have hslot : Acquires options i r
          { s with
            pool := Function.update s.pool r.key []
            connectionCounts := Function.update s.connectionCounts r.key count } _ :=
        .slot (Function.update_self _ _ _) (hroom.imp_right hself.trans_lt)
      dsimp only at hslot ⊢
      rwa [hself] at hslot
    · rw [not_or, not_lt] at hroom
      exact .wait (Function.update_self _ _ _) hroom.1 (hroom.2.trans hself.ge)

/-- The requests do not notice what is dropped. -/
lemma Drops.requests {key : K} {t : Impl K} (h : Drops key s t) : t.requests = s.requests := by
  cases h
  rfl

/-- Dropping connections keeps the account. -/
lemma Accounted.drops {key : K} {t : Impl K} (h : Accounted options debt s) (hdrops : Drops key s t) :
    Accounted options debt t := by
  cases hdrops with
  | @intro dropped entries count hpool hcount =>
    have hlength := congrArg List.length hpool
    rw [List.length_append] at hlength
    refine ⟨fun k => ?_, fun hmax k => ?_, fun k => ?_⟩
    · have hk := h.count k
      dsimp only
      by_cases hkk : k = key
      · rw [hkk] at hk ⊢
        rw [Function.update_self, Function.update_self]
        omega
      · rw [Function.update_of_ne hkk, Function.update_of_ne hkk]
        exact hk
    · have hk := h.limit hmax k
      dsimp only
      by_cases hkk : k = key
      · rw [hkk] at hk ⊢
        rw [Function.update_self]
        omega
      · rw [Function.update_of_ne hkk]
        exact hk
    · have hk := h.room k
      dsimp only
      by_cases hkk : k = key
      · rw [hkk] at hk ⊢
        rw [Function.update_self]
        omega
      · rw [Function.update_of_ne hkk]
        exact hk

/-- An idle connection that leaves its list is counted as a debt. -/
lemma Accounted.pop {key : K} {c : ℕ} {entries : List ℕ} (h : Accounted options 0 s)
    (hpool : s.pool key = c :: entries) :
    Accounted options (oneSlot key) { s with pool := Function.update s.pool key entries } := by
  refine ⟨fun k => ?_, h.limit, fun k => ?_⟩
  · have hk := h.count k
    rw [Pi.zero_apply] at hk
    dsimp only
    by_cases hkk : k = key
    · rw [hkk, hpool, List.length_cons] at hk
      rw [hkk, Function.update_self, oneSlot, if_pos rfl]
      omega
    · rw [Function.update_of_ne hkk, oneSlot, if_neg hkk]
      exact hk
  · have hk := h.room k
    dsimp only
    by_cases hkk : k = key
    · rw [hkk, hpool, List.length_cons] at hk
      rw [hkk, Function.update_self]
      omega
    · rw [Function.update_of_ne hkk]
      exact hk

/-- So is a new slot, if there is room for it. -/
lemma Accounted.newSlot {key : K} (h : Accounted options 0 s)
    (hroom : options.maxConnectionsPerOrigin = 0 ∨
      s.connectionCounts key < options.maxConnectionsPerOrigin) :
    Accounted options (oneSlot key) { s with
      connectionCounts := Function.update s.connectionCounts key (s.connectionCounts key + 1) } := by
  refine ⟨fun k => ?_, fun hmax k => ?_, h.room⟩
  · have hk := h.count k
    rw [Pi.zero_apply] at hk
    dsimp only
    by_cases hkk : k = key
    · rw [hkk] at hk ⊢
      rw [Function.update_self, oneSlot, if_pos rfl]
      omega
    · rw [Function.update_of_ne hkk, oneSlot, if_neg hkk]
      exact hk
  · have hk := h.limit hmax k
    dsimp only
    by_cases hkk : k = key
    · rw [hkk, Function.update_self]
      omega
    · rw [Function.update_of_ne hkk]
      exact hk

/-- A request that waits uses no slot. -/
lemma Accounted.awaitSuspend (h : Accounted options 0 s) (hr : s.requests[i]? = some r)
    (hidle : r.Idle) (inAcquire : Bool) : Accounted options 0 (s.awaitSuspend i r inAcquire) := by
  have hput : Accounted options 0 (s.put i
      { r with stage := .waiting { queued := true } inAcquire, notifiedOrigin := none }) :=
    h.put hr fun k => by rw [slots_of_usesSlot hidle.usesSlot, slots_of_usesSlot rfl]
  exact ⟨hput.count, hput.limit, hput.room⟩

/-- Acquiring a connection or a slot keeps the account, and so does waiting for one. -/
lemma Accounted.acquire (h : Accounted options 0 s) (hr : s.requests[i]? = some r)
    (hidle : r.Idle) : Accounted options 0 (s.acquire options i r) := by
  have hkey := h.count r.key
  obtain ⟨t, hdrops, hacquires⟩ : ∃ t, Drops r.key s t ∧
      Acquires options i r t (s.acquire options i r) := acquires_of_acquire (by omega)
  generalize s.acquire options i r = u at hacquires ⊢
  have ht := h.drops hdrops
  have hrt : t.requests[i]? = some r := hdrops.requests ▸ hr
  -- the debt becomes the slot of the request
  have hpays : ∀ {r' : RequestState K}, r'.usesSlot = true → r'.key = r.key →
      ∀ k, slots k r' + (0 : K → ℕ) k = slots k r + oneSlot r.key k := by
    intro r' huses hsame k
    rw [slots_of_usesSlot hidle.usesSlot, slots_eq_oneSlot huses, hsame, Pi.zero_apply]
    exact Nat.add_comm _ _
  cases hacquires with
  | reuse hpool => exact (ht.pop hpool).put hrt (hpays rfl rfl)
  | slot hpool hroom => exact (ht.newSlot hroom).put hrt (hpays rfl rfl)
  | wait => exact ht.awaitSuspend hrt hidle true

/-- Every move of a request keeps the account.  By cases on the moves, so a new event of the source
needs a move and a case here. -/
theorem Accounted.moves {s' : Impl K} (h : Accounted options 0 s) (hr : s.requests[i]? = some r)
    (hmoves : Moves options s i r s') : Accounted options 0 s' := by
  cases hmoves with
  | @keep r' isOpen hkeeps =>
    have hput : Accounted options 0 (s.put i r') := h.put hr fun k => by
      simp only [slots, hkeeps.usesSlot, hkeeps.key]
    exact ⟨hput.count, hput.limit, hput.room⟩
  | @resume w inAcquire stage hwaiting hstage =>
    have hput : Accounted options 0 (s.put i { r with
        stage, onLoop := true
        notifiedOrigin := if w.slotNotified then some r.key else r.notifiedOrigin }) := by
      refine h.put hr fun k => ?_
      have hnone : r.usesSlot = false := by rw [usesSlot, hwaiting]
      rw [slots_of_usesSlot hnone, slots_of_usesSlot]
      rcases hstage with rfl | rfl <;> rfl
    exact ⟨hput.count, hput.limit, hput.room⟩
  | exit hidle =>
    refine Accounted.passOn (h.put hr fun k => ?_) _
    rw [slots_of_usesSlot hidle.usesSlot, slots_of_usesSlot rfl]
  | suspend inAcquire hidle => exact h.awaitSuspend hr hidle inAcquire
  | acquire hidle => exact h.acquire hr hidle
  | connect isOpen hstage =>
    have hopened : Accounted options 0 { s with isOpen, connections := s.connections + 1 } :=
      ⟨h.count, h.limit, h.room⟩
    have huses : r.usesSlot = true := by rw [usesSlot, hstage]
    refine hopened.put hr fun k => ?_
    rw [slots_eq_oneSlot huses, slots_eq_oneSlot rfl]
  | @leave r' t handedOn huses hidle hback hnotified hhanded =>
    have hput : Accounted options (oneSlot r.key) (s.put i r') := by
      refine h.put hr fun k => ?_
      rw [slots_eq_oneSlot huses, slots_of_usesSlot hidle.usesSlot, Pi.zero_apply]
      omega
    exact (hput.givesBack hback).passOn handedOn

/-! ### Connections in their places -/

/-- A connection that is in no other place may go into the pool.  The three hypotheses say that no
request, no pool and no later connection is this one. -/
lemma Owned.push {c : ℕ} {key : K} (h : Owned s) (hbinds : tally (binds c) s.requests = 0)
    (hpool : ∀ k, c ∉ s.pool k) (hcreated : c < s.connections) :
    Owned { s with pool := Function.update s.pool key (c :: s.pool key) } := by
  have hmem : ∀ {c' k}, c' ∈ Function.update s.pool key (c :: s.pool key) k →
      c' = c ∧ k = key ∨ c' ∈ s.pool k := by
    intro c' k hk
    by_cases hkk : k = key
    · rw [hkk, Function.update_self, List.mem_cons] at hk
      rcases hk with rfl | hk
      · exact Or.inl ⟨rfl, hkk⟩
      · exact Or.inr (hkk ▸ hk)
    · rw [Function.update_of_ne hkk] at hk
      exact Or.inr hk
  refine ⟨fun c' k => ?_, fun c' k k' hk hk' => ?_, fun c' hc => ?_⟩
  · have honce := h.once c' k
    dsimp only
    by_cases hkk : k = key
    · rw [hkk] at honce ⊢
      rw [Function.update_self, List.count_cons]
      by_cases hcc : c = c'
      · rw [← hcc, hbinds, List.count_eq_zero.mpr (hpool key), beq_self_eq_true, if_pos rfl]
      · rw [beq_eq_false_iff_ne.mpr hcc, if_neg Bool.false_ne_true]
        exact honce
    · rw [Function.update_of_ne hkk]
      exact honce
  · rcases hmem hk with ⟨hc, hkey⟩ | hold
    · rcases hmem hk' with ⟨-, hkey'⟩ | hold'
      · exact hkey.trans hkey'.symm
      · exact absurd (hc ▸ hold') (hpool k')
    · rcases hmem hk' with ⟨hc, -⟩ | hold'
      · exact absurd (hc ▸ hold) (hpool k)
      · exact h.origin c' k k' hold hold'
  · rcases hc with hc | ⟨k, hk⟩
    · exact h.created c' (Or.inl hc)
    · rcases hmem hk with ⟨rfl, -⟩ | hold
      · exact hcreated
      · exact h.created c' (Or.inr ⟨k, hold⟩)

/-- Waking a waiter leaves connections where they are. -/
lemma Owned.wakePoolWaiter (h : Owned s) (key : K) : Owned (s.wakePoolWaiter key) := by
  refine h.of_le (fun c => ?_) (fun k => List.Sublist.refl _) le_rfl
  exact (tally_wakeFirst (f := binds c)
    (fun r w inAcquire w' hstage => binds_waiting hstage w' c) s.requests (s.poolWaiters key)).le

/-- Handing a notification on leaves connections where they are. -/
lemma Owned.passOn (h : Owned s) (handedOn : Option K) : Owned (s.passOn handedOn) := by
  cases handedOn with
  | none => exact h
  | some key => exact h.wakePoolWaiter key

/-- Releasing a slot leaves connections where they are, or drops idle ones. -/
lemma Owned.releaseSlot (h : Owned s) (key : K) : Owned (s.releaseSlot key) := by
  refine Owned.wakePoolWaiter ?_ key
  unfold dropSlot
  dsimp only
  split_ifs
  · exact h
  · refine h.of_le (fun c => le_rfl) (fun k => ?_) le_rfl
    dsimp only
    by_cases hkk : k = key
    · rw [hkk, Function.update_self]
      exact List.nil_sublist _
    · rw [Function.update_of_ne hkk]
  · exact h.of_le (fun c => le_rfl) (fun k => List.Sublist.refl _) le_rfl

/-- Dropped connections are in no place. -/
lemma Owned.drops {key : K} {t : Impl K} (h : Owned s) (hdrops : Drops key s t) : Owned t := by
  cases hdrops with
  | @intro dropped entries count hpool hcount =>
    refine h.of_le (fun c => le_rfl) (fun k => ?_) le_rfl
    dsimp only
    by_cases hkk : k = key
    · rw [hkk, Function.update_self, hpool]
      exact List.sublist_append_right _ _
    · rw [Function.update_of_ne hkk]

/-- A connection that leaves its list is in no other place. -/
lemma Owned.pop {key : K} {c : ℕ} {entries : List ℕ} (h : Owned s)
    (hpool : s.pool key = c :: entries) :
    Owned { s with pool := Function.update s.pool key entries } ∧
      tally (binds c) s.requests = 0 ∧ (∀ k, c ∉ Function.update s.pool key entries k) ∧
      c < s.connections := by
  have hmem : c ∈ s.pool key := by
    rw [hpool]
    exact List.mem_cons_self
  have honce := h.once c key
  rw [hpool, List.count_cons_self] at honce
  refine ⟨h.of_le (fun c => le_rfl) (fun k => ?_) le_rfl, by omega, fun k hk => ?_,
    h.created c (Or.inr ⟨key, hmem⟩)⟩
  · dsimp only
    by_cases hkk : k = key
    · rw [hkk, Function.update_self, hpool]
      exact List.sublist_cons_self _ _
    · rw [Function.update_of_ne hkk]
  · by_cases hkk : k = key
    · rw [hkk, Function.update_self] at hk
      have := List.count_pos_iff.mpr hk
      omega
    · rw [Function.update_of_ne hkk] at hk
      exact hkk (h.origin c k key hk hmem)

omit [DecidableEq K] in
/-- A connection that is in no other place may be bound to a request. -/
lemma Owned.bind {c : ℕ} (h : Owned s) (hr : s.requests[i]? = some r)
    (hnone : boundConnection r = none) (hbound : boundConnection r' = some c)
    (hbinds : tally (binds c) s.requests = 0) (hpool : ∀ k, c ∉ s.pool k)
    (hcreated : c < s.connections) : Owned (s.put i r') := by
  have htally : ∀ c', tally (binds c') (s.put i r').requests =
      tally (binds c') s.requests + if c' = c then 1 else 0 := by
    intro c'
    have hset := tally_set (binds c') hr r'
    have hnew : binds c' r' = if c' = c then 1 else 0 := by
      simp only [binds, hbound, Option.some.injEq, eq_comm]
    rw [binds_of_bound hnone, hnew] at hset
    exact hset
  refine ⟨fun c' k => ?_, h.origin, fun c' hc => ?_⟩
  · have honce := h.once c' k
    rw [htally]
    split_ifs with hcc
    · rw [hcc, hbinds]
      exact (congrArg (0 + 1 + ·) (List.count_eq_zero.mpr (hpool k))).le
    · exact honce
  · by_cases hcc : c' = c
    · exact hcc ▸ hcreated
    · rw [htally, if_neg hcc] at hc
      exact h.created c' hc

/-- A request that waits is bound to no connection. -/
lemma Owned.awaitSuspend (h : Owned s) (hr : s.requests[i]? = some r) (inAcquire : Bool) :
    Owned (s.awaitSuspend i r inAcquire) := by
  have hput : Owned (s.put i
      { r with stage := .waiting { queued := true } inAcquire, notifiedOrigin := none }) := by
    refine h.put hr fun c => ?_
    rw [binds_of_bound rfl]
    exact Nat.zero_le _
  exact ⟨hput.once, hput.origin, hput.created⟩

/-- Acquiring a connection moves it to the request. -/
lemma Owned.acquire (h : Owned s) (haccount : Accounted options 0 s)
    (hr : s.requests[i]? = some r) (hidle : r.Idle) : Owned (s.acquire options i r) := by
  have hkey := haccount.count r.key
  obtain ⟨t, hdrops, hacquires⟩ : ∃ t, Drops r.key s t ∧
      Acquires options i r t (s.acquire options i r) := acquires_of_acquire (by omega)
  generalize s.acquire options i r = u at hacquires ⊢
  have ht := h.drops hdrops
  have hrt : t.requests[i]? = some r := hdrops.requests ▸ hr
  cases hacquires with
  | reuse hpool =>
    obtain ⟨hpopped, hbinds, hfree, hcreated⟩ := ht.pop hpool
    exact hpopped.bind hrt hidle.bound rfl hbinds hfree hcreated
  | slot =>
    have hslot : Owned { t with
        connectionCounts :=
          Function.update t.connectionCounts r.key (t.connectionCounts r.key + 1) } :=
      ⟨ht.once, ht.origin, ht.created⟩
    refine hslot.put hrt fun c => ?_
    rw [binds_of_bound rfl]
    exact Nat.zero_le _
  | wait => exact ht.awaitSuspend hrt true

/-- Every move of a request leaves each connection in one place.  A connection is with one request,
or idle once in the pool of one origin, or gone. -/
theorem Owned.moves {s' : Impl K} (h : Owned s) (haccount : Accounted options 0 s)
    (hr : s.requests[i]? = some r) (hmoves : Moves options s i r s') : Owned s' := by
  cases hmoves with
  | @keep r' isOpen hkeeps =>
    have hput : Owned (s.put i r') := h.put hr fun c => by rw [binds, binds, hkeeps.bound]
    exact ⟨hput.once, hput.origin, hput.created⟩
  | @resume w inAcquire stage hwaiting hstage =>
    have hput : Owned (s.put i { r with
        stage, onLoop := true
        notifiedOrigin := if w.slotNotified then some r.key else r.notifiedOrigin }) := by
      refine h.put hr fun c => ?_
      rw [binds_of_bound]
      · exact Nat.zero_le _
      · rcases hstage with rfl | rfl <;> rfl
    exact ⟨hput.once, hput.origin, hput.created⟩
  | exit hidle =>
    refine Owned.passOn (h.put hr fun c => ?_) _
    rw [binds_of_bound rfl]
    exact Nat.zero_le _
  | suspend inAcquire => exact h.awaitSuspend hr inAcquire
  | acquire hidle => exact h.acquire haccount hr hidle
  | connect isOpen hstage =>
    -- the new connection has a number that no connection has had
    have hbinds : tally (binds s.connections) s.requests = 0 := by
      by_contra hne
      exact absurd (h.created s.connections (Or.inl (Nat.pos_of_ne_zero hne))) (lt_irrefl _)
    have hpool : ∀ k, s.connections ∉ s.pool k := fun k hk =>
      absurd (h.created s.connections (Or.inr ⟨k, hk⟩)) (lt_irrefl _)
    have hopened : Owned { s with isOpen, connections := s.connections + 1 } :=
      ⟨h.once, h.origin, fun c hc => Nat.lt_succ_of_lt (h.created c hc)⟩
    exact hopened.bind hr (by rw [boundConnection, hstage]) rfl hbinds hpool (Nat.lt_succ_self _)
  | @leave r' t handedOn huses hidle hback hnotified hhanded =>
    have hput : Owned (s.put i r') := by
      refine h.put hr fun c => ?_
      rw [binds_of_bound hidle.bound]
      exact Nat.zero_le _
    refine Owned.passOn ?_ handedOn
    cases hback with
    | drop isOpen =>
      exact Owned.releaseSlot (s := { s.put i r' with isOpen })
        ⟨hput.once, hput.origin, hput.created⟩ r.key
    | @pool c hbound hroom =>
      obtain ⟨hbinds, hpool, hcreated⟩ := h.free hr hbound hidle.bound
      exact (hput.push hbinds hpool hcreated).wakePoolWaiter r.key

/-- The invariant of the client.  The counters count the slots and the idle connections, and no
connection is in two places. -/
structure Balanced (options : PoolOptions) (s : Impl K) : Prop where
  accounted : Accounted options 0 s
  owned : Owned s

/-- Every step of the client keeps its balance.  This is the step lemma of `pool_accounting`; the
induction over runs uses it. -/
theorem Balanced.step {a : Action K} {s' : Impl K} (h : Balanced options s)
    (hstep : AsyncClient.step options s a = some s') : Balanced options s' := by
  obtain ⟨haccounted, howned⟩ := h
  cases a with
  | request r =>
    cases hstep
    refine ⟨⟨fun k => ?_, haccounted.limit, haccounted.room⟩,
      howned.of_le (fun c => ?_) (fun k => List.Sublist.refl _) le_rfl⟩
    · have hk := haccounted.count k
      dsimp only
      rw [tally_append, tally_cons, slots_of_usesSlot rfl]
      exact hk
    · dsimp only
      rw [tally_append, tally_cons, binds_of_bound rfl]
      exact le_rfl
  | closed c =>
    cases hstep
    exact ⟨⟨haccounted.count, haccounted.limit, haccounted.room⟩,
      ⟨howned.once, howned.origin, howned.created⟩⟩
  | event i e =>
    simp only [AsyncClient.step] at hstep
    split at hstep
    · cases hstep
    · rename_i r hr
      have hmoves := moves_of_event hstep
      exact ⟨haccounted.moves hr hmoves, howned.moves haccounted hr hmoves⟩

/-- A new client is balanced. -/
lemma balanced_start (options : PoolOptions) : Balanced options ({} : Impl K) := by
  refine ⟨⟨fun k => rfl, fun _ k => Nat.zero_le _, fun k => Nat.zero_le _⟩,
    ⟨fun c k => Nat.zero_le _, fun c k k' hk => ?_, fun c hc => ?_⟩⟩
  · cases hk
  · rcases hc with hc | ⟨k, hk⟩
    · exact absurd hc (lt_irrefl _)
    · cases hk

end

end Impl

namespace RequestState

variable {K : Type*} [DecidableEq K]

/-- The request holds a lease of an origin.  The connection is not in the pool then. -/
def leases (key : K) (r : RequestState K) : Bool :=
  decide (r.key = key) &&
    match r.stage with
    | .leased _ _ _ => true
    | _ => false

/-- The request has a connect of an origin in progress.  Its slot is counted before there is a
connection. -/
def connects (key : K) (r : RequestState K) : Bool :=
  decide (r.key = key) &&
    match r.stage with
    | .connecting _ => true
    | _ => false

/-- A slot is used by a lease or by a connect. -/
lemma slots_eq (key : K) (r : RequestState K) :
    slots key r = (if leases key r then 1 else 0) + if connects key r then 1 else 0 := by
  by_cases hkey : r.key = key
  · cases hstage : r.stage <;> simp [slots, leases, connects, usesSlot, hkey, hstage]
  · simp [slots, leases, connects, hkey]

end RequestState

open RequestState Impl

variable {K : Type*} [DecidableEq K]

/-- Pool accounting.  In every state that the client reaches, whatever its requests do and in which
order: the count of an origin is the number of leases, connects in progress and idle connections
(closed ones included); it does not exceed the limit if there is one; the idle connections do not
exceed the size of the pool; and no connection is with two requests, with a request and idle, or
idle twice. -/
theorem pool_accounting (options : PoolOptions) (s : Impl K) (trace : List (Impl K × Action K))
    (h : Transition.Run (step options) {} trace s) :
    (∀ k, s.connectionCounts k =
      s.requests.countP (leases k) + s.requests.countP (connects k) + (s.pool k).length) ∧
    (options.maxConnectionsPerOrigin ≠ 0 →
      ∀ k, s.connectionCounts k ≤ options.maxConnectionsPerOrigin) ∧
    (∀ k, (s.pool k).length ≤ options.connectionPoolSize) ∧
    (∀ (i j : ℕ) r r' c, s.requests[i]? = some r → s.requests[j]? = some r' →
      boundConnection r = some c → boundConnection r' = some c → i = j) ∧
    (∀ (i : ℕ) r c k, s.requests[i]? = some r → boundConnection r = some c → c ∉ s.pool k) ∧
    (∀ k, (s.pool k).Nodup) ∧
    ∀ c k k', c ∈ s.pool k → c ∈ s.pool k' → k = k' := by
  obtain ⟨haccounted, howned⟩ := h.invariant (I := Balanced options)
    (fun _ _ _ hI hnext => hI.step hnext) (balanced_start options)
  have hbinds : ∀ {r : RequestState K} {c : ℕ}, boundConnection r = some c → binds c r = 1 :=
    fun hbound => if_pos hbound
  refine ⟨fun k => ?_, haccounted.limit, haccounted.room, ?_, ?_, fun k => ?_, howned.origin⟩
  · have hcount := haccounted.count k
    have hsplit : tally (slots k) s.requests =
        s.requests.countP (leases k) + s.requests.countP (connects k) := by
      rw [← tally_eq_countP, ← tally_eq_countP, ← tally_add]
      exact congrArg (tally · s.requests) (funext (slots_eq k))
    rw [hsplit] at hcount
    exact hcount
  · intro i j r r' c hi hj hbound hbound'
    by_contra hne
    have hle := add_le_tally (f := binds c) hi hj hne
    have honce := howned.once c r.key
    rw [hbinds hbound, hbinds hbound'] at hle
    omega
  · intro i r c k hr hbound hk
    have hle := le_tally (f := binds c) hr
    have honce := howned.once c k
    have hpos := List.count_pos_iff.mpr hk
    rw [hbinds hbound] at hle
    omega
  · refine List.nodup_iff_count_le_one.mpr fun c => ?_
    have honce := howned.once c k
    omega

/-- Four requests to one origin, which has room for three connections.  The first one keeps its lease,
the second one returns its connection, which closes in the pool, the third one is connecting, and the
fourth one waits until it is woken up by the second one. -/
def busy : List (Action Unit) :=
  [.request { key := () }, .event 0 .resumeOnLoop, .event 0 (.check false),
    .event 0 (.exchange false), .event 0 (.acquire false), .event 0 (.connect true),
    .event 0 (.establish true),
    .request { key := () }, .event 1 .resumeOnLoop, .event 1 (.check false),
    .event 1 (.exchange false), .event 1 (.acquire false), .event 1 (.connect true),
    .event 1 (.establish true), .event 1 (.send false), .event 1 (.written false),
    .request { key := () }, .event 2 .resumeOnLoop, .event 2 (.check false),
    .event 2 (.exchange false), .event 2 (.acquire false),
    .request { key := () }, .event 3 .resumeOnLoop, .event 3 (.check false),
    .event 1 (.received (.response true .finish)), .closed 1]

/-- A lease, a connect in progress and an idle connection, which is with no request. -/
theorem pool_accounting_connected :
    ∃ s : Impl Unit, Transition.perform (step { maxConnectionsPerOrigin := 3 }) {} busy = some s ∧
      s.requests.countP (leases ()) = 1 ∧ s.requests.countP (connects ()) = 1 ∧ s.pool () = [1] ∧
      s.isOpen 1 = false ∧ s.connectionCounts () = 1 + 1 + 1 ∧ s.connectionCounts () ≤ 3 ∧
      ∀ (i : ℕ) r, s.requests[i]? = some r → boundConnection r ≠ some 1 := by
  obtain ⟨s, hs, hleases, hconnects, hpool, hclosed⟩ :
      ∃ s, Transition.perform (step { maxConnectionsPerOrigin := 3 }) ({} : Impl Unit) busy =
          some s ∧ s.requests.countP (leases ()) = 1 ∧ s.requests.countP (connects ()) = 1 ∧
        s.pool () = [1] ∧ s.isOpen 1 = false := ⟨_, rfl, by decide, by decide, rfl, rfl⟩
  obtain ⟨trace, hrun⟩ := Transition.run_of_perform hs
  obtain ⟨hcount, hlimit, -, -, hidle, -, -⟩ :=
    pool_accounting { maxConnectionsPerOrigin := 3 } s trace hrun
  refine ⟨s, hs, hleases, hconnects, hpool, hclosed, ?_, hlimit (by decide) (), fun i r hr hbound => ?_⟩
  · rw [hcount, hleases, hconnects, hpool]
    rfl
  · exact hidle i r 1 () hr hbound (by rw [hpool]; exact List.mem_singleton_self 1)

end Chhttp.AsyncClient
