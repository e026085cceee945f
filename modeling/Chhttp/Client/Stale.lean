import Chhttp.Client.Exchange
import Chhttp.Client.Pool

/-!
# Stale connections

A connection of the pool is stale if the peer has closed it and the client has not noticed: it is
open as far as `acquire` can tell, and an attempt on it fails without a response.  The attempts of an
exchange take the idle connections of the origin in the order of `acquire`, and then new ones.

An exchange repeats one failed attempt, on whatever connection `acquire` hands out.  It recovers from
one stale connection, and fails on two.
-/

namespace Chhttp.AsyncClient

/-! ### The connections of an exchange -/

/-- The attempts of an exchange with idle connections: they use these up, as `acquire` does, and
then those of `fresh`. -/
def pooledAttempts (isOpen : ℕ → Bool) (outcome : ℕ → AttemptOutcome) (fresh : ℕ → Attempt) :
    List ℕ → ℕ → Attempt
  | entries, 0 =>
    match Impl.checkOut isOpen entries entries.length with
    | (some c, _) => { reused := true, outcome := outcome c }
    | (none, _) => fresh 0
  | entries, n + 1 =>
    match Impl.checkOut isOpen entries entries.length with
    | (some _, rest, _) => pooledAttempts isOpen outcome fresh rest n
    | (none, _) => fresh (n + 1)

/-- An attempt fails without a response.  Nothing has come back, so the client may take it for a
connection that had gone stale. -/
def FailsSilently : AttemptOutcome → Prop
  | .writeFailed _ => True
  | .readFailed _ responseStarted => responseStarted = false
  | _ => False

/-- `acquire` hands out the first connection that it believes to be open. -/
lemma checkOut_eq (isOpen : ℕ → Bool) (entries : List ℕ) (count : ℕ) :
    (∃ c rest count', Impl.checkOut isOpen entries count = (some c, rest, count') ∧ c ∈ entries ∧
        isOpen c = true ∧ rest ⊆ entries ∧ entries.filter isOpen = c :: rest.filter isOpen) ∨
      (∃ count', Impl.checkOut isOpen entries count = (none, [], count')) ∧
        entries.filter isOpen = [] := by
  induction entries generalizing count with
  | nil => exact Or.inr ⟨⟨count, rfl⟩, rfl⟩
  | cons c entries ih =>
    rw [Impl.checkOut]
    by_cases hopen : isOpen c = true
    · rw [if_pos hopen, List.filter_cons_of_pos hopen]
      exact Or.inl ⟨c, entries, count, rfl, List.mem_cons_self, hopen,
        List.subset_cons_self c entries, rfl⟩
    · rw [if_neg hopen, List.filter_cons_of_neg hopen]
      rcases ih (count - 1) with ⟨d, rest, count', hout, hmem, hd, hrest, hfilter⟩ | hnone
      · exact Or.inl ⟨d, rest, count', hout, List.mem_cons_of_mem c hmem, hd,
          List.subset_cons_of_subset c hrest, hfilter⟩
      · exact Or.inr hnone

/-- With no connection that is believed to be open, all attempts are new. -/
lemma pooledAttempts_of_none {isOpen : ℕ → Bool} {entries : List ℕ} (h : entries.filter isOpen = [])
    (outcome : ℕ → AttemptOutcome) (fresh : ℕ → Attempt) :
    pooledAttempts isOpen outcome fresh entries = fresh := by
  have hout : ∃ count', Impl.checkOut isOpen entries entries.length = (none, [], count') := by
    rcases checkOut_eq isOpen entries entries.length with ⟨c, _, _, _, _, _, _, hfilter⟩ | hnone
    · rw [h] at hfilter
      cases hfilter
    · exact hnone.1
  obtain ⟨count', hout⟩ := hout
  funext n
  cases n with
  | zero => rw [pooledAttempts, hout]
  | succ n => rw [pooledAttempts, hout]

/-- The first connection that is believed to be open, and the attempts after it. -/
lemma pooledAttempts_of_some {isOpen : ℕ → Bool} {entries : List ℕ}
    (h : entries.filter isOpen ≠ []) (outcome : ℕ → AttemptOutcome) (fresh : ℕ → Attempt) :
    ∃ c rest, c ∈ entries ∧ isOpen c = true ∧ rest ⊆ entries ∧
      entries.filter isOpen = c :: rest.filter isOpen ∧
      pooledAttempts isOpen outcome fresh entries 0 = { reused := true, outcome := outcome c } ∧
      ∀ n, pooledAttempts isOpen outcome fresh entries (n + 1) =
        pooledAttempts isOpen outcome fresh rest n := by
  rcases checkOut_eq isOpen entries entries.length with
    ⟨c, rest, count, hout, hmem, hopen, hrest, hfilter⟩ | hnone
  · exact ⟨c, rest, hmem, hopen, hrest, hfilter, by rw [pooledAttempts, hout],
      fun n => by rw [pooledAttempts, hout]⟩
  · exact absurd hnone.2 h

/-! ### The attempts of an exchange, one by one -/

/-- The result of an exchange does not depend on what has been recorded. -/
lemma run_exchangeStep_congr (options : ClientOptions) {attempts attempts' : ℕ → Attempt}
    (s : ExchangeState) {u v : List (ExchangeState × Attempt)}
    (h : ∀ n, attempts (u.length + n) = attempts' (v.length + n)) :
    (Loop.run (exchangeStep options attempts) (fun v => attemptsLeft options v.1)
        (exchangeStep_decreases options attempts) (s, u)).1 =
      (Loop.run (exchangeStep options attempts') (fun v => attemptsLeft options v.1)
        (exchangeStep_decreases options attempts') (s, v)).1 := by
  induction hm : attemptsLeft options s using Nat.strong_induction_on generalizing s u v with
  | _ m ih =>
    subst hm
    have hfirst : attempts u.length = attempts' v.length := h 0
    rw [Loop.run_eq, Loop.run_eq (exchangeStep_decreases options attempts')]
    cases hstep : attemptStep options s (attempts' v.length) with
    | leave result => simp only [exchangeStep, hfirst, hstep]
    | again s' =>
      simp only [exchangeStep, hfirst, hstep]
      refine ih _ (attemptsLeft_lt hstep) s' (fun n => ?_) rfl
      simp only [List.length_append, List.length_singleton, Nat.add_assoc]
      exact h (1 + n)

/-- An attempt that ends an exchange. -/
lemma exchange_of_leave {options : ClientOptions} {attempts : ℕ → Attempt} {s : ExchangeState}
    {result : Result Response} (h : attemptStep options s (attempts 0) = .leave result) :
    (exchange options attempts s).1 = result := by
  rw [exchange, Loop.run_eq]
  simp only [exchangeStep, List.length_nil, h]

/-- An attempt with which an exchange goes on. -/
lemma exchange_of_again {options : ClientOptions} {attempts : ℕ → Attempt} {s s' : ExchangeState}
    (h : attemptStep options s (attempts 0) = .again s') :
    (exchange options attempts s).1 = (exchange options (fun n => attempts (n + 1)) s').1 := by
  rw [exchange, exchange, Loop.run_eq]
  simp only [exchangeStep, List.length_nil, h]
  refine run_exchangeStep_congr options s' fun n => ?_
  simp [Nat.add_comm]

/-! ### Stale connections -/

/-- A failed attempt on a pooled connection is repeated, if it is the first one. -/
lemma attemptStep_of_failsSilently (options : ClientOptions) {s : ExchangeState}
    {outcome : AttemptOutcome} (h : FailsSilently outcome)
    (hmethod : idempotentMethod s.request.method = true) (hstream : s.request.bodyStream = none) :
    (s.attempt = 0 → attemptStep options s { reused := true, outcome } =
      .again { s with attempt := s.attempt + 1 }) ∧
    (s.attempt ≠ 0 → ∃ e, attemptStep options s { reused := true, outcome } =
      .leave (.error e)) := by
  have hretries : retries s { reused := true, outcome } = (s.attempt == 0) := by
    simp [retries, hmethod, hstream]
  cases outcome with
  | notSent e => cases h
  | received response authorization => cases h
  | writeFailed e =>
    simp only [attemptStep, Bool.false_eq_true, if_false, hretries]
    refine ⟨fun hfirst => if_pos (beq_iff_eq.mpr hfirst), fun hagain => ⟨e, if_neg ?_⟩⟩
    rw [beq_iff_eq]
    exact hagain
  | readFailed e responseStarted =>
    obtain rfl : responseStarted = false := h
    simp only [attemptStep, Bool.false_eq_true, if_false, hretries, Bool.not_false, Bool.true_and]
    refine ⟨fun hfirst => if_pos (beq_iff_eq.mpr hfirst), fun hagain => ⟨e, if_neg ?_⟩⟩
    rw [beq_iff_eq]
    exact hagain

/-- An exchange on a new connection does not care whether it is repeated. -/
lemma attemptStep_of_fresh (options : ClientOptions) (s : ExchangeState) {a : Attempt}
    (hfresh : a.reused = false) (n : ℕ) :
    attemptStep options { s with attempt := n } a = attemptStep options s a := by
  have hretries : ∀ t : ExchangeState, retries t a = false := fun t => by simp [retries, hfresh]
  unfold attemptStep
  split
  · rfl
  · simp only [hretries, Bool.false_eq_true, if_false]
  · simp only [hretries, Bool.and_false, Bool.false_eq_true, if_false]
  · rfl

/-- The same for the rest of the exchange. -/
lemma exchange_of_fresh {options : ClientOptions} {s : ExchangeState} {fresh : ℕ → Attempt}
    (hfresh : (fresh 0).reused = false) (n : ℕ) :
    (exchange options fresh { s with attempt := n }).1 = (exchange options fresh s).1 := by
  have hstep := attemptStep_of_fresh options s hfresh n
  cases hs : attemptStep options s (fresh 0) with
  | leave result => rw [exchange_of_leave hs, exchange_of_leave (hstep.trans hs)]
  | again s' => rw [exchange_of_again hs, exchange_of_again (hstep.trans hs)]

/-- A request that may be repeated gets the response that a new connection would bring exactly if at
most one of the idle connections is stale. -/
theorem stale_connections_recovered_iff (options : ClientOptions) (s : ExchangeState)
    (isOpen : ℕ → Bool) (outcome : ℕ → AttemptOutcome) (entries : List ℕ) (fresh : ℕ → Attempt)
    (response : Response) (hattempt : s.attempt = 0)
    (hmethod : idempotentMethod s.request.method = true) (hstream : s.request.bodyStream = none)
    (hstale : ∀ c ∈ entries, isOpen c = true → FailsSilently (outcome c))
    (hfresh : (fresh 0).reused = false) (hresponse : (exchange options fresh s).1 = .ok response) :
    (exchange options (pooledAttempts isOpen outcome fresh entries) s).1 = .ok response ↔
      (entries.filter isOpen).length ≤ 1 := by
  by_cases hnone : entries.filter isOpen = []
  · rw [pooledAttempts_of_none hnone, hnone]
    exact iff_of_true hresponse (Nat.zero_le _)
  obtain ⟨c, rest, hc, hopen, hrest, hfilter, hfirst, hlater⟩ :=
    pooledAttempts_of_some hnone outcome fresh
  -- The attempt on the first stale connection is repeated.
  have hagain :=
    (attemptStep_of_failsSilently options (hstale c hc hopen) hmethod hstream).1 hattempt
  rw [exchange_of_again (hfirst ▸ hagain), funext hlater, hfilter, List.length_cons]
  by_cases hsecond : rest.filter isOpen = []
  · rw [pooledAttempts_of_none hsecond, hsecond, exchange_of_fresh hfresh]
    exact iff_of_true hresponse le_rfl
  · obtain ⟨d, rest', hd, hopen', -, hfilter', hfirst', -⟩ :=
      pooledAttempts_of_some hsecond outcome fresh
    -- That on the second one ends the exchange.
    obtain ⟨e, hleave⟩ := (attemptStep_of_failsSilently options
      (s := { s with attempt := s.attempt + 1 }) (hstale d (hrest hd) hopen')
      hmethod hstream).2 (Nat.succ_ne_zero _)
    rw [exchange_of_leave (hfirst' ▸ hleave), hfilter', List.length_cons]
    refine iff_of_false (fun h => ?_) (by omega)
    cases h

/-- A request for a page, before its first attempt. -/
def pageRequest : ExchangeState :=
  enter {} { scheme := bytes "http", host := bytes "a", port := 80, target := bytes "/",
             secure := false } {} 0 false true

/-- What an attempt on a connection that the peer has closed ends with. -/
def closedByPeer : AttemptOutcome :=
  .readFailed { code := .read, message := "end of file" } false

/-- With two stale connections, a request fails that a new connection would answer.  The source
resends once, whatever the second connection turns out to be. -/
theorem stale_connections_not_recovered :
    (exchange {} (fun _ => { outcome := .received {} none }) pageRequest).1 = .ok {} ∧
      (exchange {} (pooledAttempts (fun _ => true) (fun _ => closedByPeer)
        (fun _ => { outcome := .received {} none }) [0, 1]) pageRequest).1 =
        .error { code := .read, message := "end of file" } :=
  ⟨rfl, rfl⟩

/-- With one stale connection, it is answered. -/
theorem stale_connection_recovered :
    (exchange {} (pooledAttempts (fun _ => true) (fun _ => closedByPeer)
        (fun _ => { outcome := .received {} none }) [0]) pageRequest).1 = .ok {} :=
  (stale_connections_recovered_iff {} pageRequest (fun _ => true) (fun _ => closedByPeer) [0]
    (fun _ => { outcome := .received {} none }) {} rfl (by decide) rfl (fun _ _ _ => rfl) rfl
    rfl).mpr le_rfl

end Chhttp.AsyncClient
