import Chhttp.Client.Exchange

/-!
# Requests that are sent again

A call makes at most four attempts on a hop: two before and two in the digest stage.  `stage` numbers
the stages of the hops of a call; it never decreases, and it stays the same only for an attempt that
is repeated, so that requests of one stage are those of one attempt and its repetition.
-/

namespace Chhttp.AsyncClient

open Transition

/-- The number of a hop and of its authentication stage.  It never goes down in a call, and each
attempt that is a retry stays in its stage. -/
def stage (s : ExchangeState) : ℕ := 2 * s.redirects + if s.digestAttempted then 1 else 0

/-- Stages are numbered by the redirects and the digest stage. -/
lemma stage_eq_iff {s t : ExchangeState} :
    stage s = stage t ↔ s.redirects = t.redirects ∧ s.digestAttempted = t.digestAttempted := by
  cases hs : s.digestAttempted <;> cases ht : t.digestAttempted <;> simp [stage, hs, ht] <;> omega

/-- An exchange goes on in the same stage, by repeating an attempt that may be repeated, or in a
later one. -/
lemma stage_nextAttempt {options : ClientOptions} {s s' : ExchangeState} {a : Attempt}
    (h : nextAttempt options s a = some s') :
    (retries s a = true ∧ s'.request = s.request ∧ s'.attempt = s.attempt + 1 ∧ stage s' = stage s) ∨
      stage s < stage s' := by
  obtain ⟨hretry, -, rfl⟩ | ⟨value, hdigest, -, rfl⟩ | ⟨status, nextUrl, -, rfl⟩ :=
    attemptStep_again (attemptStep_of_nextAttempt h)
  · exact Or.inl ⟨hretry, rfl, rfl, rfl⟩
  · refine Or.inr ?_
    simp [stage, authenticated, enter, hdigest]
  · refine Or.inr ?_
    simp only [stage, redirected, enter, Bool.false_eq_true, if_false]
    split_ifs <;> omega

/-- Every attempt of a run uses up one of those that were left. -/
lemma length_add_attemptsLeft {options : ClientOptions} {s t : ExchangeState}
    {trace : List (ExchangeState × Attempt)} (h : Run (nextAttempt options) s trace t) :
    trace.length + attemptsLeft options t ≤ attemptsLeft options s := by
  induction h with
  | start => simp
  | @step trace t u a _ hnext ih =>
    have hless := attemptsLeft_lt (attemptStep_of_nextAttempt hnext)
    rw [List.length_append, List.length_singleton]
    omega

/-- An attempt is handed over at most once to be written. -/
lemma length_sent_le (options : ClientOptions) (s : ExchangeState) (a : Attempt) :
    (sent options s a).length ≤ 1 := by
  unfold sent
  split <;> simp

/-- At most as many requests are written as there are attempts. -/
lemma length_flatMap_sent_le (options : ClientOptions) (history : List (ExchangeState × Attempt)) :
    (history.flatMap fun v => sent options v.1 v.2).length ≤ history.length := by
  induction history with
  | nil => rfl
  | cons v history ih =>
    have hv := length_sent_le options v.1 v.2
    rw [List.flatMap_cons, List.length_append, List.length_cons]
    omega

/-- A failure after the head of the response ends the exchange. -/
lemma nextAttempt_of_started {options : ClientOptions} (s : ExchangeState) {a : Attempt}
    {e : ErrorInfo} (h : a.outcome = .readFailed e true) : nextAttempt options s a = none := by
  unfold nextAttempt attemptStep
  rw [h]
  simp only [Bool.not_true, Bool.false_and, Bool.false_eq_true, if_false]
  split_ifs <;> rfl

/-- From an attempt on, the stages are later ones, or the request is still the same. -/
lemma stage_from {options : ClientOptions} {s t : ExchangeState}
    {trace : List (ExchangeState × Attempt)} (h : Run (nextAttempt options) s trace t) (a : Attempt)
    {i j : ℕ} {u v : ExchangeState × Attempt} (hu : (trace ++ [(t, a)])[i]? = some u)
    (hv : (trace ++ [(t, a)])[j]? = some v) (hij : i ≤ j) :
    stage u.1 < stage v.1 ∨ stage u.1 = stage v.1 ∧ v.1.request = u.1.request := by
  refine h.invariant_from
    (I := fun s => stage u.1 < stage s ∨ stage u.1 = stage s ∧ s.request = u.1.request)
    ?_ a hu hv hij (Or.inr ⟨rfl, rfl⟩)
  intro s b s' hs hnext
  rcases stage_nextAttempt hnext with ⟨-, hrequest, -, hstage⟩ | hlater
  · rw [hstage, hrequest]
    exact hs
  · rcases hs with hs | ⟨hs, -⟩
    · exact Or.inl (hs.trans hlater)
    · exact Or.inl (hs ▸ hlater)

/-- An attempt that is followed by another one of its stage may be repeated. -/
lemma retries_of_stage_eq {options : ClientOptions} {s t : ExchangeState}
    {trace : List (ExchangeState × Attempt)} (h : Run (nextAttempt options) s trace t) (a : Attempt)
    {i j : ℕ} {u v : ExchangeState × Attempt} (hu : (trace ++ [(t, a)])[i]? = some u)
    (hv : (trace ++ [(t, a)])[j]? = some v) (hij : i < j) (hstage : stage u.1 = stage v.1) :
    retries u.1 u.2 = true := by
  have hlength : i + 1 < (trace ++ [(t, a)]).length := by
    have := (List.getElem?_eq_some_iff.mp hv).1
    omega
  have hw := List.getElem?_eq_getElem hlength
  have hlater := stage_from h a hw hv hij
  rcases stage_nextAttempt (h.next_of_getElem? a hu hw) with ⟨hretry, -⟩ | hless
  · exact hretry
  · omega

/-- What holds of the attempts of a call: `limited` bounds the requests that are written, `once`
says which of them are not repeated within a stage of a hop, `final` which failures end the call,
and `returns` that the call returns what the last attempt leads to. -/
structure SafelyResent (options : ClientOptions) (result : Result Response)
    (history : List (ExchangeState × Attempt)) : Prop where
  limited : (history.flatMap fun v => sent options v.1 v.2).length ≤ 4 * (options.maxRedirects + 1)
  once : ∀ (i j : ℕ) (u v : ExchangeState × Attempt), history[i]? = some u → history[j]? = some v →
    u.1.redirects = v.1.redirects → u.1.digestAttempted = v.1.digestAttempted →
    (idempotentMethod u.1.request.method = false ∨ u.1.request.bodyStream.isSome = true) → i = j
  final : ∀ (i : ℕ) (u : ExchangeState × Attempt) (e : ErrorInfo), history[i]? = some u →
    u.2.outcome = .readFailed e true → i + 1 = history.length
  returns : ∀ v ∈ history.getLast?, attemptStep options v.1 v.2 = .leave result

/-- Whatever the network does, a call writes a bounded number of requests, repeats only those that
may be repeated, and returns. -/
theorem requests_safely_resent (options : ClientOptions) (base : Result ParsedUrl) (r : Request)
    (attempts : ℕ → Attempt) :
    SafelyResent options (request options base r attempts).1
      (request options base r attempts).2 := by
  obtain hnone | ⟨url, target, hrequest⟩ := request_history options base r attempts
  · rw [hnone]
    exact ⟨Nat.zero_le _, by simp, by simp, by simp⟩
  rw [hrequest]
  obtain ⟨trace, t, hrun, hhistory, hreturns⟩ := exchange_history options attempts
    (enter options url { r with target := target } 0 false true)
  rw [hhistory]
  -- Requests of one stage are the same, and only the last one may be one that is not repeated.
  have hless : ∀ (i j : ℕ) (u v : ExchangeState × Attempt),
      (trace ++ [(t, attempts trace.length)])[i]? = some u →
      (trace ++ [(t, attempts trace.length)])[j]? = some v → stage u.1 = stage v.1 → i < j →
      u.1.request = v.1.request ∧ idempotentMethod u.1.request.method = true ∧
        u.1.request.bodyStream.isSome = false := by
    intro i j u v hu hv hstage hij
    have hretry := retries_of_stage_eq hrun _ hu hv hij hstage
    simp only [retries, Bool.and_eq_true, Option.isNone_iff_eq_none] at hretry
    refine ⟨?_, hretry.1.2, by rw [hretry.2]; rfl⟩
    rcases stage_from hrun _ hu hv hij.le with h | ⟨-, h⟩
    · omega
    · exact h.symm
  constructor
  · have hattempts := length_add_attemptsLeft hrun
    have hwritten := length_flatMap_sent_le options (trace ++ [(t, attempts trace.length)])
    rw [List.length_append, List.length_singleton] at hwritten
    simp only [attemptsLeft, enter, Bool.false_eq_true, if_false] at hattempts
    omega
  · intro i j u v hu hv hredirects hdigest hunsafe
    have hstage := stage_eq_iff.mpr ⟨hredirects, hdigest⟩
    rcases lt_trichotomy i j with hij | hij | hij
    · obtain ⟨-, hmethod, hstream⟩ := hless i j u v hu hv hstage hij
      rw [hmethod, hstream] at hunsafe
      simp at hunsafe
    · exact hij
    · obtain ⟨hsame, hmethod, hstream⟩ := hless j i v u hv hu hstage.symm hij
      rw [← hsame, hmethod, hstream] at hunsafe
      simp at hunsafe
  · intro i u e hu houtcome
    by_contra hlast
    have hlength : i + 1 < (trace ++ [(t, attempts trace.length)]).length := by
      have := (List.getElem?_eq_some_iff.mp hu).1
      omega
    have hnext := hrun.next_of_getElem? _ hu (List.getElem?_eq_getElem hlength)
    rw [nextAttempt_of_started u.1 houtcome] at hnext
    cases hnext
  · intro v hv
    rw [List.getLast?_concat, Option.mem_some_iff] at hv
    rw [← hv]
    exact hreturns

end Chhttp.AsyncClient
