import Mathlib

/-!
# Loops with a decreasing measure

An imperative loop is one *body*, a function that either asks for another iteration with a new
state or leaves the loop with a result.  `Loop.run` iterates a body whose measure decreases on
every repetition.  It is structurally recursive in the measure, so concrete runs evaluate, and
`run_eq` is the unfolding equation that the proofs use.

`run_induct` is the invariant rule: a relation between states and results that holds at every
exit and is carried backwards over one iteration holds of the whole run.
-/

namespace Loop

variable {σ α : Type*}

/-- One iteration either repeats with a new state or leaves with a result.  This is the body of a
`while (true)` of the source: `again` is the end of the body or a `continue`, `leave` a `return` or
a `break`. -/
inductive Next (σ α : Type*) where
  | again (s : σ)
  | leave (a : α)

/-- The measure goes down whenever the body asks for another iteration.  It is proved once for each
body and makes the run of the loop a total function. -/
def Decreases (body : σ → Next σ α) (measure : σ → ℕ) : Prop :=
  ∀ s s', body s = .again s' → measure s' < measure s

variable {body : σ → Next σ α} {measure : σ → ℕ}

/-- At most `n` iterations, which suffice because the measure is below `n`. -/
def go (body : σ → Next σ α) (measure : σ → ℕ) (dec : Decreases body measure) :
    (n : ℕ) → (s : σ) → measure s < n → α
  | 0, _, hn => absurd hn (Nat.not_lt_zero _)
  | n + 1, s, hn =>
    match hb : body s with
    | .again s' => go body measure dec n s' (by have := dec s s' hb; omega)
    | .leave a => a

/-- Iterate the body until it leaves. -/
def run (body : σ → Next σ α) (measure : σ → ℕ) (dec : Decreases body measure) (s : σ) : α :=
  go body measure dec (measure s + 1) s (Nat.lt_succ_self _)

/-- A body that leaves ends the iteration. -/
lemma go_of_leave (dec : Decreases body measure) {n : ℕ} {s : σ} (hn : measure s < n) {a : α}
    (hb : body s = .leave a) : go body measure dec n s hn = a := by
  cases n with
  | zero => omega
  | succ n =>
    unfold go
    split
    · rename_i s' hs'
      rw [hb] at hs'
      cases hs'
    · rename_i a' ha'
      rw [hb] at ha'
      cases ha'
      rfl

/-- A body that repeats passes its new state on. -/
lemma go_of_again (dec : Decreases body measure) {n : ℕ} {s s' : σ} (hn : measure s < n + 1)
    (hb : body s = .again s') :
    go body measure dec (n + 1) s hn =
      go body measure dec n s' (by have := dec s s' hb; omega) := by
  rw [go]
  split
  · rename_i t ht
    rw [hb] at ht
    cases ht
    rfl
  · rename_i a ha
    rw [hb] at ha
    cases ha

/-- The bound on the iterations does not matter. -/
lemma go_congr (dec : Decreases body measure) :
    ∀ (n m : ℕ) (s : σ) (hn : measure s < n) (hm : measure s < m),
      go body measure dec n s hn = go body measure dec m s hm
  | 0, _, _, hn, _ => absurd hn (Nat.not_lt_zero _)
  | _, 0, _, _, hm => absurd hm (Nat.not_lt_zero _)
  | n + 1, m + 1, s, hn, hm => by
    cases hb : body s with
    | leave a => rw [go_of_leave dec hn hb, go_of_leave dec hm hb]
    | again s' =>
      rw [go_of_again dec hn hb, go_of_again dec hm hb]
      exact go_congr dec n m s' _ _

/-- Leaving at once. -/
theorem run_of_leave (dec : Decreases body measure) {s : σ} {a : α} (hb : body s = .leave a) :
    run body measure dec s = a :=
  go_of_leave dec _ hb

/-- One iteration, then the rest of the run. -/
theorem run_of_again (dec : Decreases body measure) {s s' : σ} (hb : body s = .again s') :
    run body measure dec s = run body measure dec s' := by
  rw [run, go_of_again dec _ hb]
  exact go_congr dec _ _ s' _ _

/-- The unfolding equation of a loop.  It is stated once here, so that no other proof unfolds the
recursion. -/
theorem run_eq (dec : Decreases body measure) (s : σ) :
    run body measure dec s =
      match body s with
      | .again s' => run body measure dec s'
      | .leave a => a := by
  cases hb : body s with
  | leave a => exact run_of_leave dec hb
  | again s' => exact run_of_again dec hb

/-- The invariant rule.  `P s a` relates a state of the loop to the result it leads to. -/
theorem run_induct (dec : Decreases body measure) {P : σ → α → Prop}
    (leave : ∀ s a, body s = .leave a → P s a)
    (again : ∀ s s' a, body s = .again s' → P s' a → P s a) (s : σ) :
    P s (run body measure dec s) := by
  induction hm : measure s using Nat.strong_induction_on generalizing s with
  | _ m ih =>
    subst hm
    cases hb : body s with
    | leave a =>
      rw [run_of_leave dec hb]
      exact leave s a hb
    | again s' =>
      rw [run_of_again dec hb]
      exact again s s' _ hb (ih _ (dec s s' hb) s' rfl)

end Loop
