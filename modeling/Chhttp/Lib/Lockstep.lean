import Chhttp.Lib.Loop

/-!
# Loops in lockstep

When every iteration of one loop is the image of an iteration of another one, under a map of the
states and a map of the results, its result is the image of the other's result (`run_map`).  The
iterations need to correspond only as far as what they lead to satisfies a condition, which the
result hands back to the iterations before it.  The measures of the two loops need not be related.
-/

namespace Loop

variable {σ τ α β : Type*}

/-- The image of an iteration.  States are mapped by one function, and results by another. -/
def Next.map (f : σ → τ) (g : α → β) : Next σ α → Next τ β
  | .again s => .again (f s)
  | .leave a => .leave (g a)

/-- What an iteration leads to satisfies a condition. -/
def Next.Holds (p : σ → Prop) (q : α → Prop) : Next σ α → Prop
  | .again s => p s
  | .leave a => q a

/-- A loop in lockstep with another one.  The body of the first loop, seen through `f` and `g`, is
the body of the second one, as long as the states satisfy `p` and the results `q`; so the runs
agree. -/
theorem run_map {body : σ → Next σ α} {measure : σ → ℕ} (dec : Decreases body measure)
    {body' : τ → Next τ β} {measure' : τ → ℕ} (dec' : Decreases body' measure') {f : σ → τ}
    {g : α → β} {p : σ → Prop} {q : α → Prop}
    (h : ∀ s, (body s).Holds p q → p s ∧ body' (f s) = (body s).map f g) (s : σ)
    (hq : q (run body measure dec s)) :
    p s ∧ run body' measure' dec' (f s) = g (run body measure dec s) := by
  refine run_induct dec (P := fun s a => q a → p s ∧ run body' measure' dec' (f s) = g a) ?_ ?_ s hq
  · intro s a hb hq
    obtain ⟨hp, hstep⟩ := h s (by rw [hb]; exact hq)
    have hleave : body' (f s) = .leave (g a) := by rw [hstep, hb, Next.map]
    exact ⟨hp, run_of_leave dec' hleave⟩
  · intro s s' a hb hrun hq
    obtain ⟨hp', hrun'⟩ := hrun hq
    obtain ⟨hp, hstep⟩ := h s (by rw [hb]; exact hp')
    have hagain : body' (f s) = .again (f s') := by rw [hstep, hb, Next.map]
    exact ⟨hp, by rw [run_of_again dec' hagain, hrun']⟩

end Loop
