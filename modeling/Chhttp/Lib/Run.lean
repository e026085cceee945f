import Mathlib

/-!
# Runs of a transition system

A system is a partial function `next` that takes a state and an action to the next state; an action
that is not possible has no next state.  `Run next s trace t` says that the system gets from `s` to
`t`, and `trace` lists the states it left, with the action taken in each.

`Run.invariant` is the invariant rule, and `Run.forall_mem` collects what an invariant implies for
all steps of a run.
-/

namespace Transition

variable {σ α : Type*}

/-- The runs of a system, with the states and actions they pass through.  A system is a partial
function of state and action: an action that is not enabled has no next state.  The trace lists each
action with the state in which it was taken. -/
inductive Run (next : σ → α → Option σ) (s : σ) : List (σ × α) → σ → Prop where
  | start : Run next s [] s
  | step {trace : List (σ × α)} {t u : σ} {a : α} (h : Run next s trace t)
      (hnext : next t a = some u) : Run next s (trace ++ [(t, a)]) u

variable {next : σ → α → Option σ} {s t : σ} {trace : List (σ × α)}

/-- A property that every step preserves holds along a run.  This is the one induction over runs;
the results about a system prove a step lemma and use it here. -/
theorem Run.invariant {I : σ → Prop} (hstep : ∀ s a t, I s → next s a = some t → I t)
    (h : Run next s trace t) (hs : I s) : I t := by
  induction h with
  | start => exact hs
  | step _ hnext ih => exact hstep _ _ _ ih hnext

/-- What an invariant implies for a single step holds for all steps of a run.  It turns an invariant
of the states into a property of the steps, for statements about what happened on the way. -/
theorem Run.forall_mem {I : σ → Prop} {P : σ → α → σ → Prop}
    (hstep : ∀ s a t, I s → next s a = some t → I t)
    (hP : ∀ s a t, I s → next s a = some t → P s a t) (h : Run next s trace t) (hs : I s) :
    ∀ v ∈ trace, ∃ w, next v.1 v.2 = some w ∧ P v.1 v.2 w := by
  induction h with
  | start => simp
  | @step trace t u a hrun hnext ih =>
    intro v hv
    rcases List.mem_append.mp hv with hv | hv
    · exact ih v hv
    · rw [List.mem_singleton] at hv
      subst hv
      exact ⟨u, hnext, hP t a u (hrun.invariant hstep hs) hnext⟩

/-- A run passes through each of its entries.  The part before the entry and the part behind it are
runs themselves, so that facts about the end of a run hold at the entry. -/
theorem Run.split (h : Run next s trace t) {u : σ} {a : α} (hmem : (u, a) ∈ trace) :
    ∃ before after v, Run next s before u ∧ next u a = some v ∧ Run next v after t := by
  induction h with
  | start => cases hmem
  | @step trace t w b hrun hnext ih =>
    rcases List.mem_append.mp hmem with hmem | hmem
    · obtain ⟨before, after, v, hbefore, hv, hafter⟩ := ih hmem
      exact ⟨before, _, v, hbefore, hv, hafter.step hnext⟩
    · rw [List.mem_singleton] at hmem
      cases hmem
      exact ⟨trace, [], w, hrun, hnext, Run.start⟩

/-- A run, and one more action in its last state, up to any of its entries. -/
theorem Run.take (h : Run next s trace t) (a : α) {i : ℕ} {v : σ × α}
    (hv : (trace ++ [(t, a)])[i]? = some v) : Run next s ((trace ++ [(t, a)]).take i) v.1 := by
  induction h generalizing a v with
  | start =>
    have hi := (List.getElem?_eq_some_iff.mp hv).1
    obtain rfl : i = 0 := by simpa using hi
    cases hv
    exact Run.start
  | @step trace t w b hrun hnext ih =>
    by_cases hlast : i = (trace ++ [(t, b)]).length
    · rw [hlast, List.getElem?_concat_length, Option.some.injEq] at hv
      rw [hlast, List.take_left, ← hv]
      exact hrun.step hnext
    · have hi := (List.getElem?_eq_some_iff.mp hv).1
      rw [List.length_append, List.length_singleton] at hi
      rw [List.getElem?_append_left (by omega)] at hv
      rw [List.take_append_of_le_length (by omega)]
      exact ih b hv

/-- Along a run, and with one more action in its last state, each state is the next one of the state
before it. -/
theorem Run.next_of_getElem? (h : Run next s trace t) (a : α) {i : ℕ} {u v : σ × α}
    (hu : (trace ++ [(t, a)])[i]? = some u) (hv : (trace ++ [(t, a)])[i + 1]? = some v) :
    next u.1 u.2 = some v.1 := by
  have hrun := h.take a hv
  rw [List.take_add_one, hu, Option.toList_some] at hrun
  generalize hentries : (trace ++ [(t, a)]).take i ++ [u] = entries at hrun
  cases hrun with
  | start => simp at hentries
  | step _ hnext =>
    obtain ⟨-, hlast⟩ := List.append_inj' hentries rfl
    rw [List.singleton_inj] at hlast
    rw [hlast]
    exact hnext

/-- A property that every step preserves holds from one point of a run on. -/
theorem Run.invariant_from {I : σ → Prop} (hstep : ∀ s a t, I s → next s a = some t → I t)
    (h : Run next s trace t) (a : α) {i j : ℕ} {u v : σ × α}
    (hu : (trace ++ [(t, a)])[i]? = some u) (hv : (trace ++ [(t, a)])[j]? = some v) (hij : i ≤ j)
    (hI : I u.1) : I v.1 := by
  induction hij generalizing v with
  | refl =>
    rw [hu, Option.some.injEq] at hv
    exact hv ▸ hI
  | @step j _ ih =>
    have hj : j < (trace ++ [(t, a)]).length := by
      have := (List.getElem?_eq_some_iff.mp hv).1
      omega
    have hw := List.getElem?_eq_getElem hj
    exact hstep _ _ _ (ih hw) (h.next_of_getElem? a hw hv)

/-- The system performs a list of actions. -/
def perform (next : σ → α → Option σ) : σ → List α → Option σ
  | s, [] => some s
  | s, a :: as => (next s a).bind fun t => perform next t as

/-- One list of actions after another. -/
lemma perform_append (next : σ → α → Option σ) (s : σ) (actions more : List α) :
    perform next s (actions ++ more) =
      (perform next s actions).bind fun t => perform next t more := by
  induction actions generalizing s with
  | nil => rfl
  | cons a actions ih =>
    rw [List.cons_append, perform, perform, Option.bind_assoc]
    exact congrArg _ (funext fun t => ih t)

/-- A run goes on with the actions that the system performs, and its trace lists them. -/
theorem Run.extend {actions : List α} {u : σ} (h : Run next s trace t)
    (hperform : perform next t actions = some u) :
    ∃ trace', Run next s trace' u ∧ trace'.map Prod.snd = trace.map Prod.snd ++ actions := by
  induction actions generalizing t trace with
  | nil =>
    cases hperform
    exact ⟨trace, h, (List.append_nil _).symm⟩
  | cons a actions ih =>
    obtain ⟨v, hv, hrest⟩ := Option.bind_eq_some_iff.mp hperform
    obtain ⟨trace', hrun, hactions⟩ := ih (h.step hv) hrest
    refine ⟨trace', hrun, hactions.trans ?_⟩
    rw [List.map_append, List.append_assoc]
    rfl

/-- Performed actions are those of a run. -/
theorem exists_run_of_perform {actions : List α} {u : σ} (h : perform next s actions = some u) :
    ∃ trace, Run next s trace u ∧ trace.map Prod.snd = actions :=
  Run.start.extend h

/-- Performed actions are a run. -/
theorem run_of_perform {actions : List α} {u : σ} (h : perform next s actions = some u) :
    ∃ trace, Run next s trace u :=
  (exists_run_of_perform h).imp fun _ hrun => hrun.1

end Transition
