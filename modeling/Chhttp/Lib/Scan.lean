import Mathlib

/-!
# Scanning a list with a fallible accumulator

A fallible left fold is understood once its accumulator is *described* by the list scanned so
far: `Scan.Describes f Ok state` says that a step from `state xs` succeeds exactly when the longer
list is still acceptable, and that it then leads to the state of the longer list.  The closed form
of the whole fold follows (`Describes.foldlM_eq_ok`).

The other lemmas turn the success of a monadic map or fold into statements about lists.
-/

namespace Scan

variable {σ α β ε : Type*}

/-- The accumulator of `f` is the function `state` of the elements scanned so far, and `f` fails
exactly where `Ok` stops to hold. -/
structure Describes (f : σ → α → Except ε σ) (Ok : List α → Prop) (state : List α → σ) :
    Prop where
  step : ∀ xs a s, Ok xs → (f (state xs) a = .ok s ↔ Ok (xs ++ [a]) ∧ s = state (xs ++ [a]))
  closed : ∀ xs a, Ok (xs ++ [a]) → Ok xs

namespace Describes

variable {f : σ → α → Except ε σ} {Ok : List α → Prop} {state : List α → σ}

/-- The prefixes of an acceptable list are acceptable. -/
lemma closed_append (h : Describes f Ok state) {xs ys : List α} (hok : Ok (xs ++ ys)) : Ok xs := by
  induction ys using List.reverseRecOn with
  | nil => simpa using hok
  | append_singleton ys a ih =>
    rw [← List.append_assoc] at hok
    exact ih (h.closed _ a hok)

/-- The fold succeeds exactly on acceptable lists, and leads to the state of the list.  `Describes`
says it of one element more, and this theorem of any number of them. -/
theorem foldlM_eq_ok (h : Describes f Ok state) {xs ys : List α} {s : σ} (hx : Ok xs) :
    ys.foldlM f (state xs) = .ok s ↔ Ok (xs ++ ys) ∧ s = state (xs ++ ys) := by
  induction ys generalizing xs with
  | nil =>
    rw [List.append_nil, List.foldlM_nil]
    constructor
    · intro hs
      cases hs
      exact ⟨hx, rfl⟩
    · rintro ⟨-, rfl⟩
      rfl
  | cons a ys ih =>
    rw [List.foldlM_cons, List.append_cons]
    cases hstep : f (state xs) a with
    | error e =>
      constructor
      · intro hs
        cases hs
      · rintro ⟨hok, -⟩
        have hok' := (h.step xs a _ hx).mpr ⟨h.closed_append hok, rfl⟩
        rw [hstep] at hok'
        cases hok'
    | ok s' =>
      obtain ⟨hok, rfl⟩ := (h.step xs a s' hx).mp hstep
      exact ih hok

end Describes

section

universe u

variable {σ β : Type u} {α ε : Type*}

/-- A sequence of two computations succeeds when both do. -/
theorem bind_eq_ok {x : Except ε σ} {f : σ → Except ε β} {b : β} :
    x >>= f = .ok b ↔ ∃ a, x = .ok a ∧ f a = .ok b := by
  cases x with
  | error e =>
    constructor
    · intro h
      cases h
    · rintro ⟨a, ha, -⟩
      cases ha
  | ok a =>
    constructor
    · intro h
      exact ⟨a, rfl, h⟩
    · rintro ⟨a', ha, hf⟩
      cases ha
      exact hf

/-- A fold whose steps first parse an element succeeds exactly when all elements parse and the
fold over what they parse to succeeds. -/
theorem foldlM_bind_eq_ok {parse : α → Except ε β} {f : σ → β → Except ε σ} {xs : List α}
    {s t : σ} :
    xs.foldlM (fun s a => parse a >>= f s) s = .ok t ↔
      ∃ ys, List.Forall₂ (fun a b => parse a = .ok b) xs ys ∧ ys.foldlM f s = .ok t := by
  induction xs generalizing s with
  | nil => simp
  | cons a xs ih =>
    simp only [List.foldlM_cons, bind_eq_ok, ih]
    constructor
    · rintro ⟨s', ⟨b, hb, hf⟩, ys, hys, hfold⟩
      refine ⟨b :: ys, .cons hb hys, ?_⟩
      rw [List.foldlM_cons, bind_eq_ok]
      exact ⟨s', hf, hfold⟩
    · rintro ⟨_, hys, hfold⟩
      cases hys with
      | cons hb hys =>
        rw [List.foldlM_cons, bind_eq_ok] at hfold
        obtain ⟨s', hf, hfold⟩ := hfold
        exact ⟨s', ⟨_, hb, hf⟩, _, hys, hfold⟩

end

end Scan
