import Mathlib

/-!
# Tallies over the members of a list

`tally f xs` adds up what each member of a list contributes.  A system of processes is a list of
their local states; the tally then counts the resources or the tokens that they hold together.

When one process moves on, `tally_set` says how the tally changes; `tally_set_of_eq` says that it
does not when the process holds what it held.
-/

/-- The sum of the contributions of the members.  Counting members, adding up sizes and counting
references are tallies with different contributions. -/
def tally {α : Type*} (f : α → ℕ) (xs : List α) : ℕ := (xs.map f).sum

namespace Tally

variable {α : Type*} {f : α → ℕ} {xs : List α} {i : ℕ} {x y : α}

@[simp] theorem tally_nil (f : α → ℕ) : tally f [] = 0 := rfl

@[simp] theorem tally_cons (f : α → ℕ) (x : α) (xs : List α) :
    tally f (x :: xs) = f x + tally f xs := by
  simp [tally]

@[simp] theorem tally_append (f : α → ℕ) (xs ys : List α) :
    tally f (xs ++ ys) = tally f xs + tally f ys := by
  simp [tally]

/-- A sum of weights. -/
theorem tally_add (f g : α → ℕ) (xs : List α) :
    tally (fun x => f x + g x) xs = tally f xs + tally g xs := by
  induction xs with
  | nil => rfl
  | cons a xs ih =>
    rw [tally_cons, tally_cons, tally_cons, ih]
    omega

/-- One member is replaced: its contribution goes, and that of the new one comes. -/
theorem tally_set (f : α → ℕ) (h : xs[i]? = some x) (y : α) :
    tally f (xs.set i y) + f x = tally f xs + f y := by
  induction xs generalizing i with
  | nil => cases h
  | cons a xs ih =>
    cases i with
    | zero =>
      rw [List.getElem?_cons_zero, Option.some.injEq] at h
      rw [List.set_cons_zero, tally_cons, tally_cons, h]
      omega
    | succ i =>
      rw [List.getElem?_cons_succ] at h
      have ih := ih h
      rw [List.set_cons_succ, tally_cons, tally_cons]
      omega

/-- A member that contributes what it did leaves the tally as it was. -/
theorem tally_set_of_eq (h : xs[i]? = some x) (hf : f y = f x) :
    tally f (xs.set i y) = tally f xs := by
  have := tally_set f h y
  omega

/-- Every member contributes to the tally. -/
theorem le_tally (h : xs[i]? = some x) : f x ≤ tally f xs := by
  induction xs generalizing i with
  | nil => cases h
  | cons a xs ih =>
    rw [tally_cons]
    cases i with
    | zero =>
      rw [List.getElem?_cons_zero, Option.some.injEq] at h
      rw [h]
      omega
    | succ i =>
      rw [List.getElem?_cons_succ] at h
      have := ih h
      omega

/-- Larger contributions make a larger tally. -/
theorem tally_le_tally {g : α → ℕ} (h : ∀ x, f x ≤ g x) (xs : List α) :
    tally f xs ≤ tally g xs := by
  induction xs with
  | nil => exact Nat.le_refl _
  | cons a xs ih =>
    rw [tally_cons, tally_cons]
    exact Nat.add_le_add (h a) ih

/-- Members that all contribute the same. -/
theorem tally_replicate (f : α → ℕ) (n : ℕ) (x : α) : tally f (List.replicate n x) = n * f x := by
  induction n with
  | zero => rw [List.replicate_zero, tally_nil, Nat.zero_mul]
  | succ n ih => rw [List.replicate_succ, tally_cons, ih, Nat.succ_mul, Nat.add_comm]

/-- A positive tally has a member that contributes. -/
theorem exists_of_tally_pos (h : 0 < tally f xs) : ∃ (i : ℕ) (x : α), xs[i]? = some x ∧ 0 < f x := by
  induction xs with
  | nil => simp at h
  | cons a xs ih =>
    by_cases ha : 0 < f a
    · exact ⟨0, a, rfl, ha⟩
    · rw [tally_cons] at h
      obtain ⟨i, x, hx, hpos⟩ := ih (by omega)
      exact ⟨i + 1, x, hx, hpos⟩

/-- Two members that contribute together exceed a tally of one.  So if at most one member may
contribute, then two that do are the same member. -/
theorem add_le_tally {j : ℕ} (hi : xs[i]? = some x) (hj : xs[j]? = some y) (hne : i ≠ j) :
    f x + f y ≤ tally f xs := by
  induction xs generalizing i j with
  | nil => cases hi
  | cons a xs ih =>
    rw [tally_cons]
    cases i with
    | zero =>
      cases j with
      | zero => exact absurd rfl hne
      | succ j =>
        rw [List.getElem?_cons_zero, Option.some.injEq] at hi
        rw [List.getElem?_cons_succ] at hj
        have := le_tally (f := f) hj
        rw [hi]
        omega
    | succ i =>
      rw [List.getElem?_cons_succ] at hi
      cases j with
      | zero =>
        rw [List.getElem?_cons_zero, Option.some.injEq] at hj
        have := le_tally (f := f) hi
        rw [hj]
        omega
      | succ j =>
        rw [List.getElem?_cons_succ] at hj
        have := ih hi hj (by omega)
        omega

/-- A tally of zeros and ones is a count. -/
theorem tally_eq_countP (p : α → Bool) (xs : List α) :
    tally (fun x => if p x then 1 else 0) xs = xs.countP p := by
  induction xs with
  | nil => rfl
  | cons a xs ih =>
    rw [tally_cons, ih, List.countP_cons]
    omega

/-- One member is replaced, and with it what it holds.  Both sides are the contents of all members,
with the old content on one side and the new one on the other; the order is not said, for the
members of a set have none. -/
theorem perm_filterMap_set {β : Type*} (f : α → Option β) (h : xs[i]? = some x) (y : α) :
    ((xs.set i y).filterMap f ++ (f x).toList).Perm (xs.filterMap f ++ (f y).toList) := by
  induction xs generalizing i with
  | nil => cases h
  | cons a xs ih =>
    cases i with
    | zero =>
      rw [List.getElem?_cons_zero, Option.some.injEq] at h
      subst h
      have hcons : ∀ b : α, (b :: xs).filterMap f = (f b).toList ++ xs.filterMap f := by
        intro b
        rw [List.filterMap_cons]
        cases f b <;> rfl
      have hswap : ((f a).toList ++ xs.filterMap f ++ (f y).toList).Perm
          (xs.filterMap f ++ (f a).toList ++ (f y).toList) :=
        List.perm_append_comm.append_right _
      rw [List.set_cons_zero, hcons, hcons, List.append_assoc]
      exact List.perm_append_comm.trans hswap.symm
    | succ i =>
      rw [List.getElem?_cons_succ] at h
      rw [List.set_cons_succ, List.filterMap_cons, List.filterMap_cons]
      cases f a with
      | none => exact ih h
      | some b => exact (ih h).cons b

end Tally
