import Mathlib

/-!
# Positional numerals

`Numeral.value b ds` reads a list of digits, most significant first, in base `b`, and
`Numeral.digits b n` writes a number; zero is written with one digit.  Writing and reading back is
the identity (`value_digits`).
-/

namespace Numeral

/-- The number a list of digits denotes, most significant digit first. -/
def value (b : ℕ) (ds : List ℕ) : ℕ :=
  ds.foldl (fun acc d => acc * b + d) 0

/-- The digits of a number, most significant first; zero has one digit. -/
def digits (b n : ℕ) : List ℕ :=
  if n = 0 then [0] else (Nat.digits b n).reverse

/-- One more digit at the end. -/
theorem value_append_singleton (b : ℕ) (ds : List ℕ) (d : ℕ) :
    value b (ds ++ [d]) = value b ds * b + d := by
  simp [value]

/-- Reading most significant first is reading the reversed list least significant first.  Mathlib's
numerals are least significant first; its lemmas apply through this equation. -/
theorem value_eq_ofDigits (b : ℕ) (ds : List ℕ) : value b ds = Nat.ofDigits b ds.reverse := by
  induction ds using List.reverseRecOn with
  | nil => rfl
  | append_singleton ds d ih =>
    rw [value_append_singleton, ih, List.reverse_append, List.reverse_singleton,
      List.singleton_append, Nat.ofDigits_cons]
    ring

/-- Reading a written number gives it back.  The other direction needs that there are no leading
zeros. -/
theorem value_digits (b n : ℕ) : value b (digits b n) = n := by
  unfold digits
  split_ifs with h
  · simp [value, h]
  · rw [value_eq_ofDigits, List.reverse_reverse, Nat.ofDigits_digits]

/-- The digits of a number are below the base. -/
theorem digits_lt {b n d : ℕ} (hb : 1 < b) (h : d ∈ digits b n) : d < b := by
  unfold digits at h
  split_ifs at h with hn
  · rw [List.mem_singleton] at h
    omega
  · exact Nat.digits_lt_base hb (List.mem_reverse.mp h)

/-- A written number has a digit. -/
theorem digits_ne_nil (b n : ℕ) : digits b n ≠ [] := by
  unfold digits
  split_ifs with h
  · simp
  · simpa [Nat.digits_ne_nil_iff_ne_zero] using h

end Numeral
