import Mathlib

/-!
# First occurrences in lists

`ListSearch.find pat xs` is the offset of the first occurrence of the word `pat` in `xs`, and
`ListSearch.findFrom` starts the search at a given offset.  The two facts that incremental
readers rest on are here: an occurrence that was found stays the first one when the list grows
at its end (`find_append_of_some`), and when nothing was found, a later search may skip all but
the last `pat.length - 1` elements (`findFrom_append_of_none`).

`ListSearch.findLast` is the offset of the last occurrence of one element, and `trimWith` strips
a class of elements from both ends.  `ListSearch.cut` is the same search for a property of what
follows instead of a word: it cuts a list before its first suffix with the property.
-/

namespace ListSearch

variable {α : Type*}

/-- Strip the elements satisfying `p` from both ends. -/
def trimWith (p : α → Bool) (xs : List α) : List α :=
  (xs.dropWhile p).rdropWhile p

/-- What survives the stripping is part of the list. -/
theorem mem_of_mem_trimWith {p : α → Bool} {xs : List α} {x : α} (h : x ∈ trimWith p xs) :
    x ∈ xs :=
  (List.dropWhile_suffix p).subset (( List.rdropWhile_prefix p _).subset h)

/-- An element outside the class survives the stripping. -/
theorem mem_trimWith_of_not {p : α → Bool} {xs : List α} {x : α} (h : x ∈ xs)
    (hx : p x = false) : x ∈ trimWith p xs := by
  have hleft : ∀ ys : List α, x ∈ ys → x ∈ ys.dropWhile p := by
    intro ys hys
    rw [← List.takeWhile_append_dropWhile (p := p) (l := ys), List.mem_append] at hys
    rcases hys with hys | hys
    · rw [List.mem_takeWhile_imp hys] at hx
      cases hx
    · exact hys
  rw [trimWith, List.rdropWhile, List.mem_reverse]
  exact hleft _ (List.mem_reverse.mpr (hleft xs h))

/-- There is nothing to strip when the first and the last element are not of the class. -/
theorem trimWith_eq_self {p : α → Bool} {xs : List α} (hhead : ∀ x ∈ xs.head?, p x = false)
    (hlast : ∀ x ∈ xs.getLast?, p x = false) : trimWith p xs = xs := by
  have hleft : xs.dropWhile p = xs := by
    cases xs with
    | nil => rfl
    | cons x xs => exact List.dropWhile_cons_of_neg (by simp [hhead x rfl])
  rw [trimWith, hleft, List.rdropWhile_eq_self_iff]
  intro hne
  rw [hlast _ (List.getLast_mem_getLast? hne)]
  decide

/-- An element of the class at the beginning is stripped. -/
theorem trimWith_cons_of_pos {p : α → Bool} {x : α} (h : p x = true) (xs : List α) :
    trimWith p (x :: xs) = trimWith p xs := by
  rw [trimWith, trimWith, List.dropWhile_cons_of_pos h]

/-- An element of the class at the end is stripped. -/
theorem trimWith_concat_of_pos {p : α → Bool} {x : α} (h : p x = true) (xs : List α) :
    trimWith p (xs ++ [x]) = trimWith p xs := by
  rw [trimWith, trimWith, List.dropWhile_append]
  split_ifs with hempty
  · rw [List.isEmpty_iff.mp hempty, List.dropWhile_cons_of_pos h, List.dropWhile_nil]
  · rw [List.rdropWhile_concat_pos _ _ _ h]

/-- What is stripped is of the class. -/
theorem exists_trimWith (p : α → Bool) (xs : List α) :
    ∃ left right, xs = left ++ (trimWith p xs ++ right) ∧ (∀ x ∈ left, p x = true) ∧
      ∀ x ∈ right, p x = true := by
  refine ⟨xs.takeWhile p, (xs.dropWhile p).rtakeWhile p, ?_, fun x hx => List.mem_takeWhile_imp hx,
    fun x hx => List.mem_rtakeWhile_imp hx⟩
  rw [trimWith, List.rdropWhile_append_rtakeWhile, List.takeWhile_append_dropWhile]

/-- Classes that agree on a list strip it alike. -/
theorem trimWith_congr {p q : α → Bool} {xs : List α} (h : ∀ x ∈ xs, p x = q x) :
    trimWith p xs = trimWith q xs := by
  have hleft : ∀ ys : List α, (∀ y ∈ ys, p y = q y) → ys.dropWhile p = ys.dropWhile q := by
    intro ys hys
    induction ys with
    | nil => rfl
    | cons y ys ih =>
      rw [List.dropWhile_cons, List.dropWhile_cons, hys y List.mem_cons_self,
        ih fun z hz => hys z (List.mem_cons_of_mem _ hz)]
  rw [trimWith, trimWith, List.rdropWhile, List.rdropWhile, hleft xs h, hleft]
  exact fun y hy => h y ((List.dropWhile_suffix q).subset (List.mem_reverse.mp hy))

/-- A prefix of a suffix is a prefix of the suffix of any longer list. -/
lemma prefix_drop_append {pat xs ys : List α} {m : ℕ} (hm : m ≤ xs.length)
    (h : pat <+: xs.drop m) : pat <+: (xs ++ ys).drop m := by
  rw [List.drop_append_of_le_length hm]
  exact h.trans (List.prefix_append _ _)

/-- A word that fits into the first list and starts there does not see what is appended. -/
lemma prefix_drop_of_append {pat xs ys : List α} {m : ℕ} (hm : m + pat.length ≤ xs.length)
    (h : pat <+: (xs ++ ys).drop m) : pat <+: xs.drop m := by
  rw [List.drop_append_of_le_length (by omega)] at h
  exact List.prefix_of_prefix_length_le h (List.prefix_append _ _) (by simp; omega)

/-- A one-element word occurs where the element does. -/
lemma singleton_prefix_drop_iff {x : α} {xs : List α} {m : ℕ} :
    [x] <+: xs.drop m ↔ xs[m]? = some x := by
  rw [List.singleton_prefix_iff_head?_eq_some, List.head?_drop]

/-- A list, cut before its first suffix that satisfies `p`.  If no suffix has the property, not even
the empty one, there is no cut. -/
def cut (p : List α → Bool) : List α → Option (List α × List α)
  | [] => if p [] then some ([], []) else none
  | x :: xs =>
    if p (x :: xs) then some ([], x :: xs) else (cut p xs).map fun (a, b) => (x :: a, b)

/-- A list that satisfies `p` is cut before its first element. -/
lemma cut_of_pos {p : List α → Bool} {xs : List α} (h : p xs = true) : cut p xs = some ([], xs) := by
  cases xs with
  | nil => rw [cut, if_pos h]
  | cons x xs => rw [cut, if_pos h]

/-- The cut is behind a prefix in which no suffix with the property starts. -/
theorem cut_append {p : List α → Bool} {a b : List α}
    (h : ∀ m < a.length, p ((a ++ b).drop m) = false) :
    cut p (a ++ b) = (cut p b).map fun r => (a ++ r.1, r.2) := by
  induction a with
  | nil => simp
  | cons x a ih =>
    have hhead : p (x :: (a ++ b)) = false := h 0 (Nat.succ_pos _)
    have htail := ih fun m hm => h (m + 1) (Nat.succ_lt_succ hm)
    rw [List.cons_append, cut, hhead, if_neg Bool.false_ne_true, htail, Option.map_map]
    rfl

/-- What a cut is.  The list is cut before the first suffix with the property; what the property is
does not matter. -/
theorem cut_eq_some_iff {p : List α → Bool} {xs a b : List α} :
    cut p xs = some (a, b) ↔
      xs = a ++ b ∧ p b = true ∧ ∀ m < a.length, p (xs.drop m) = false := by
  constructor
  · intro h
    induction xs generalizing a with
    | nil =>
      rw [cut] at h
      split_ifs at h with hp
      cases h
      exact ⟨rfl, hp, by simp⟩
    | cons x xs ih =>
      rw [cut] at h
      split_ifs at h with hp
      · cases h
        exact ⟨rfl, hp, by simp⟩
      · obtain ⟨⟨a', b'⟩, hcut, heq⟩ := Option.map_eq_some_iff.mp h
        cases heq
        obtain ⟨rfl, hb, hmin⟩ := ih hcut
        refine ⟨rfl, hb, fun m hm => ?_⟩
        cases m with
        | zero => exact Bool.eq_false_iff.mpr hp
        | succ m => exact hmin m (by simpa using hm)
  · rintro ⟨rfl, hb, hmin⟩
    rw [cut_append hmin, cut_of_pos hb]
    simp

/-- A list cannot be cut if no suffix has the property. -/
theorem cut_eq_none_iff {p : List α → Bool} {xs : List α} :
    cut p xs = none ↔ ∀ m ≤ xs.length, p (xs.drop m) = false := by
  induction xs with
  | nil => simp [cut]
  | cons x xs ih =>
    rw [cut]
    constructor
    · intro h m hm
      split_ifs at h with hp
      rw [Option.map_eq_none_iff] at h
      cases m with
      | zero => exact Bool.eq_false_iff.mpr hp
      | succ m => exact ih.mp h m (by simpa using hm)
    · intro h
      have hhead : p (x :: xs) = false := h 0 (Nat.zero_le _)
      rw [hhead, if_neg Bool.false_ne_true, Option.map_eq_none_iff]
      exact ih.mpr fun m hm => h (m + 1) (by simpa using hm)

variable [DecidableEq α]

/-- The offset of the first occurrence of `pat` in a list. -/
def find (pat : List α) : List α → Option ℕ
  | [] => if pat.isPrefixOf [] then some 0 else none
  | x :: xs => if pat.isPrefixOf (x :: xs) then some 0 else (find pat xs).map (· + 1)

/-- The offset of the first occurrence of `pat` at or after `start`. -/
def findFrom (pat xs : List α) (start : ℕ) : Option ℕ :=
  (find pat (xs.drop start)).map (· + start)

/-- The offset of the last occurrence of `x`. -/
def findLast (x : α) (xs : List α) : Option ℕ :=
  (xs.reverse.idxOf? x).map fun n => xs.length - 1 - n

/-- The first occurrence, described by the suffixes of the list.  The position is in the list, the
word occurs there, and it occurs nowhere before. -/
theorem find_eq_some_iff {pat xs : List α} {n : ℕ} :
    find pat xs = some n ↔
      n ≤ xs.length ∧ pat <+: xs.drop n ∧ ∀ m < n, ¬ pat <+: xs.drop m := by
  induction xs generalizing n with
  | nil =>
    simp only [find, List.isPrefixOf_iff_prefix]
    split_ifs with h
    · simp only [Option.some.injEq, List.length_nil, List.drop_nil]
      constructor
      · rintro rfl; exact ⟨le_rfl, h, by omega⟩
      · rintro ⟨hn, -, -⟩; omega
    · simp [h]
  | cons x xs ih =>
    simp only [find, List.isPrefixOf_iff_prefix]
    split_ifs with h
    · simp only [Option.some.injEq]
      constructor
      · rintro rfl; exact ⟨Nat.zero_le _, by simpa using h, by omega⟩
      · rintro ⟨-, -, hmin⟩
        by_contra hn
        exact hmin 0 (by omega) (by simpa using h)
    · rw [Option.map_eq_some_iff]
      constructor
      · rintro ⟨k, hk, rfl⟩
        obtain ⟨hle, hpre, hmin⟩ := ih.mp hk
        refine ⟨by simp; omega, by simpa using hpre, ?_⟩
        intro m hm
        cases m with
        | zero => simpa using h
        | succ m => simpa using hmin m (by omega)
      · rintro ⟨hle, hpre, hmin⟩
        cases n with
        | zero => exact absurd (by simpa using hpre) h
        | succ n =>
          refine ⟨n, ih.mpr ⟨by simpa using hle, by simpa using hpre, ?_⟩, rfl⟩
          intro m hm
          simpa using hmin (m + 1) (by omega)

/-- Nothing is found exactly when no suffix starts with the word. -/
theorem find_eq_none_iff {pat xs : List α} :
    find pat xs = none ↔ ∀ m ≤ xs.length, ¬ pat <+: xs.drop m := by
  constructor
  · intro h m hm hpre
    have hex : ∃ k, k ≤ xs.length ∧ pat <+: xs.drop k := ⟨m, hm, hpre⟩
    classical
    obtain ⟨hk, hkpre⟩ := Nat.find_spec hex
    have hsome : find pat xs = some (Nat.find hex) :=
      (find_eq_some_iff).mpr ⟨hk, hkpre, fun j hj hjpre =>
        Nat.find_min hex hj ⟨by omega, hjpre⟩⟩
    rw [hsome] at h
    cases h
  · intro h
    cases hf : find pat xs with
    | none => rfl
    | some n =>
      obtain ⟨hn, hpre, -⟩ := (find_eq_some_iff).mp hf
      exact absurd hpre (h n hn)

/-- An occurrence lies inside the list. -/
theorem find_add_length_le {pat xs : List α} {n : ℕ} (h : find pat xs = some n) :
    n + pat.length ≤ xs.length := by
  obtain ⟨hn, hpre, -⟩ := (find_eq_some_iff).mp h
  have := hpre.length_le
  rw [List.length_drop] at this
  omega

/-- A later search finds an occurrence inside the list, where it started or later. -/
theorem findFrom_bounds {pat xs : List α} {start n : ℕ} (hs : start ≤ xs.length)
    (h : findFrom pat xs start = some n) : start ≤ n ∧ n + pat.length ≤ xs.length := by
  obtain ⟨k, hk, rfl⟩ := Option.map_eq_some_iff.mp h
  have := find_add_length_le hk
  rw [List.length_drop] at this
  omega

/-- A search that finds something started in the list. -/
theorem le_of_findFrom {pat xs : List α} (hpat : pat ≠ []) {start n : ℕ}
    (h : findFrom pat xs start = some n) : start ≤ xs.length := by
  by_contra hend
  rw [findFrom, List.drop_of_length_le (by omega), Option.map_eq_some_iff] at h
  obtain ⟨k, hk, -⟩ := h
  have hfit := find_add_length_le hk
  have hpos := List.length_pos_iff.mpr hpat
  rw [List.length_nil] at hfit
  omega

/-- The list splits at its first occurrence. -/
theorem eq_of_find {pat xs : List α} {n : ℕ} (h : find pat xs = some n) :
    xs = xs.take n ++ (pat ++ xs.drop (n + pat.length)) := by
  obtain ⟨-, ⟨t, ht⟩, -⟩ := (find_eq_some_iff).mp h
  have htail : xs.drop (n + pat.length) = t := by
    rw [← List.drop_drop, ← ht, List.drop_left]
  rw [htail, ht, List.take_append_drop]

/-- Appending does not move the first occurrence. -/
theorem find_append_of_some {pat xs : List α} {n : ℕ} (h : find pat xs = some n)
    (ys : List α) : find pat (xs ++ ys) = some n := by
  have hfit := find_add_length_le h
  obtain ⟨hn, hpre, hmin⟩ := (find_eq_some_iff).mp h
  refine (find_eq_some_iff).mpr ⟨by simp; omega, prefix_drop_append hn hpre, ?_⟩
  intro m hm hm'
  exact hmin m hm (prefix_drop_of_append (by omega) hm')

/-- If the word is not in `xs`, an occurrence in `xs ++ ys` reaches into `ys`. -/
theorem length_lt_of_find_append {pat xs ys : List α} {n : ℕ} (hnone : find pat xs = none)
    (h : find pat (xs ++ ys) = some n) : xs.length < n + pat.length := by
  by_contra hle
  obtain ⟨-, hpre, -⟩ := (find_eq_some_iff).mp h
  exact (find_eq_none_iff).mp hnone n (by omega) (prefix_drop_of_append (by omega) hpre)

/-- A search may start late when no occurrence starts before. -/
theorem findFrom_eq_find {pat xs : List α} {start : ℕ} (hs : start ≤ xs.length)
    (h : ∀ m < start, ¬ pat <+: xs.drop m) : findFrom pat xs start = find pat xs := by
  rw [findFrom]
  cases hf : find pat xs with
  | none =>
    rw [Option.map_eq_none_iff, find_eq_none_iff]
    intro m hm
    rw [List.drop_drop]
    rw [List.length_drop] at hm
    exact (find_eq_none_iff).mp hf (start + m) (by omega)
  | some n =>
    obtain ⟨hn, hpre, hmin⟩ := (find_eq_some_iff).mp hf
    have hsn : start ≤ n := by
      by_contra hlt
      exact h n (by omega) hpre
    refine Option.map_eq_some_iff.mpr ⟨n - start, (find_eq_some_iff).mpr ⟨?_, ?_, ?_⟩, by omega⟩
    · rw [List.length_drop]; omega
    · rw [List.drop_drop, Nat.add_sub_cancel' hsn]; exact hpre
    · intro m hm
      rw [List.drop_drop]
      exact hmin (start + m) (by omega)

/-- A later search fails exactly when no occurrence starts there or behind. -/
theorem findFrom_eq_none_iff {pat xs : List α} {start : ℕ} (hs : start ≤ xs.length) :
    findFrom pat xs start = none ↔ ∀ m, start ≤ m → m ≤ xs.length → ¬ pat <+: xs.drop m := by
  rw [findFrom, Option.map_eq_none_iff, find_eq_none_iff]
  constructor
  · intro h m hstart hm
    have := h (m - start) (by rw [List.length_drop]; omega)
    rwa [List.drop_drop, Nat.add_sub_cancel' hstart] at this
  · intro h m hm
    rw [List.length_drop] at hm
    rw [List.drop_drop]
    exact h (start + m) (by omega) (by omega)

/-- A later search finds the first occurrence that starts there or behind. -/
theorem findFrom_eq_some_iff {pat xs : List α} {start n : ℕ} (hs : start ≤ xs.length) :
    findFrom pat xs start = some n ↔
      start ≤ n ∧ n ≤ xs.length ∧ pat <+: xs.drop n ∧ ∀ m, start ≤ m → m < n → ¬ pat <+: xs.drop m := by
  rw [findFrom, Option.map_eq_some_iff]
  constructor
  · rintro ⟨k, hk, rfl⟩
    obtain ⟨hle, hpre, hmin⟩ := (find_eq_some_iff).mp hk
    rw [List.length_drop] at hle
    rw [List.drop_drop] at hpre
    refine ⟨by omega, by omega, by rwa [Nat.add_comm], fun m hstart hm => ?_⟩
    have := hmin (m - start) (by omega)
    rwa [List.drop_drop, Nat.add_sub_cancel' hstart] at this
  · rintro ⟨hstart, hn, hpre, hmin⟩
    refine ⟨n - start, (find_eq_some_iff).mpr ⟨?_, ?_, fun m hm => ?_⟩, by omega⟩
    · rw [List.length_drop]
      omega
    · rwa [List.drop_drop, Nat.add_sub_cancel' hstart]
    · rw [List.drop_drop]
      exact hmin (start + m) (by omega) (by omega)

/-- After an unsuccessful search, only the last `pat.length - 1` old elements need another look.
This is why a reader may resume its search near the end of what it had, instead of starting over
with each read. -/
theorem findFrom_append_of_none {pat xs : List α} (ys : List α) {start : ℕ}
    (hnone : find pat xs = none) (hstart : start + pat.length ≤ xs.length + 1)
    (hs : start ≤ xs.length) :
    findFrom pat (xs ++ ys) start = find pat (xs ++ ys) := by
  refine findFrom_eq_find (by simp; omega) ?_
  intro m hm hpre
  exact (find_eq_none_iff).mp hnone m (by omega) (prefix_drop_of_append (by omega) hpre)

/-- A prefix in which no occurrence starts can be skipped.  The occurrence found behind the prefix
is then the first of the whole list, moved by the length of the prefix. -/
theorem find_append_of_skip {pat a b : List α}
    (h : ∀ m < a.length, ¬ pat <+: (a ++ b).drop m) :
    find pat (a ++ b) = (find pat b).map (· + a.length) := by
  rw [← findFrom_eq_find (by simp) h, findFrom, List.drop_left]

/-- Searching from the start is searching. -/
@[simp] theorem findFrom_zero (pat xs : List α) : findFrom pat xs 0 = find pat xs := by
  simp [findFrom]

/-- A word whose first letter occurs only once does not overlap itself, so its first occurrence
behind a list without it is where it was appended. -/
theorem find_append_word {x : α} {pat xs : List α} (hx : x ∉ pat) (h : find (x :: pat) xs = none)
    (rest : List α) : find (x :: pat) (xs ++ (x :: pat ++ rest)) = some xs.length := by
  refine (find_eq_some_iff).mpr ⟨by simp, by rw [List.drop_left]; exact List.prefix_append _ _,
    fun m hm hpre => ?_⟩
  by_cases hfit : m + (x :: pat).length ≤ xs.length
  · exact (find_eq_none_iff).mp h m hm.le (prefix_drop_of_append hfit hpre)
  · -- the part of the word behind the list begins with its first letter again
    rw [List.drop_append_of_le_length hm.le] at hpre
    have hlength : (xs.drop m).length < (x :: pat).length := by
      rw [List.length_drop]
      omega
    obtain ⟨y, hy⟩ := List.prefix_of_prefix_length_le (List.prefix_append (xs.drop m) _) hpre
      hlength.le
    obtain ⟨z, zs, hz⟩ := List.exists_cons_of_length_pos (by
      rw [List.length_drop]
      omega : 0 < (xs.drop m).length)
    obtain ⟨t, ht⟩ := hpre
    rw [← hy, List.append_assoc, List.append_cancel_left_eq] at ht
    cases y with
    | nil =>
      rw [← hy, List.append_nil] at hlength
      exact absurd hlength (lt_irrefl _)
    | cons c y =>
      rw [hz, List.cons_append, List.cons.injEq] at hy
      rw [hz, List.cons_append, List.cons_append, List.cons_append, List.cons.injEq] at ht
      refine hx ?_
      rw [← hy.2, ← hy.1, ht.1]
      exact List.mem_append_right zs List.mem_cons_self

/-- A one-element search fails exactly when the element is absent. -/
theorem find_singleton_eq_none {x : α} {xs : List α} : find [x] xs = none ↔ x ∉ xs := by
  rw [find_eq_none_iff]
  constructor
  · intro h hx
    obtain ⟨n, hn, hget⟩ := List.getElem_of_mem hx
    exact h n hn.le (singleton_prefix_drop_iff.mpr (by rw [List.getElem?_eq_getElem hn, hget]))
  · intro h m _ hpre
    exact h (List.mem_of_getElem? (singleton_prefix_drop_iff.mp hpre))

/-- The first occurrence of `x` in `a ++ x :: b` when `a` has none. -/
theorem find_singleton_append {x : α} {a b : List α} (h : x ∉ a) :
    find [x] (a ++ x :: b) = some a.length := by
  refine (find_eq_some_iff).mpr ⟨by simp, by simp, ?_⟩
  intro m hm hpre
  rw [singleton_prefix_drop_iff, List.getElem?_append_left hm] at hpre
  exact h (List.mem_of_getElem? hpre)

/-- A successful one-element search splits the list at the first occurrence. -/
theorem find_singleton_eq_some {x : α} {xs : List α} {n : ℕ} (h : find [x] xs = some n) :
    ∃ a b, xs = a ++ x :: b ∧ x ∉ a ∧ a.length = n := by
  have hfit := find_add_length_le h
  rw [List.length_singleton] at hfit
  refine ⟨xs.take n, xs.drop (n + 1), eq_of_find h, ?_, by simp; omega⟩
  intro hmem
  obtain ⟨m, hm, hget⟩ := List.getElem_of_mem hmem
  rw [List.length_take] at hm
  refine ((find_eq_some_iff).mp h).2.2 m (by omega) (singleton_prefix_drop_iff.mpr ?_)
  rw [List.getElem_take] at hget
  rw [List.getElem?_eq_getElem (by omega), hget]

/-- The last occurrence of `x` in `a ++ x :: b` when `b` has none. -/
theorem findLast_append {x : α} {a b : List α} (h : x ∉ b) :
    findLast x (a ++ x :: b) = some a.length := by
  have hrev : (a ++ x :: b).reverse.idxOf? x = some b.length := by
    rw [List.reverse_append, List.reverse_cons, List.append_assoc, List.idxOf?_eq_some_iff]
    refine ⟨by simp, by simp, ?_⟩
    intro j hj heq
    rw [List.getElem_append_left (by simpa using hj), List.getElem_reverse] at heq
    exact h (by rw [← heq]; exact List.getElem_mem _)
  rw [findLast, hrev, Option.map_some, Option.some.injEq]
  simp

/-- No last occurrence exactly when the element is absent. -/
theorem findLast_eq_none {x : α} {xs : List α} : findLast x xs = none ↔ x ∉ xs := by
  simp [findLast]

end ListSearch
