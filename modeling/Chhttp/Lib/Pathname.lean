import Mathlib

/-!
# Pathnames

A pathname over any alphabet with a separator, as POSIX reads it: an optional root directory, names
between runs of separators, and an empty last component where separators follow the last name.
`append` is the joining of two pathnames, where an absolute second operand replaces the first.

The names count what a pathname goes down: `length_names_lt_append` for a pathname that is joined,
and `length_names_le` for one whose components begin another one's.
-/

namespace Pathname

variable {α : Type*} [DecidableEq α] (sep : α)

/-- The names of a pathname. -/
def names (p : List α) : List (List α) := (p.splitOn sep).filter (· ≠ [])

/-- The components of a pathname: the root directory, the names, and an empty component for
separators behind the last name. -/
def components (p : List α) : List (List α) :=
  (if p.head? = some sep then [[sep]] else []) ++ names sep p ++
    if p.getLast? = some sep ∧ names sep p ≠ [] then [[]] else []

/-- The separator between a pathname and a relative one. -/
def separator (p : List α) : List α := if p = [] ∨ p.getLast? = some sep then [] else [sep]

/-- A pathname followed by another one. -/
def append (p q : List α) : List α :=
  if q.head? = some sep then q else p ++ (separator sep p ++ q)

/-- The last name of a pathname, or nothing behind a separator. -/
def filename (p : List α) : List α := ((p.splitOn sep).getLast?).getD []

variable {sep}

/-- Joining a relative pathname keeps the first one. -/
lemma append_of_relative {p q : List α} (h : q.head? ≠ some sep) :
    append sep p q = p ++ (separator sep p ++ q) := if_neg h

/-- A pathname and its separator end with a separator, unless there is nothing. -/
lemma getLast?_append_separator {p : List α} (h : p ++ separator sep p ≠ []) :
    (p ++ separator sep p).getLast? = some sep := by
  unfold separator at h ⊢
  split_ifs at h ⊢ with hp
  · rcases hp with rfl | hp
    · exact absurd rfl h
    · rw [List.append_nil, hp]
  · exact List.getLast?_concat

/-- The empty path has no names. -/
@[simp] lemma names_nil : names sep ([] : List α) = [] := by
  simp [names]

/-- The names on both sides of a separator. -/
lemma names_append_cons (p q : List α) :
    names sep (p ++ sep :: q) = names sep p ++ names sep q := by
  rw [names, List.splitOn_append_cons_self, List.filter_append, names, names]

/-- A separator at the end adds no name. -/
lemma names_append_separator (p : List α) : names sep (p ++ separator sep p) = names sep p := by
  unfold separator
  split_ifs
  · rw [List.append_nil]
  · rw [names_append_cons, names_nil, List.append_nil]

/-- A pathname that does not start with a separator has a name. -/
lemma names_ne_nil {p : List α} (hne : p ≠ []) (h : p.head? ≠ some sep) : names sep p ≠ [] := by
  obtain ⟨c, p, rfl⟩ := List.exists_cons_of_ne_nil hne
  have hc : (c == sep) = false := by
    rw [beq_eq_false_iff_ne]
    rintro rfl
    exact h rfl
  intro hnil
  have hall := List.filter_eq_nil_iff.mp hnil
  rw [List.splitOn_cons_eq_if_modifyHead, hc] at hall
  obtain ⟨first, rest, hsplit⟩ := List.exists_cons_of_ne_nil (List.splitOn_ne_nil sep p)
  rw [hsplit] at hall
  simpa using hall (c :: first) (by simp)

/-- A relative pathname that is joined goes down. -/
lemma length_names_lt_append {p q : List α} (hne : q ≠ []) (h : q.head? ≠ some sep) :
    (names sep p).length < (names sep (p ++ (separator sep p ++ q))).length := by
  have hpos : 0 < (names sep q).length := List.length_pos_iff.mpr (names_ne_nil hne h)
  by_cases hnil : p ++ separator sep p = []
  · obtain ⟨rfl, hsep⟩ := List.append_eq_nil_iff.mp hnil
    rw [hsep]
    simpa using hpos
  · -- what stands before the joined pathname ends with a separator
    obtain ⟨r, hr⟩ := List.getLast?_eq_some_iff.mp (getLast?_append_separator hnil)
    have hnames : names sep p = names sep r := by
      rw [← names_append_separator p, hr, names_append_cons, names_nil, List.append_nil]
    rw [← List.append_assoc, hr, List.append_assoc, List.singleton_append, names_append_cons,
      List.length_append, hnames]
    omega

/-- A name contains no separator. -/
lemma not_mem_of_mem_splitOn {p name : List α} (h : name ∈ p.splitOn sep) : sep ∉ name := by
  induction p generalizing name with
  | nil =>
    rw [List.splitOn_nil, List.mem_singleton] at h
    simp [h]
  | cons c p ih =>
    rw [List.splitOn_cons_eq_if_modifyHead] at h
    split_ifs at h with hc
    · rcases List.mem_cons.mp h with rfl | h
      · exact List.not_mem_nil
      · exact ih h
    · obtain ⟨first, rest, hsplit⟩ := List.exists_cons_of_ne_nil (List.splitOn_ne_nil sep p)
      rw [hsplit] at h ih
      rcases List.mem_cons.mp h with rfl | h
      · have hne : sep ≠ c := by
          rintro rfl
          exact hc (beq_self_eq_true _)
        rw [List.mem_cons, not_or]
        exact ⟨hne, ih List.mem_cons_self⟩
      · exact ih (List.mem_cons_of_mem _ h)

/-- The components that are names. -/
lemma filter_components (p : List α) :
    (components sep p).filter (fun c => c ≠ [] ∧ c ≠ [sep]) = names sep p := by
  have hnames : (names sep p).filter (fun c => decide (c ≠ [] ∧ c ≠ [sep])) = names sep p := by
    refine List.filter_eq_self.mpr fun name hname => ?_
    obtain ⟨hmem, hne⟩ := List.mem_filter.mp hname
    have hsep : name ≠ [sep] := by
      rintro rfl
      exact not_mem_of_mem_splitOn hmem List.mem_cons_self
    exact decide_eq_true ⟨by simpa using hne, hsep⟩
  have hroot : ∀ (c : Prop) [Decidable c],
      (if c then [[sep]] else []).filter (fun c => decide (c ≠ [] ∧ c ≠ [sep])) = [] := by
    intro c _
    split_ifs <;> simp
  have hlast : ∀ (c : Prop) [Decidable c],
      (if c then [[]] else []).filter (fun c : List α => decide (c ≠ [] ∧ c ≠ [sep])) = [] := by
    intro c _
    split_ifs <;> simp
  rw [components, List.filter_append, List.filter_append, hroot, hnames, hlast, List.nil_append,
    List.append_nil]

/-- The components of a pathname that begin another one's have no more names. -/
lemma length_names_le {p q : List α} (h : components sep p <+: components sep q) :
    (names sep p).length ≤ (names sep q).length := by
  rw [← filter_components p, ← filter_components q]
  exact (h.sublist.filter _).length_le

end Pathname
