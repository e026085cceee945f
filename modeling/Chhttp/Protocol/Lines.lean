import Chhttp.Common.Text

/-!
# Lines and message heads

A line is a byte string without CR LF; on the wire it is followed by CR LF.  `headBytes` is the
part of a message head that the parser sees: the start line and the field lines, each with its
line end.  The head ends with one more line end, and `find_headBytes` says that this is the first
place where two line ends meet, so the head of a message is determined by the bytes.
-/

namespace Chhttp

open ListSearch

/-- A line text: no CR LF inside. -/
def LineText (line : Bytes) : Prop := find crlf line = none

instance (line : Bytes) : Decidable (LineText line) := inferInstanceAs (Decidable (_ = _))

/-- Lines with their line ends. -/
def lineBytes (lines : List Bytes) : Bytes := lines.flatMap (· ++ crlf)

/-- A start line and field lines with their line ends. -/
def headBytes (start : Bytes) (lines : List Bytes) : Bytes := start ++ crlf ++ lineBytes lines

@[simp] theorem lineBytes_nil : lineBytes [] = [] := rfl

@[simp] theorem lineBytes_cons (line : Bytes) (lines : List Bytes) :
    lineBytes (line :: lines) = line ++ (crlf ++ lineBytes lines) := by
  simp [lineBytes]

@[simp] theorem lineBytes_append (u v : List Bytes) :
    lineBytes (u ++ v) = lineBytes u ++ lineBytes v := by
  simp [lineBytes]

@[simp] theorem crlf_length : crlf.length = 2 := rfl

@[simp] theorem crlfCrlf_length : crlfCrlf.length = 4 := rfl

/-- A byte string without CR is a line text. -/
theorem lineText_of_not_mem {line : Bytes} (h : cr ∉ line) : LineText line := by
  rw [LineText, find_eq_none_iff]
  intro m _ hpre
  have hmem : cr ∈ line.drop m := hpre.subset (by decide)
  exact h (List.mem_of_mem_drop hmem)

/-- Valid field values are line texts. -/
theorem lineText_of_validHeaderValue {value : Bytes} (h : validHeaderValue value = true) :
    LineText value :=
  lineText_of_not_mem (not_mem_of_validHeaderValue h (by decide))

/-- The empty line text. -/
theorem lineText_nil : LineText [] := by decide

/-- No line end starts inside a line text that is followed by CR. -/
lemma not_crlf_prefix_of_lineText {line tail : Bytes} (h : LineText line)
    (htail : tail.head? = some cr) {m : ℕ} (hm : m < line.length) :
    ¬ crlf <+: (line ++ tail).drop m := by
  intro hpre
  by_cases hfit : m + 2 ≤ line.length
  · exact (find_eq_none_iff).mp h m (by omega) (prefix_drop_of_append (by simpa using hfit) hpre)
  · -- the pair would have to be the last byte of the line and the CR behind it
    obtain ⟨x, hx⟩ : ∃ x, (line ++ tail).drop m = [x] ++ tail := by
      refine ⟨(line)[m], ?_⟩
      rw [List.drop_append_of_le_length hm.le, List.drop_eq_getElem_cons hm,
        List.drop_eq_nil_of_le (by omega)]
    cases tail with
    | nil => simp at htail
    | cons c tail =>
      rw [List.head?_cons, Option.some.injEq] at htail
      subst htail
      rw [hx] at hpre
      obtain ⟨t, ht⟩ := hpre
      simp only [crlf, List.cons_append, List.nil_append, List.cons.injEq] at ht
      exact absurd ht.2.1 (by decide)

/-- The first line end behind a line text is the one that follows it. -/
theorem find_crlf_of_lineText {line : Bytes} (h : LineText line) (rest : Bytes) :
    find crlf (line ++ (crlf ++ rest)) = some line.length := by
  rw [find_append_of_skip fun m hm => not_crlf_prefix_of_lineText h rfl hm]
  have h0 : find crlf (crlf ++ rest) = some 0 := by
    simp [find, crlf, List.isPrefixOf]
  rw [h0]
  simp

/-- The text before the first line end is a line text. -/
theorem lineText_take_of_find {xs : Bytes} {n : ℕ} (h : find crlf xs = some n) :
    LineText (xs.take n) := by
  rw [LineText, find_eq_none_iff]
  intro m hm hpre
  rw [List.length_take] at hm
  have hfit : n + 2 ≤ xs.length := by simpa using find_add_length_le h
  obtain ⟨-, -, hmin⟩ := (find_eq_some_iff).mp h
  have hlen := hpre.length_le
  simp only [List.length_drop, List.length_take, crlf_length] at hlen
  refine hmin m (by omega) ?_
  have hwhole : crlf <+: (xs.take n ++ xs.drop n).drop m :=
    prefix_drop_append (by rw [List.length_take]; omega) hpre
  rwa [List.take_append_drop] at hwhole

/-- The first line is determined by the bytes.  A line text has no CR LF, and it does not end in a
CR before the line end, so the first CR LF of the bytes is its end. -/
theorem line_append_inj {line line' rest rest' : Bytes} (h : LineText line) (h' : LineText line')
    (heq : line ++ (crlf ++ rest) = line' ++ (crlf ++ rest')) : line = line' ∧ rest = rest' := by
  have hfind := find_crlf_of_lineText h rest
  rw [heq, find_crlf_of_lineText h' rest', Option.some.injEq] at hfind
  obtain ⟨hline, hrest⟩ := List.append_inj heq hfind.symm
  exact ⟨hline, List.append_cancel_left hrest⟩

/-- Lines up to an empty one are determined by the bytes. -/
theorem lineBytes_append_inj {lines lines' : List Bytes} {rest rest' : Bytes}
    (h : ∀ line ∈ lines, LineText line ∧ line ≠ [])
    (h' : ∀ line ∈ lines', LineText line ∧ line ≠ [])
    (heq : lineBytes lines ++ (crlf ++ rest) = lineBytes lines' ++ (crlf ++ rest')) :
    lines = lines' ∧ rest = rest' := by
  induction lines generalizing lines' with
  | nil =>
    cases lines' with
    | nil => exact ⟨rfl, List.append_cancel_left heq⟩
    | cons line' lines' =>
      -- the empty line would be the first line of the other side
      obtain ⟨hline, hne⟩ := h' line' List.mem_cons_self
      rw [lineBytes_nil, lineBytes_cons, List.append_assoc, List.append_assoc] at heq
      exact absurd (line_append_inj lineText_nil hline heq).1.symm hne
  | cons line lines ih =>
    obtain ⟨hline, hne⟩ := h line List.mem_cons_self
    cases lines' with
    | nil =>
      rw [lineBytes_nil, lineBytes_cons, List.append_assoc, List.append_assoc] at heq
      exact absurd (line_append_inj hline lineText_nil heq).1 hne
    | cons line' lines' =>
      have hline' := (h' line' List.mem_cons_self).1
      rw [lineBytes_cons, lineBytes_cons, List.append_assoc, List.append_assoc,
        List.append_assoc, List.append_assoc] at heq
      obtain ⟨rfl, htail⟩ := line_append_inj hline hline' heq
      obtain ⟨rfl, hrest⟩ := ih (fun l hl => h l (List.mem_cons_of_mem _ hl))
        (fun l hl => h' l (List.mem_cons_of_mem _ hl)) htail
      exact ⟨rfl, hrest⟩

/-- A head is determined by the bytes of the message.  This is what makes a framing unambiguous: a
reader and a writer that agree on the bytes agree on the lines. -/
theorem headBytes_append_inj {start start' : Bytes} {lines lines' : List Bytes}
    {rest rest' : Bytes} (hstart : LineText start) (hstart' : LineText start')
    (h : ∀ line ∈ lines, LineText line ∧ line ≠ [])
    (h' : ∀ line ∈ lines', LineText line ∧ line ≠ [])
    (heq : headBytes start lines ++ (crlf ++ rest) = headBytes start' lines' ++ (crlf ++ rest')) :
    start = start' ∧ lines = lines' ∧ rest = rest' := by
  rw [headBytes, headBytes, List.append_assoc, List.append_assoc, List.append_assoc,
    List.append_assoc] at heq
  obtain ⟨hline, hlines⟩ := line_append_inj hstart hstart' heq
  exact ⟨hline, lineBytes_append_inj h h' hlines⟩

/-- No double line end starts inside a line text followed by a single line end. -/
lemma not_crlfCrlf_prefix_of_lineText {line tail : Bytes} (h : LineText line)
    (htail : tail.head? = some cr) {m : ℕ} (hm : m < line.length) :
    ¬ crlfCrlf <+: (line ++ tail).drop m := by
  intro hpre
  refine not_crlf_prefix_of_lineText h htail hm (List.IsPrefix.trans ?_ hpre)
  exact ⟨crlf, rfl⟩

/-- A double line end does not start at, or one byte after, a line end that a nonempty line text
follows. -/
lemma not_crlfCrlf_prefix_of_line_end {line rest : Bytes} (h : LineText line)
    (hne : line ≠ []) {m : ℕ} (hm : m < 2) :
    ¬ crlfCrlf <+: (crlf ++ (line ++ (crlf ++ rest))).drop m := by
  intro hpre
  obtain ⟨c, line, rfl⟩ := List.exists_cons_of_ne_nil hne
  have hstart : ¬ crlf <+: ((c :: line) ++ (crlf ++ rest)).drop 0 :=
    not_crlf_prefix_of_lineText h rfl (by simp)
  obtain ⟨t, ht⟩ := hpre
  interval_cases m
  · refine hstart ⟨t, ?_⟩
    simpa [crlf, crlfCrlf] using ht
  · simp only [crlfCrlf, crlf, List.cons_append, List.nil_append, List.drop_succ_cons,
      List.drop_zero, List.cons.injEq] at ht
    exact absurd ht.1 (by decide)

/-- The double line end that ends a head is the first one. -/
theorem find_crlfCrlf_lineBytes {lines : List Bytes} (h : ∀ line ∈ lines, LineText line)
    (hne : ∀ line ∈ lines, line ≠ []) (rest : Bytes) :
    find crlfCrlf (crlf ++ (lineBytes lines ++ (crlf ++ rest))) =
      some (lineBytes lines).length := by
  induction lines with
  | nil => simp [find, crlf, crlfCrlf, List.isPrefixOf]
  | cons line lines ih =>
    have hline := h line List.mem_cons_self
    have hline' := hne line List.mem_cons_self
    have ih := ih (fun l hl => h l (List.mem_cons_of_mem _ hl))
      fun l hl => hne l (List.mem_cons_of_mem _ hl)
    have hassoc : crlf ++ (lineBytes (line :: lines) ++ (crlf ++ rest)) =
        crlf ++ (line ++ (crlf ++ (lineBytes lines ++ (crlf ++ rest)))) := by simp
    rw [hassoc, find_append_of_skip fun m hm =>
        not_crlfCrlf_prefix_of_line_end hline hline' (by simpa using hm),
      find_append_of_skip fun m hm => not_crlfCrlf_prefix_of_lineText hline rfl hm, ih]
    simp only [Option.map_some, Option.some.injEq, lineBytes_cons, List.length_append,
      crlf_length]
    omega

/-- The head of a message ends at its first double line end.  So a reader that searches for it stops
behind the head, whatever the body looks like. -/
theorem find_headBytes {start : Bytes} {lines : List Bytes} (hstart : LineText start)
    (h : ∀ line ∈ lines, LineText line) (hne : ∀ line ∈ lines, line ≠ []) (rest : Bytes) :
    find crlfCrlf (headBytes start lines ++ (crlf ++ rest)) =
      some ((headBytes start lines).length - 2) := by
  have hassoc : headBytes start lines ++ (crlf ++ rest) =
      start ++ (crlf ++ (lineBytes lines ++ (crlf ++ rest))) := by simp [headBytes]
  rw [hassoc, find_append_of_skip fun m hm => not_crlfCrlf_prefix_of_lineText hstart rfl hm,
    find_crlfCrlf_lineBytes h hne]
  simp only [Option.map_some, Option.some.injEq, headBytes, List.length_append, crlf_length]
  omega

/-- A line end does not start inside another one. -/
lemma crlf_prefix_step {xs : Bytes} {m : ℕ} (h : crlf <+: xs.drop m) :
    ¬ crlf <+: xs.drop (m + 1) := by
  intro h'
  obtain ⟨t, ht⟩ := h
  rw [← List.drop_drop, ← ht] at h'
  obtain ⟨t', ht'⟩ := h'
  simp only [crlf, List.cons_append, List.nil_append, List.drop_succ_cons, List.drop_zero,
    List.cons.injEq] at ht'
  exact absurd ht'.1 (by decide)

/-- What follows a line and its line end. -/
lemma drop_line (line rest : Bytes) :
    (line ++ (crlf ++ rest)).drop (line.length + 2) = rest := by
  rw [← List.drop_drop, List.drop_left]
  rfl

/-- A line, its line end, and some of what follows. -/
lemma take_line (line rest : Bytes) (m : ℕ) :
    (line ++ (crlf ++ rest)).take (line.length + (2 + m)) = line ++ (crlf ++ rest.take m) := by
  rw [List.take_length_add_append, ← crlf_length, List.take_length_add_append]

/-- Everything before a double line end is a start line and nonempty further lines.  It is the
converse of `find_headBytes`: the reader never takes anything else for a head. -/
theorem exists_headBytes_of_find {xs : Bytes} {n : ℕ} (h : find crlfCrlf xs = some n) :
    ∃ start lines, LineText start ∧ (∀ line ∈ lines, LineText line) ∧
      (∀ line ∈ lines, line ≠ []) ∧ xs.take (n + 2) = headBytes start lines := by
  -- induction on the offset, splitting off the first line
  induction n using Nat.strong_induction_on generalizing xs with
  | _ n ih =>
    obtain ⟨hn, hpre, hmin⟩ := (find_eq_some_iff).mp h
    have hcrlf : crlf <+: xs.drop n := List.IsPrefix.trans ⟨crlf, rfl⟩ hpre
    obtain ⟨k, hk⟩ : ∃ k, find crlf xs = some k := by
      cases hf : find crlf xs with
      | some k => exact ⟨k, rfl⟩
      | none => exact absurd hcrlf ((find_eq_none_iff).mp hf n hn)
    have hstart := lineText_take_of_find hk
    obtain ⟨-, hkpre, hkmin⟩ := (find_eq_some_iff).mp hk
    obtain ⟨a, b, rfl, rfl⟩ : ∃ a b, xs = a ++ (crlf ++ b) ∧ a.length = k := by
      refine ⟨xs.take k, xs.drop (k + 2), by simpa using eq_of_find hk, ?_⟩
      have := find_add_length_le hk
      rw [List.length_take]
      omega
    rw [List.take_left] at hstart
    have hkn : a.length ≤ n := by
      by_contra hlt
      exact hkmin n (by omega) hcrlf
    rcases Nat.eq_or_lt_of_le hkn with rfl | hlt
    · refine ⟨a, [], hstart, by simp, by simp, ?_⟩
      have := take_line a b 0
      simpa [headBytes] using this
    · have hk2 : a.length + 2 ≤ n := by
        by_contra hlt'
        obtain rfl : n = a.length + 1 := by omega
        exact crlf_prefix_step hkpre hcrlf
      obtain ⟨m, rfl⟩ := Nat.exists_eq_add_of_le hk2
      have hdrop : ∀ j, (a ++ (crlf ++ b)).drop (a.length + 2 + j) = b.drop j := by
        intro j
        rw [← List.drop_drop, drop_line]
      have hrest : find crlfCrlf b = some m := by
        refine (find_eq_some_iff).mpr ⟨?_, hdrop m ▸ hpre, ?_⟩
        · simp only [List.length_append, crlf_length] at hn
          omega
        · intro j hj
          exact hdrop j ▸ hmin _ (by omega)
      obtain ⟨line, lines, hline, hlines, hne, htake⟩ := ih m (by omega) hrest
      have hline' : line ≠ [] := by
        rintro rfl
        obtain ⟨t, ht⟩ : crlf <+: b := by
          refine List.IsPrefix.trans ?_ (List.take_prefix (m + 2) b)
          rw [htake]
          exact ⟨lineBytes lines, by simp [headBytes]⟩
        refine hmin a.length hlt ⟨t, ?_⟩
        rw [List.drop_left, ← ht]
        rfl
      refine ⟨a, line :: lines, hstart, by simpa using ⟨hline, hlines⟩,
        by simpa using ⟨hline', hne⟩, ?_⟩
      rw [show a.length + 2 + m + 2 = a.length + (2 + (m + 2)) by omega, take_line, htake]
      simp [headBytes]

end Chhttp
