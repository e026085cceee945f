import Chhttp.Common.Text

/-!
# Content ranges

`format_content_range` and `parse_content_range`.  A range that was formatted is read back
(`parseContentRange_format`), and a text that is accepted means a valid range
(`valid_of_parseContentRange`): either an unsatisfied one with a total, or an interval that is
ordered and ends before the total.
-/

namespace Chhttp

open ListSearch

/-- `ContentRange`: a range of bytes with its two ends, or none for an unsatisfied range, and the
length of the whole content, or none if it is not known. -/
structure ContentRange where
  unit : Bytes
  first : Option ℕ := none
  last : Option ℕ := none
  total : Option ℕ := none
  deriving DecidableEq

/-- `parse_number`. -/
def parseNumber (text : Bytes) : Option ℕ := fromChars 10 uint64Limit text

/-- The total behind the slash, where `*` stands for none. -/
def parseTotal (totalText : Bytes) : Result (Option ℕ) :=
  if totalText.isEmpty then .error (protocolError "Content-Range total is empty")
  else if totalText ≠ bytes "*" then
    match parseNumber totalText with
    | none => .error (protocolError "Invalid Content-Range total")
    | some total => .ok (some total)
  else .ok none

/-- The interval before the slash. -/
def parseInterval (bounds : Bytes) : Result (ℕ × ℕ) :=
  match find [dash] bounds with
  | none => .error (protocolError "Malformed Content-Range interval")
  | some dashAt =>
    if dashAt = 0 ∨ dashAt + 1 = bounds.length ∨ (findFrom [dash] bounds (dashAt + 1)).isSome then
      .error (protocolError "Malformed Content-Range interval")
    else
      match parseNumber (bounds.take dashAt), parseNumber (bounds.drop (dashAt + 1)) with
      | some first, some last => .ok (first, last)
      | _, _ => .error (protocolError "Invalid Content-Range interval")

/-- What is behind the unit. -/
def parseRangeOf (unit range : Bytes) : Result ContentRange :=
  match find [slash] range with
  | none => .error (protocolError "Malformed Content-Range bounds")
  | some slashAt =>
    if slashAt = 0 ∨ (findFrom [slash] range (slashAt + 1)).isSome then
      .error (protocolError "Malformed Content-Range bounds")
    else
      match parseTotal (range.drop (slashAt + 1)) with
      | .error e => .error e
      | .ok total =>
        if range.take slashAt = bytes "*" then
          if total.isNone then .error (protocolError "Unsatisfied Content-Range requires a total")
          else .ok { unit, total }
        else
          match parseInterval (range.take slashAt) with
          | .error e => .error e
          | .ok (first, last) =>
            if last < first then .error (protocolError "Content-Range begins after it ends")
            else if total.any fun total => decide (total ≤ last) then
              .error (protocolError "Content-Range exceeds its total")
            else .ok { unit, first := some first, last := some last, total }

/-- `parse_content_range`: a unit, a space, and the range behind it. -/
def parseContentRange (value : Bytes) : Result ContentRange :=
  let value := trimOws value
  match find [sp] value with
  | none => .error (protocolError "Malformed Content-Range")
  | some space =>
    if space = 0 then .error (protocolError "Malformed Content-Range")
    else
      let unit := value.take space
      if !validHeaderName unit then .error (protocolError "Invalid Content-Range unit")
      else
        let range := value.drop (space + 1)
        if range.isEmpty || range.head? == some sp || range.head? == some htab || range.any isOws then
          .error (protocolError "Invalid Content-Range whitespace")
        else parseRangeOf unit range

/-- How a total is written. -/
def totalText : Option ℕ → Bytes
  | some total => toChars 10 total
  | none => bytes "*"

/-- `format_content_range`; bounds that make no sense are errors, so nothing is written that would
not be read. -/
def formatContentRange (first last : ℕ) (total : Option ℕ) : Result Bytes :=
  if last < first then
    .error { code := .invalidArgument, message := "Content range begins after it ends" }
  else if total.any fun total => decide (total ≤ last) then
    .error { code := .invalidArgument, message := "Content range exceeds its total" }
  else
    .ok (bytes "bytes " ++ toChars 10 first ++ [dash] ++ toChars 10 last ++ [slash] ++
      totalText total)

/-! ### What is accepted -/

/-- A content range that makes sense.  The first byte is not behind the last one, the last one is
inside the content where its length is known, and a range that is not satisfied states the length.
-/
structure ContentRange.Valid (range : ContentRange) : Prop where
  unit : validHeaderName range.unit = true
  bounds : (range.first = none ∧ range.last = none ∧ range.total.isSome = true) ∨
    ∃ first last, range.first = some first ∧ range.last = some last ∧ first ≤ last ∧
      ∀ total ∈ range.total, last < total

/-- The bounds that are accepted make sense. -/
lemma valid_of_parseRangeOf {unit range : Bytes} {result : ContentRange}
    (hunit : validHeaderName unit = true) (h : parseRangeOf unit range = .ok result) :
    result.Valid := by
  unfold parseRangeOf at h
  cases hslash : find [slash] range with
  | none =>
    rw [hslash] at h
    cases h
  | some slashAt =>
    rw [hslash] at h
    dsimp only at h
    by_cases hmalformed : slashAt = 0 ∨ (findFrom [slash] range (slashAt + 1)).isSome
    · rw [if_pos hmalformed] at h
      cases h
    rw [if_neg hmalformed] at h
    cases htotal : parseTotal (range.drop (slashAt + 1)) with
    | error e =>
      rw [htotal] at h
      cases h
    | ok total =>
      rw [htotal] at h
      dsimp only at h
      split_ifs at h with hstar hnone
      · cases h
        refine ⟨hunit, .inl ⟨rfl, rfl, ?_⟩⟩
        rw [← Option.not_isSome, Bool.not_eq_true, Bool.not_eq_false'] at hnone
        exact hnone
      cases hinterval : parseInterval (range.take slashAt) with
      | error e =>
        rw [hinterval] at h
        cases h
      | ok interval =>
        rw [hinterval] at h
        dsimp only at h
        split_ifs at h with horder hexceeds
        cases h
        refine ⟨hunit, .inr ⟨_, _, rfl, rfl, Nat.not_lt.mp horder, fun total hmem => ?_⟩⟩
        rw [Bool.not_eq_true, Option.any_eq_false] at hexceeds
        simpa using hexceeds total hmem

/-- What is accepted makes sense.  So a caller of the parser need not check the order or the bounds
of what it gets. -/
theorem valid_of_parseContentRange {value : Bytes} {range : ContentRange}
    (h : parseContentRange value = .ok range) : range.Valid := by
  unfold parseContentRange at h
  dsimp only at h
  cases hspace : find [sp] (trimOws value) with
  | none =>
    rw [hspace] at h
    cases h
  | some space =>
    rw [hspace] at h
    dsimp only at h
    split_ifs at h with hzero hunit hwhitespace
    exact valid_of_parseRangeOf (by simpa using hunit) h

/-! ### What is formatted -/

/-- A written number has digits only. -/
lemma not_mem_toChars {c : UInt8} (hc : c < 0x30) (n : ℕ) : c ∉ toChars 10 n := by
  intro hmem
  obtain ⟨d, hd, rfl⟩ := mem_toChars (by decide) (by decide) hmem
  have hall : ∀ d < 36, ¬digitByte d < 0x30 := by decide +kernel
  exact hall d hd hc

/-- A written number is read back. -/
lemma parseNumber_toChars {n : ℕ} (h : n < uint64Limit) : parseNumber (toChars 10 n) = some n :=
  fromChars_toChars (by decide) (by decide) h

/-- A separator that does not occur again. -/
lemma findFrom_behind {x : UInt8} {a b : Bytes} (hb : x ∉ b) :
    findFrom [x] (a ++ x :: b) (a.length + 1) = none := by
  rw [findFrom, Option.map_eq_none_iff, find_singleton_eq_none]
  have hdrop : (a ++ x :: b).drop (a.length + 1) = b := by
    rw [← List.drop_drop, List.drop_left]
    rfl
  rwa [hdrop]

/-- A formatted interval is read back. -/
lemma parseInterval_format {first last : ℕ} (hfirst : first < uint64Limit)
    (hlast : last < uint64Limit) :
    parseInterval (toChars 10 first ++ dash :: toChars 10 last) = .ok (first, last) := by
  have hnone : ∀ n, dash ∉ toChars 10 n := not_mem_toChars (by decide)
  have hpos : ∀ n, (toChars 10 n).length ≠ 0 := by
    intro n
    rw [Ne, List.length_eq_zero_iff]
    exact toChars_ne_nil 10 n
  have hdrop : (toChars 10 first ++ dash :: toChars 10 last).drop ((toChars 10 first).length + 1) =
      toChars 10 last := by
    rw [← List.drop_drop, List.drop_left]
    rfl
  unfold parseInterval
  rw [find_singleton_append (hnone first)]
  dsimp only
  rw [if_neg, List.take_left, hdrop, parseNumber_toChars hfirst, parseNumber_toChars hlast]
  rw [not_or, not_or, findFrom_behind (hnone last)]
  refine ⟨hpos first, ?_, by simp⟩
  have := hpos last
  rw [List.length_append, List.length_cons]
  omega

/-- A formatted total is read back. -/
lemma parseTotal_format {total : Option ℕ} (h : ∀ n ∈ total, n < uint64Limit) :
    parseTotal (totalText total) = .ok total := by
  cases total with
  | none => rfl
  | some total =>
    have hstar : toChars 10 total ≠ bytes "*" := by
      intro heq
      have hmem : 0x2a ∈ toChars 10 total := heq ▸ List.mem_singleton_self _
      exact not_mem_toChars (by decide) total hmem
    rw [totalText, parseTotal, if_neg (by simpa using toChars_ne_nil 10 total), if_pos hstar,
      parseNumber_toChars (h total rfl)]

/-- Written numbers and totals have no blank and no slash. -/
lemma plain_totalText (total : Option ℕ) :
    totalText total ≠ [] ∧ (∀ c ∈ totalText total, isOws c = false) ∧ slash ∉ totalText total := by
  cases total with
  | none => decide +kernel
  | some total =>
    refine ⟨toChars_ne_nil 10 total, fun c hc => ?_, not_mem_toChars (by decide) total⟩
    rw [← Bool.not_eq_true]
    intro hows
    rw [isOws, Bool.or_eq_true, beq_iff_eq, beq_iff_eq] at hows
    obtain rfl | rfl := hows
    · exact not_mem_toChars (by decide) total hc
    · exact not_mem_toChars (by decide) total hc

/-- An interval and a total are read back. -/
lemma parseRangeOf_format {first last : ℕ} {total : Option ℕ} (hfirst : first < uint64Limit)
    (hlast : last < uint64Limit) (htotal : ∀ n ∈ total, n < uint64Limit) (horder : first ≤ last)
    (hbelow : ∀ n ∈ total, last < n) (unit : Bytes) :
    parseRangeOf unit (toChars 10 first ++ dash :: toChars 10 last ++ slash :: totalText total) =
      .ok { unit, first := some first, last := some last, total } := by
  obtain ⟨hne, -, hslash⟩ := plain_totalText total
  have hnone : slash ∉ toChars 10 first ++ dash :: toChars 10 last := by
    rw [List.mem_append, List.mem_cons, not_or, not_or]
    exact ⟨not_mem_toChars (by decide) first, by decide, not_mem_toChars (by decide) last⟩
  have hdrop : (toChars 10 first ++ dash :: toChars 10 last ++ slash :: totalText total).drop
      ((toChars 10 first ++ dash :: toChars 10 last).length + 1) = totalText total := by
    rw [← List.drop_drop, List.drop_left]
    rfl
  have hstar : toChars 10 first ++ dash :: toChars 10 last ≠ bytes "*" := by
    intro heq
    have hmem : dash ∈ bytes "*" := heq ▸ by simp
    exact absurd hmem (by decide)
  unfold parseRangeOf
  rw [find_singleton_append hnone]
  dsimp only
  rw [if_neg, hdrop, parseTotal_format htotal, List.take_left]
  · dsimp only
    rw [if_neg hstar, parseInterval_format hfirst hlast]
    dsimp only
    rw [if_neg (Nat.not_lt.mpr horder), if_neg]
    rw [Bool.not_eq_true, Option.any_eq_false]
    intro n hn
    exact decide_eq_false (Nat.not_le.mpr (hbelow n hn))
  · rw [findFrom_behind hslash, not_or]
    refine ⟨?_, by simp⟩
    simp

/-- A valid interval is formatted and read back. -/
lemma parseContentRange_format {first last : ℕ} {total : Option ℕ} (hfirst : first < uint64Limit)
    (hlast : last < uint64Limit) (htotal : ∀ n ∈ total, n < uint64Limit) (horder : first ≤ last)
    (hbelow : ∀ n ∈ total, last < n) :
    parseContentRange (bytes "bytes" ++ sp ::
        (toChars 10 first ++ dash :: toChars 10 last ++ slash :: totalText total)) =
      .ok { unit := bytes "bytes", first := some first, last := some last, total } := by
  obtain ⟨hne, hplain, -⟩ := plain_totalText total
  have hdigits : ∀ n, ∀ c ∈ toChars 10 n, isOws c = false := fun n => (plain_totalText (some n)).2.1
  generalize hrange : toChars 10 first ++ dash :: toChars 10 last ++ slash :: totalText total = range
  have hows : ∀ c ∈ range, isOws c = false := by
    intro c hc
    simp only [← hrange, List.mem_append, List.mem_cons] at hc
    rcases hc with (hc | rfl | hc) | rfl | hc
    · exact hdigits first c hc
    · decide
    · exact hdigits last c hc
    · decide
    · exact hplain c hc
  have hempty : range ≠ [] := by
    rw [← hrange]
    simp
  have htrim : trimOws (bytes "bytes" ++ sp :: range) = bytes "bytes" ++ sp :: range := by
    have hhead : ∀ c ∈ (bytes "bytes" ++ sp :: range).head?, isOws c = false := by
      rintro c ⟨⟩
      rfl
    refine trimWith_eq_self hhead fun c hc => ?_
    rw [List.getLast?_append_cons, List.getLast?_cons_of_ne_nil hempty] at hc
    exact hows c (List.mem_of_getLast? hc)
  have hhead : range.head? ≠ some sp ∧ range.head? ≠ some htab := by
    obtain ⟨c, rest, rfl⟩ := List.exists_cons_of_ne_nil hempty
    have hc := hows c List.mem_cons_self
    rw [List.head?_cons]
    constructor
    · rintro ⟨⟩
      cases hc
    · rintro ⟨⟩
      cases hc
  have hdrop : (bytes "bytes" ++ sp :: range).drop ((bytes "bytes").length + 1) = range := rfl
  have hany : range.any isOws = false := List.any_eq_false.mpr fun c hc => by rw [hows c hc]; decide
  unfold parseContentRange
  dsimp only
  rw [htrim, find_singleton_append (by decide)]
  dsimp only
  rw [if_neg (by decide), List.take_left, if_neg (by decide), hdrop, if_neg, ← hrange]
  · exact parseRangeOf_format hfirst hlast htotal horder hbelow _
  · simp [hempty, hhead.1, hhead.2, hany]

/-- Formatting succeeds for exactly the ordered intervals below the total, and reading gives the
numbers back; whatever text is accepted, its range makes sense. -/
theorem contentRange_inverse :
    (∀ first last : ℕ, ∀ total : Option ℕ, first < 2 ^ 64 → last < 2 ^ 64 →
      (∀ n ∈ total, n < 2 ^ 64) →
      ((∃ text, formatContentRange first last total = .ok text) ↔
        first ≤ last ∧ ∀ n ∈ total, last < n) ∧
      ∀ text, formatContentRange first last total = .ok text → parseContentRange text =
        .ok { unit := bytes "bytes", first := some first, last := some last, total }) ∧
    ∀ text range, parseContentRange text = .ok range → range.Valid := by
  refine ⟨fun first last total hfirst hlast htotal => ?_, fun text range =>
    valid_of_parseContentRange⟩
  have hformat : ∀ text, formatContentRange first last total = .ok text ↔
      (first ≤ last ∧ ∀ n ∈ total, last < n) ∧ text = bytes "bytes" ++ sp ::
        (toChars 10 first ++ dash :: toChars 10 last ++ slash :: totalText total) := by
    intro text
    have htext : bytes "bytes " ++ toChars 10 first ++ [dash] ++ toChars 10 last ++ [slash] ++
        totalText total = bytes "bytes" ++ sp ::
          (toChars 10 first ++ dash :: toChars 10 last ++ slash :: totalText total) := by
      simp [bytes, sp]
    have hbelow : (total.any fun total => decide (total ≤ last)) = true ↔
        ¬∀ n ∈ total, last < n := by
      cases total <;> simp
    unfold formatContentRange
    split_ifs with horder hexceeds
    · exact ⟨fun h => (by cases h), fun h => absurd h.1.1 (Nat.not_le.mpr horder)⟩
    · exact ⟨fun h => (by cases h), fun h => absurd h.1.2 (hbelow.mp hexceeds)⟩
    · rw [hbelow, not_not] at hexceeds
      rw [htext, Except.ok.injEq]
      exact ⟨fun h => ⟨⟨Nat.not_lt.mp horder, hexceeds⟩, h.symm⟩, fun h => h.2.symm⟩
  refine ⟨⟨?_, ?_⟩, ?_⟩
  · rintro ⟨text, htext⟩
    exact ((hformat text).mp htext).1
  · exact fun hvalid => ⟨_, (hformat _).mpr ⟨hvalid, rfl⟩⟩
  · intro text htext
    obtain ⟨⟨horder, hbelow⟩, rfl⟩ := (hformat text).mp htext
    exact parseContentRange_format hfirst hlast htotal horder hbelow

end Chhttp
