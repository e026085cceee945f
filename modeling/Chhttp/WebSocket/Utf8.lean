import Chhttp.Common.Text
import Chhttp.Lib.Loop

/-!
# Valid UTF-8

`validUtf8` is `valid_utf8`, the check that `UvWebSocketChannel` makes of texts and close reasons.
It accepts the encodings of the sequences of Unicode scalar values, and no other bytes
(`validUtf8At_exact`).
-/

namespace Chhttp.WebSocket

/-! ### The source -/

/-- The number of continuation bytes that a first byte announces, and its share of the code
point. -/
def leadByte (first : ℕ) : Option (ℕ × ℕ) :=
  if 0xc2 ≤ first ∧ first ≤ 0xdf then some (1, first % 0x20)
  else if 0xe0 ≤ first ∧ first ≤ 0xef then some (2, first % 0x10)
  else if 0xf0 ≤ first ∧ first ≤ 0xf4 then some (3, first % 0x08)
  else none

/-- The continuation bytes, which carry six bits of the code point each. -/
def continuation : ℕ → ℕ → Bytes → Option (ℕ × Bytes)
  | 0, codepoint, rest => some (codepoint, rest)
  | _ + 1, _, [] => none
  | count + 1, codepoint, next :: rest =>
    if next.toNat / 0x40 = 2 then continuation count (codepoint * 0x40 + next.toNat % 0x40) rest
    else none

/-- An overlong form, a surrogate, or a value that is not a code point. -/
def badCodepoint (count codepoint : ℕ) : Bool :=
  (count == 2 && decide (codepoint < 0x800)) || (count == 3 && decide (codepoint < 0x10000)) ||
    decide (0x10ffff < codepoint) || (decide (0xd800 ≤ codepoint) && decide (codepoint ≤ 0xdfff))

/-- One iteration of the loop of `valid_utf8`, on the rest of the value. -/
def utf8Step : Bytes → Loop.Next Bytes Bool
  | [] => .leave true
  | first :: rest =>
    if first.toNat ≤ 0x7f then .again rest
    else
      match leadByte first.toNat with
      | none => .leave false
      | some (count, codepoint) =>
        match continuation count codepoint rest with
        | none => .leave false
        | some (codepoint, rest) =>
          if badCodepoint count codepoint then .leave false else .again rest

/-- The continuation bytes are taken off the rest. -/
lemma continuation_length {count codepoint codepoint' : ℕ} {rest rest' : Bytes}
    (h : continuation count codepoint rest = some (codepoint', rest')) :
    rest'.length ≤ rest.length := by
  induction count generalizing codepoint rest with
  | zero =>
    cases h
    exact le_rfl
  | succ count ih =>
    cases rest with
    | nil => cases h
    | cons next rest =>
      unfold continuation at h
      split_ifs at h
      exact (ih h).trans (Nat.le_succ _)

/-- Every iteration takes a first byte off. -/
lemma utf8Step_decreases : Loop.Decreases utf8Step List.length := by
  intro value value' h
  unfold utf8Step at h
  split at h
  · cases h
  · rename_i first rest
    split_ifs at h
    · cases h
      exact Nat.lt_succ_self _
    · split at h
      · cases h
      · split at h
        · cases h
        · rename_i count codepoint hlead codepoint' rest' hcontinuation
          split_ifs at h
          cases h
          exact Nat.lt_succ_of_le (continuation_length hcontinuation)

/-- `valid_utf8`. -/
def validUtf8 (value : Bytes) : Bool := Loop.run utf8Step List.length utf8Step_decreases value

/-! ### Encoded texts -/

/-- The empty text is valid. -/
@[simp] lemma validUtf8_nil : validUtf8 [] = true := Loop.run_of_leave utf8Step_decreases rfl

/-- A multi-byte sequence is taken as one code point. -/
lemma utf8Step_of_sequence {first count codepoint codepoint' : ℕ} {tail rest : Bytes}
    (hfirst : 0x7f < first) (hbyte : first < 256)
    (hlead : leadByte first = some (count, codepoint))
    (htail : continuation count codepoint (tail ++ rest) = some (codepoint', rest))
    (hgood : badCodepoint count codepoint' = false) :
    utf8Step (UInt8.ofNat first :: (tail ++ rest)) = .again rest := by
  have hnat : (UInt8.ofNat first).toNat = first := by
    rw [UInt8.toNat_ofNat']
    exact Nat.mod_eq_of_lt hbyte
  rw [utf8Step, hnat, if_neg (by omega), hlead]
  dsimp only
  rw [htail]
  dsimp only
  rw [hgood]
  rfl

/-- A continuation byte. -/
lemma continuation_ofNat {count codepoint bits : ℕ} (hbits : bits < 0x40) (rest : Bytes) :
    continuation (count + 1) codepoint (UInt8.ofNat (bits + 0x80) :: rest) =
      continuation count (codepoint * 0x40 + bits) rest := by
  have hnat : (UInt8.ofNat (bits + 0x80)).toNat = bits + 0x80 := by
    rw [UInt8.toNat_ofNat']
    omega
  rw [continuation, hnat, if_pos (by omega), show (bits + 0x80) % 0x40 = bits by omega]

/-- The encoding of a character is one iteration of the loop. -/
lemma utf8Step_encodeChar (c : Char) (rest : Bytes) :
    utf8Step (String.utf8EncodeChar c ++ rest) = .again rest := by
  have hvalid : c.val.toNat < 0xd800 ∨ 0xdfff < c.val.toNat ∧ c.val.toNat < 0x110000 := c.valid
  unfold String.utf8EncodeChar
  dsimp only
  generalize c.val.toNat = v at hvalid
  split_ifs with h1 h2 h3
  · have hnat : (UInt8.ofNat v).toNat = v := by
      rw [UInt8.toNat_ofNat']
      omega
    rw [List.singleton_append, utf8Step, hnat, if_pos h1]
  · refine @utf8Step_of_sequence _ 1 (v / 64) v [UInt8.ofNat (v % 0x40 + 0x80)] rest (by omega)
      (by omega) ?_ ?_ ?_
    · rw [leadByte, if_pos (by omega)]
      simp
      omega
    · rw [List.singleton_append, continuation_ofNat (by omega), continuation]
      simp
      omega
    · simp [badCodepoint]
      omega
  · refine @utf8Step_of_sequence _ 2 (v / 4096) v
      [UInt8.ofNat (v / 64 % 0x40 + 0x80), UInt8.ofNat (v % 0x40 + 0x80)] rest (by omega)
      (by omega) ?_ ?_ ?_
    · rw [leadByte, if_neg (by omega), if_pos (by omega)]
      simp
      omega
    · rw [List.cons_append, continuation_ofNat (by omega), List.singleton_append,
        continuation_ofNat (by omega), continuation]
      simp
      omega
    · simp [badCodepoint]
      omega
  · refine @utf8Step_of_sequence _ 3 (v / 262144) v
      [UInt8.ofNat (v / 4096 % 0x40 + 0x80), UInt8.ofNat (v / 64 % 0x40 + 0x80),
        UInt8.ofNat (v % 0x40 + 0x80)] rest (by omega) (by omega) ?_ ?_ ?_
    · rw [leadByte, if_neg (by omega), if_neg (by omega), if_pos (by omega)]
      simp
      omega
    · rw [List.cons_append, continuation_ofNat (by omega), List.cons_append,
        continuation_ofNat (by omega), List.singleton_append, continuation_ofNat (by omega),
        continuation]
      simp
      omega
    · simp [badCodepoint]
      omega

/-- The encoding of every text is valid.  Together with the converse, the texts that the source
accepts are exactly the encodings. -/
theorem validUtf8_encode (text : List Char) :
    validUtf8 (text.flatMap String.utf8EncodeChar) = true := by
  induction text with
  | nil => exact validUtf8_nil
  | cons c text ih =>
    rw [List.flatMap_cons, validUtf8,
      Loop.run_of_again utf8Step_decreases (utf8Step_encodeChar c _)]
    exact ih

/-! ### Only encoded texts -/

/-- What the first byte of a sequence says. -/
lemma leadByte_eq_some {first count codepoint : ℕ} (h : leadByte first = some (count, codepoint)) :
    count = 1 ∧ first = codepoint + 0xc0 ∧ 2 ≤ codepoint ∧ codepoint < 0x20 ∨
      count = 2 ∧ first = codepoint + 0xe0 ∧ codepoint < 0x10 ∨
      count = 3 ∧ first = codepoint + 0xf0 ∧ codepoint < 5 := by
  unfold leadByte at h
  split_ifs at h
  all_goals
    cases h
    omega

/-- A continuation byte that was taken. -/
lemma continuation_succ {count codepoint codepoint' : ℕ} {tail rest : Bytes}
    (h : continuation (count + 1) codepoint tail = some (codepoint', rest)) :
    ∃ bits tail', bits < 0x40 ∧ tail = UInt8.ofNat (bits + 0x80) :: tail' ∧
      continuation count (codepoint * 0x40 + bits) tail' = some (codepoint', rest) := by
  cases tail with
  | nil => cases h
  | cons next tail' =>
    unfold continuation at h
    split_ifs at h with hnext
    refine ⟨next.toNat % 0x40, tail', Nat.mod_lt _ (by omega), ?_, h⟩
    rw [show next.toNat % 0x40 + 0x80 = next.toNat by omega, UInt8.ofNat_toNat]

/-- The last continuation byte leaves the code point as it is. -/
lemma continuation_zero {codepoint codepoint' : ℕ} {tail rest : Bytes}
    (h : continuation 0 codepoint tail = some (codepoint', rest)) :
    codepoint' = codepoint ∧ tail = rest := by
  cases h
  exact ⟨rfl, rfl⟩

/-- A code point that is neither a surrogate nor too large is one of a character. -/
lemma exists_char {v : ℕ} (hmax : v ≤ 0x10ffff) (hsurrogate : ¬(0xd800 ≤ v ∧ v ≤ 0xdfff)) :
    ∃ c : Char, c.val.toNat = v := by
  have hvalid : v.isValidChar := by
    unfold Nat.isValidChar
    omega
  exact ⟨Char.ofNatAux v hvalid, by simp [Char.ofNatAux]⟩

/-- The encoding of a character with a given code point. -/
lemma encodeChar_of_val {c : Char} {v : ℕ} (h : c.val.toNat = v) :
    String.utf8EncodeChar c =
      if v ≤ 0x7f then [UInt8.ofNat v]
      else if v ≤ 0x7ff then [UInt8.ofNat (v / 64 % 0x20 + 0xc0), UInt8.ofNat (v % 0x40 + 0x80)]
      else if v ≤ 0xffff then
        [UInt8.ofNat (v / 4096 % 0x10 + 0xe0), UInt8.ofNat (v / 64 % 0x40 + 0x80),
          UInt8.ofNat (v % 0x40 + 0x80)]
      else
        [UInt8.ofNat (v / 262144 % 0x08 + 0xf0), UInt8.ofNat (v / 4096 % 0x40 + 0x80),
          UInt8.ofNat (v / 64 % 0x40 + 0x80), UInt8.ofNat (v % 0x40 + 0x80)] := by
  subst h
  rfl

/-- A code point that is not bad is the one of a character. -/
lemma exists_char_of_good {count v : ℕ} (h : badCodepoint count v = false) :
    (∃ c : Char, c.val.toNat = v) ∧ (count = 2 → 0x800 ≤ v) ∧ (count = 3 → 0x10000 ≤ v) ∧
      v ≤ 0x10ffff := by
  simp only [badCodepoint, Bool.or_eq_false_iff, Bool.and_eq_false_iff, decide_eq_false_iff_not,
    beq_eq_false_iff_ne] at h
  refine ⟨exists_char (by omega) (by omega), by omega, by omega, by omega⟩

/-- An iteration that goes on has taken the encoding of a character off.  So what the loop accepts
is text, with no overlong encodings and no surrogates. -/
lemma exists_char_of_utf8Step {value rest : Bytes} (h : utf8Step value = .again rest) :
    ∃ c : Char, value = String.utf8EncodeChar c ++ rest := by
  unfold utf8Step at h
  split at h
  · cases h
  · rename_i first tail
    split_ifs at h with hascii
    · cases h
      obtain ⟨c, hc⟩ := exists_char (v := first.toNat) (by omega) (by omega)
      refine ⟨c, ?_⟩
      rw [encodeChar_of_val hc, if_pos hascii, UInt8.ofNat_toNat, List.singleton_append]
    · split at h
      · cases h
      · rename_i count codepoint hlead
        split at h
        · cases h
        · rename_i v tail' hcontinuation
          split_ifs at h with hbad
          cases h
          obtain ⟨⟨c, hc⟩, htwo, hthree, hmax⟩ := exists_char_of_good (Bool.eq_false_iff.mpr hbad)
          refine ⟨c, ?_⟩
          rw [encodeChar_of_val hc]
          have hfirst : first = UInt8.ofNat first.toNat := UInt8.ofNat_toNat.symm
          -- two, three and four bytes; the checks of the source keep the code point in their range
          obtain ⟨rfl, hbyte, hlow, hhigh⟩ | ⟨rfl, hbyte, hhigh⟩ | ⟨rfl, hbyte, hhigh⟩ :=
            leadByte_eq_some hlead
          · obtain ⟨b, _, hb, rfl, h1⟩ := continuation_succ hcontinuation
            obtain ⟨rfl, rfl⟩ := continuation_zero h1
            rw [if_neg (by omega), if_pos (by omega), hfirst, hbyte,
              show (codepoint * 0x40 + b) / 64 % 0x20 = codepoint by omega,
              show (codepoint * 0x40 + b) % 0x40 = b by omega]
            rfl
          · obtain ⟨b, _, hb, rfl, h1⟩ := continuation_succ hcontinuation
            obtain ⟨d, _, hd, rfl, h2⟩ := continuation_succ h1
            obtain ⟨rfl, rfl⟩ := continuation_zero h2
            have hlow := htwo rfl
            rw [if_neg (by omega), if_neg (by omega), if_pos (by omega), hfirst, hbyte,
              show ((codepoint * 0x40 + b) * 0x40 + d) / 4096 % 0x10 = codepoint by omega,
              show ((codepoint * 0x40 + b) * 0x40 + d) / 64 % 0x40 = b by omega,
              show ((codepoint * 0x40 + b) * 0x40 + d) % 0x40 = d by omega]
            rfl
          · obtain ⟨b, _, hb, rfl, h1⟩ := continuation_succ hcontinuation
            obtain ⟨d, _, hd, rfl, h2⟩ := continuation_succ h1
            obtain ⟨e, _, he, rfl, h3⟩ := continuation_succ h2
            obtain ⟨rfl, rfl⟩ := continuation_zero h3
            have hlow := hthree rfl
            rw [if_neg (by omega), if_neg (by omega), if_neg (by omega), hfirst, hbyte,
              show (((codepoint * 0x40 + b) * 0x40 + d) * 0x40 + e) / 262144 % 0x08 = codepoint by
                omega,
              show (((codepoint * 0x40 + b) * 0x40 + d) * 0x40 + e) / 4096 % 0x40 = b by omega,
              show (((codepoint * 0x40 + b) * 0x40 + d) * 0x40 + e) / 64 % 0x40 = d by omega,
              show (((codepoint * 0x40 + b) * 0x40 + d) * 0x40 + e) % 0x40 = e by omega]
            rfl

/-- Only encoded texts are valid. -/
lemma exists_text_of_validUtf8 (value : Bytes) :
    validUtf8 value = true → ∃ text : List Char, value = text.flatMap String.utf8EncodeChar := by
  refine Loop.run_induct utf8Step_decreases
    (P := fun value valid =>
      valid = true → ∃ text : List Char, value = text.flatMap String.utf8EncodeChar) ?_ ?_ value
  · intro value valid hleave hvalid
    subst hvalid
    cases value with
    | nil => exact ⟨[], rfl⟩
    | cons first tail =>
      unfold utf8Step at hleave
      dsimp only at hleave
      split_ifs at hleave
      split at hleave
      · cases hleave
      · split at hleave
        · cases hleave
        · split_ifs at hleave
          cases hleave
  · intro value rest valid hagain ih hvalid
    obtain ⟨c, rfl⟩ := exists_char_of_utf8Step hagain
    obtain ⟨text, rfl⟩ := ih hvalid
    exact ⟨c :: text, rfl⟩

/-! ### The reads of the source

`Reading` keeps apart what `validUtf8` does not show: `valid_utf8` has an index, and where it reads
the value it could be past the end. -/

/-- What comes of a part of `valid_utf8`.  The source would read past the end if its length check
were wrong; that it does not is proved, not assumed. -/
inductive Reading (α : Type) where
  | pastEnd
  | invalid
  | value (a : α)
  deriving DecidableEq

/-- The loop over the continuation bytes, at an index. -/
def continuationAt (value : Bytes) : ℕ → ℕ → ℕ → Reading (ℕ × ℕ)
  | 0, index, codepoint => .value (index, codepoint)
  | count + 1, index, codepoint =>
    match value[index]? with
    | none => .pastEnd
    | some next =>
      if next.toNat / 0x40 = 2 then
        continuationAt value count (index + 1) (codepoint * 0x40 + next.toNat % 0x40)
      else .invalid

/-- One iteration of the loop of `valid_utf8`, at an index. -/
def utf8StepAt (value : Bytes) (index : ℕ) : Loop.Next ℕ (Reading Unit) :=
  if index < value.length then
    match value[index]? with
    | none => .leave .pastEnd
    | some first =>
      if first.toNat ≤ 0x7f then .again (index + 1)
      else
        match leadByte first.toNat with
        | none => .leave .invalid
        | some (count, codepoint) =>
          if value.length < index + 1 + count then .leave .invalid
          else
            match continuationAt value count (index + 1) codepoint with
            | .pastEnd => .leave .pastEnd
            | .invalid => .leave .invalid
            | .value (index, codepoint) =>
              if badCodepoint count codepoint then .leave .invalid else .again index
  else .leave (.value ())

/-- The index only grows. -/
lemma continuationAt_index {value : Bytes} {count index codepoint index' codepoint' : ℕ}
    (h : continuationAt value count index codepoint = .value (index', codepoint')) :
    index' = index + count := by
  induction count generalizing index codepoint with
  | zero =>
    cases h
    rfl
  | succ count ih =>
    unfold continuationAt at h
    split at h
    · cases h
    · split_ifs at h
      rw [ih h]
      omega

/-- Every iteration reads a byte. -/
lemma utf8StepAt_decreases (value : Bytes) :
    Loop.Decreases (utf8StepAt value) fun index => value.length - index := by
  intro index index' h
  unfold utf8StepAt at h
  split_ifs at h with hindex
  split at h
  · cases h
  · split_ifs at h
    · cases h
      dsimp only
      omega
    · split at h
      · cases h
      · split_ifs at h
        split at h
        · cases h
        · cases h
        · rename_i hcontinuation
          split_ifs at h
          cases h
          have hindex' := continuationAt_index hcontinuation
          dsimp only
          omega

/-- `valid_utf8` with the index of the source. -/
def validUtf8At (value : Bytes) : Reading Unit :=
  Loop.run (utf8StepAt value) _ (utf8StepAt_decreases value) 0

/-- What `valid_utf8` says of a rest of the value, as a reading. -/
def Reading.ofBool (valid : Bool) : Reading Unit := if valid then .value () else .invalid

/-- With enough bytes left, the continuation bytes are read within the value. -/
lemma continuationAt_eq {value : Bytes} {count index codepoint : ℕ}
    (h : index + count ≤ value.length) :
    continuationAt value count index codepoint =
      match continuation count codepoint (value.drop index) with
      | none => .invalid
      | some (codepoint, _) => .value (index + count, codepoint) := by
  induction count generalizing index codepoint with
  | zero => rfl
  | succ count ih =>
    have hindex : index < value.length := by omega
    rw [continuationAt, List.getElem?_eq_getElem hindex, List.drop_eq_getElem_cons hindex,
      continuation]
    dsimp only
    split_ifs
    · rw [ih (by omega), show index + 1 + count = index + (count + 1) by omega]
    · rfl

/-- The continuation bytes that were taken, by their number. -/
lemma continuation_drop {count codepoint codepoint' : ℕ} {tail rest : Bytes}
    (h : continuation count codepoint tail = some (codepoint', rest)) :
    count ≤ tail.length ∧ rest = tail.drop count := by
  induction count generalizing codepoint tail with
  | zero =>
    cases h
    exact ⟨Nat.zero_le _, rfl⟩
  | succ count ih =>
    obtain ⟨bits, tail', -, rfl, htail⟩ := continuation_succ h
    obtain ⟨hle, hrest⟩ := ih htail
    exact ⟨Nat.succ_le_succ hle, hrest⟩

/-- The loop at an index is the loop on the rest. -/
lemma run_utf8StepAt (value : Bytes) (index : ℕ) (hindex : index ≤ value.length) :
    Loop.run (utf8StepAt value) _ (utf8StepAt_decreases value) index =
      .ofBool (validUtf8 (value.drop index)) := by
  induction hn : value.length - index using Nat.strong_induction_on generalizing index with
  | _ n ih =>
    subst hn
    rw [Loop.run_eq, validUtf8, Loop.run_eq]
    by_cases hend : index < value.length
    · rw [List.drop_eq_getElem_cons hend, utf8StepAt, if_pos hend,
        List.getElem?_eq_getElem hend, utf8Step]
      dsimp only
      by_cases hascii : value[index].toNat ≤ 0x7f
      · rw [if_pos hascii, if_pos hascii]
        exact ih _ (by omega) _ (by omega) rfl
      · rw [if_neg hascii, if_neg hascii]
        cases hlead : leadByte value[index].toNat with
        | none => rfl
        | some lead =>
          obtain ⟨count, codepoint⟩ := lead
          dsimp only
          by_cases hshort : value.length < index + 1 + count
          · rw [if_pos hshort]
            cases hcontinuation : continuation count codepoint (value.drop (index + 1)) with
            | none => rfl
            | some taken =>
              have hle := (continuation_drop hcontinuation).1
              rw [List.length_drop] at hle
              omega
          · rw [if_neg hshort, continuationAt_eq (not_lt.mp hshort)]
            cases hcontinuation : continuation count codepoint (value.drop (index + 1)) with
            | none => rfl
            | some taken =>
              obtain ⟨codepoint', rest⟩ := taken
              obtain ⟨-, hrest⟩ := continuation_drop hcontinuation
              rw [List.drop_drop] at hrest
              dsimp only
              split_ifs
              · rfl
              · dsimp only
                rw [hrest]
                exact ih _ (by omega) _ (by omega) rfl
    · rw [utf8StepAt, if_neg hend, List.drop_eq_nil_of_le (not_lt.mp hend)]
      rfl

/-- `valid_utf8` never reads past the end of the value, and it accepts exactly the encodings of the
sequences of Unicode scalar values. -/
theorem validUtf8At_exact (value : Bytes) :
    validUtf8At value ≠ .pastEnd ∧
      (validUtf8At value = .value () ↔
        ∃ text : List Char, value = text.flatMap String.utf8EncodeChar) := by
  have hrun : validUtf8At value = .ofBool (validUtf8 value) := run_utf8StepAt value 0 (Nat.zero_le _)
  rw [hrun]
  cases hvalid : validUtf8 value with
  | false =>
    refine ⟨nofun, iff_of_false nofun ?_⟩
    rintro ⟨text, rfl⟩
    rw [validUtf8_encode] at hvalid
    cases hvalid
  | true => exact ⟨nofun, iff_of_true rfl (exists_text_of_validUtf8 value hvalid)⟩

end Chhttp.WebSocket
