import Chhttp.Lib.Search
import Chhttp.Lib.Numeral

/-!
# Byte strings, errors and the character classes of HTTP fields

The source's `std::string` and `std::string_view` are lists of bytes here.  A `Result` is an
`ErrorInfo` or a value; the transport's own error numbers (`system_code`, `tls_code`) are not
kept, since nothing in the protocol layer reads them.

The second half holds the text primitives of `common.cpp`: case-insensitive comparison, the token
and field-value character tables, the two ways of trimming, comma-separated token lists and the
uses of `std::from_chars` and `std::to_chars`.
-/

namespace Chhttp

/-- `std::string` and `std::string_view`. -/
abbrev Bytes := List UInt8

/-- The bytes of an ASCII literal. -/
def bytes (s : String) : Bytes := s.toList.map fun c => UInt8.ofNat c.toNat

/-- The bytes of a message that quotes its input, one character each. -/
def text (b : Bytes) : String := String.ofList (b.map fun c => Char.ofNat c.toNat)

/-! ### Errors -/

/-- The error categories of the public interface.  The codes are those of `Error` in the public
header; which of them a function returns is part of the claims about it. -/
inductive Error where
  | none | invalidArgument | cancelled | invalidUrl | resolve | connect | timeout | write | read
  | protocol | bodyTooLarge | redirectLimit | tlsUnavailable | tlsConfiguration | tlsHandshake
  | tlsVerification | proxy | compression | multipart | websocketHandshake | websocketClosed
  | serverStopped | internal
  deriving DecidableEq, Repr

/-- The phase of a client transfer an error is attributed to.  The client sets it as the transfer
goes on, and an error takes it along. -/
inductive TransferPhase where
  | none | resolve | connect | tlsHandshake | requestHead | requestBody | responseHead
  | responseBody
  deriving DecidableEq, Repr

/-- How far a client transfer got.  The counters tell the caller whether a request may have had an
effect, which decides whether it is sent again. -/
structure TransferContext where
  phase : TransferPhase := .none
  uploaded : ℕ := 0
  downloaded : ℕ := 0
  responseStarted : Bool := false
  deriving DecidableEq, Repr

/-- An error with its message and, for client transfers, how far the transfer got. -/
structure ErrorInfo where
  code : Error
  message : String
  transfer : Option TransferContext := none
  deriving DecidableEq, Repr

/-- `Result<T>`. -/
abbrev Result (α : Type) := Except ErrorInfo α

/-- The protocol errors, which most readers return. -/
def protocolError (message : String) : ErrorInfo := { code := .protocol, message }

/-! ### Delimiters -/

/-- Space. -/
def sp : UInt8 := 0x20
/-- Horizontal tab. -/
def htab : UInt8 := 0x09
/-- Carriage return. -/
def cr : UInt8 := 0x0d
/-- Line feed. -/
def lf : UInt8 := 0x0a
/-- `','`. -/
def comma : UInt8 := 0x2c
/-- `':'`. -/
def colon : UInt8 := 0x3a
/-- `';'`. -/
def semicolon : UInt8 := 0x3b
/-- `'/'`. -/
def slash : UInt8 := 0x2f
/-- `'"'`. -/
def quotationMark : UInt8 := 0x22
/-- `'\\'`. -/
def backslash : UInt8 := 0x5c
/-- `'-'`. -/
def dash : UInt8 := 0x2d
/-- `'='`. -/
def equalSign : UInt8 := 0x3d

/-- The end of a line. -/
def crlf : Bytes := [cr, lf]

/-- The end of a message head. -/
def crlfCrlf : Bytes := [cr, lf, cr, lf]

/-! ### Case-insensitive comparison -/

/-- The ASCII case fold. -/
def foldCase (c : UInt8) : UInt8 := if 0x41 ≤ c ∧ c ≤ 0x5a then c + 0x20 else c

/-- `lower`. -/
def lower (value : Bytes) : Bytes := value.map foldCase

/-- `iequals`: equal sizes, and every pair of bytes equal up to ASCII case.  The source compares
without a locale, so bytes above the ASCII range are equal only to themselves. -/
def iequals (lhs rhs : Bytes) : Bool :=
  lhs.length == rhs.length &&
    (lhs.zip rhs).all fun (left, right) => left == right || foldCase left == foldCase right

/-- `istarts_with`. -/
def istartsWith (value pre : Bytes) : Bool :=
  decide (pre.length ≤ value.length) &&
    (pre.zip value).all fun (left, right) => left == right || foldCase left == foldCase right

/-- Case-insensitive equality is equality of the folded strings. -/
theorem iequals_iff {lhs rhs : Bytes} : iequals lhs rhs = true ↔ lower lhs = lower rhs := by
  induction lhs generalizing rhs with
  | nil => cases rhs <;> simp [iequals, lower]
  | cons a lhs ih =>
    cases rhs with
    | nil => simp [iequals, lower]
    | cons b rhs =>
      have ih := @ih rhs
      simp only [iequals, lower, Bool.and_eq_true, beq_iff_eq] at ih
      simp only [iequals, lower, List.length_cons, List.zip_cons_cons, List.all_cons,
        Bool.and_eq_true, Bool.or_eq_true, beq_iff_eq, Nat.add_right_cancel_iff, List.map_cons,
        List.cons.injEq, ← ih]
      constructor
      · rintro ⟨hlen, hab | hab, hall⟩
        · exact ⟨by rw [hab], hlen, hall⟩
        · exact ⟨hab, hlen, hall⟩
      · rintro ⟨hab, hlen, hall⟩
        exact ⟨hlen, Or.inr hab, hall⟩

/-- Case-insensitive equality is reflexive. -/
@[simp] theorem iequals_refl (v : Bytes) : iequals v v = true := (iequals_iff).mpr rfl

/-- Case-insensitive equality is symmetric. -/
theorem iequals_comm (u v : Bytes) : iequals u v = iequals v u := by
  rw [Bool.eq_iff_iff, iequals_iff, iequals_iff, eq_comm]

/-- Case-insensitively equal strings compare alike with every other string. -/
theorem iequals_congr {u v : Bytes} (h : iequals u v = true) (w : Bytes) :
    iequals u w = iequals v w := by
  rw [Bool.eq_iff_iff, iequals_iff, iequals_iff, (iequals_iff).mp h]

/-- Case-insensitively equal strings have the same length. -/
theorem length_eq_of_iequals {u v : Bytes} (h : iequals u v = true) : u.length = v.length := by
  have := congrArg List.length ((iequals_iff).mp h)
  simpa [lower] using this

/-! ### Character classes -/

/-- The separators excluded from tokens: `()<>@,;:\"/[]?={} \t`. -/
def separators : Bytes := bytes "()<>@,;:\\\"/[]?=\x7b\x7d \t"

/-- `token_characters`. -/
def tokenCharacter (c : UInt8) : Bool :=
  decide (0x20 < c) && decide (c < 0x7f) && !separators.contains c

/-- `field_value_characters`: HTAB and everything from SP on but DEL. -/
def fieldValueCharacter (c : UInt8) : Bool :=
  c == htab || (decide (0x20 ≤ c) && c != 0x7f)

/-- `valid_header_name`: one or more token characters. -/
def validHeaderName (value : Bytes) : Bool := !value.isEmpty && value.all tokenCharacter

/-- `valid_header_value`. -/
def validHeaderValue (value : Bytes) : Bool := value.all fieldValueCharacter

/-- SP and HTAB. -/
def isOws (c : UInt8) : Bool := c == sp || c == htab

/-- `std::isspace` in the C locale. -/
def isSpace (c : UInt8) : Bool := c == sp || (decide (0x09 ≤ c) && decide (c ≤ 0x0d))

/-- The removal of surrounding SP and HTAB that the field parsers do in place.  Other blanks are not
removed; in a field value they would be invalid anyway. -/
def trimOws (value : Bytes) : Bytes := ListSearch.trimWith isOws value

/-- `trim`, which removes everything `std::isspace` accepts. -/
def trim (value : Bytes) : Bytes := ListSearch.trimWith isSpace value

/-- `header_value_has_token`. -/
def headerValueHasToken (value token : Bytes) : Bool :=
  (value.splitOn comma).any fun piece =>
    let candidate := trimOws piece
    !candidate.isEmpty && iequals candidate token

/-- A field value holds no control byte but HTAB. -/
theorem fieldValueCharacter_iff {c : UInt8} :
    fieldValueCharacter c = true ↔ c = htab ∨ (0x20 ≤ c ∧ c ≠ 0x7f) := by
  simp [fieldValueCharacter]

/-- Token characters are field-value characters. -/
theorem fieldValueCharacter_of_token {c : UInt8} (h : tokenCharacter c = true) :
    fieldValueCharacter c = true := by
  simp only [tokenCharacter, Bool.and_eq_true, decide_eq_true_eq] at h
  obtain ⟨⟨h1, h2⟩, -⟩ := h
  refine (fieldValueCharacter_iff).mpr (Or.inr ⟨UInt8.le_of_lt h1, ?_⟩)
  rintro rfl
  exact absurd h2 (by decide)

/-- CR, LF and NUL are not field-value characters. -/
theorem not_mem_of_validHeaderValue {value : Bytes} (h : validHeaderValue value = true)
    {c : UInt8} (hc : fieldValueCharacter c = false) : c ∉ value := by
  intro hmem
  have := List.all_eq_true.mp h c hmem
  rw [hc] at this
  cases this

/-- A valid name is a valid value. -/
theorem validHeaderValue_of_name {name : Bytes} (h : validHeaderName name = true) :
    validHeaderValue name = true := by
  simp only [validHeaderName, Bool.and_eq_true] at h
  exact List.all_eq_true.mpr fun c hc =>
    fieldValueCharacter_of_token (List.all_eq_true.mp h.2 c hc)

/-- Separators do not occur in a valid name. -/
theorem not_mem_of_validHeaderName {name : Bytes} (h : validHeaderName name = true)
    {c : UInt8} (hc : tokenCharacter c = false) : c ∉ name := by
  simp only [validHeaderName, Bool.and_eq_true] at h
  intro hmem
  have := List.all_eq_true.mp h.2 c hmem
  rw [hc] at this
  cases this

/-! ### Numbers -/

/-- The value of a digit for `std::from_chars`, which accepts letters of both cases. -/
def digitOf (base : ℕ) (c : UInt8) : Option ℕ :=
  let n := c.toNat
  let d :=
    if 48 ≤ n ∧ n ≤ 57 then n - 48
    else if 97 ≤ n ∧ n ≤ 122 then n - 87
    else if 65 ≤ n ∧ n ≤ 90 then n - 55
    else base
  if d < base then some d else none

/-- `std::from_chars` for an unsigned type holding the numbers below `limit`, followed by the check
that it consumed the whole text. -/
def fromChars (base limit : ℕ) (text : Bytes) : Option ℕ :=
  if text.isEmpty then none
  else
    match text.mapM (digitOf base) with
    | none => none
    | some ds =>
      let n := Numeral.value base ds
      if n < limit then some n else none

/-- The digit `std::to_chars` writes. -/
def digitByte (d : ℕ) : UInt8 := UInt8.ofNat (if d < 10 then 48 + d else 87 + d)

/-- `std::to_chars` and, in base ten, `std::to_string`. -/
def toChars (base n : ℕ) : Bytes := (Numeral.digits base n).map digitByte

/-- The numbers a `std::uint64_t` holds. -/
def uint64Limit : ℕ := 2 ^ 64

/-- A subtraction of unsigned numbers, which must not wrap around.  A result of none is a wrap in
the source, and the theorems show that it does not occur. -/
def checkedSub (a b : ℕ) : Option ℕ := if b ≤ a then some (a - b) else none

/-- An addition of unsigned numbers, which must not wrap around. -/
def checkedAdd (a b : ℕ) : Option ℕ := if a + b < 2 ^ 64 then some (a + b) else none

/-- A written digit is read back. -/
lemma digitOf_digitByte {base d : ℕ} (hb : base ≤ 36) (hd : d < base) :
    digitOf base (digitByte d) = some d := by
  have h36 : ∀ b < 37, ∀ d < b, digitOf b (digitByte d) = some d := by decide +kernel
  exact h36 base (by omega) d hd

/-- A written number is read back. -/
theorem fromChars_toChars {base limit n : ℕ} (hb : 1 < base) (hb' : base ≤ 36) (hn : n < limit) :
    fromChars base limit (toChars base n) = some n := by
  have hne : (toChars base n).isEmpty = false := by
    simp [toChars, Numeral.digits_ne_nil]
  have hmap : (toChars base n).mapM (digitOf base) = some (Numeral.digits base n) := by
    have hall : ∀ ds : List ℕ, (∀ d ∈ ds, d < base) →
        (ds.map digitByte).mapM (digitOf base) = some ds := by
      intro ds hds
      induction ds with
      | nil => rfl
      | cons d ds ih =>
        rw [List.map_cons, List.mapM_cons, digitOf_digitByte hb' (hds d List.mem_cons_self),
          ih fun d' hd' => hds d' (List.mem_cons_of_mem _ hd')]
        rfl
    exact hall _ fun d hd => Numeral.digits_lt hb hd
  rw [fromChars, hne, hmap]
  simp [Numeral.value_digits, hn]

/-- Written numbers consist of digits and lower-case letters. -/
theorem mem_toChars {base n : ℕ} (hb : 1 < base) (hb' : base ≤ 36) {c : UInt8}
    (h : c ∈ toChars base n) : ∃ d < 36, c = digitByte d := by
  obtain ⟨d, hd, rfl⟩ := List.mem_map.mp h
  have := Numeral.digits_lt hb hd
  exact ⟨d, by omega, rfl⟩

/-- A written number is not empty. -/
theorem toChars_ne_nil (base n : ℕ) : toChars base n ≠ [] := by
  simp [toChars, Numeral.digits_ne_nil]

end Chhttp
