import Chhttp.Common.Text
import Chhttp.Lib.Loop
import Chhttp.Lib.Search

/-!
# The choice of a content coding

`select_encoding` of `common.cpp` against RFC 9110, 12.5.3.  The header is a list of items, each a
coding with parameters, and the parameter `q` of an item is the quality it gives to its coding.
The source finds the items and the parameters with two loops of its own, and reads a quality as a
number of thousandths.

`Gives` says which quality an item gives, `Quality` which quality a coding has, and
`selectEncoding_spec` that the choice is the first of the best supported codings.
-/

namespace Chhttp

open ListSearch

namespace Encoding

/-! ### The source -/

/-- `supported`, in the order of preference. -/
def supported : List Bytes := [bytes "br", bytes "zstd", bytes "gzip", bytes "deflate"]

/-- `value.substr(0, count)`, where `none` is `npos`. -/
def upTo (value : Bytes) : Option ℕ → Bytes
  | none => value
  | some count => value.take count

/-- What is behind a separator that was found at a position, and nothing if there was none. -/
def behind (value : Bytes) : Option ℕ → Bytes
  | none => []
  | some position => value.drop (position + 1)

/-- The loop of `parse_quality` over the characters behind the point. -/
def parseDigits (first : UInt8) : Bytes → ℕ → ℕ → ℕ
  | [], result, _ => result
  | ch :: rest, result, scale =>
    if ch < 0x30 ∨ 0x39 < ch ∨ (first = 0x31 ∧ ch ≠ 0x30) then 0
    else parseDigits first rest (result + (ch.toNat - 0x30) * scale) (scale / 10)

/-- `parse_quality`. -/
def parseQuality : Bytes → ℕ
  | [] => 0
  | first :: rest =>
    if first ≠ 0x30 ∧ first ≠ 0x31 then 0
    else
      let result := (first.toNat - 0x30) * 1000
      match rest with
      | [] => result
      | point :: digits =>
        if point ≠ 0x2e ∨ 5 < (first :: rest).length then 0
        else parseDigits first digits result 100

/-- The state of the loop over the parameters, of which `parameter` is the semicolon before the next
one. -/
structure ParameterState where
  parameter : Option ℕ
  quality : ℕ := 1000
  seenQuality : Bool := false

/-- One parameter. -/
def parameterStep (item : Bytes) (s : ParameterState) : Loop.Next ParameterState ℕ :=
  match s.parameter with
  | none => .leave s.quality
  | some parameter =>
    let next := findFrom [semicolon] item (parameter + 1)
    let value := trimOws (upTo (item.drop (parameter + 1)) (next.map (· - parameter - 1)))
    let equal := find [equalSign] value
    if iequals (trimOws (upTo value equal)) (bytes "q") then
      match equal with
      | none => .leave 0
      | some equal =>
        if s.seenQuality then .leave 0
        else
          .again
            { parameter := next
              quality := parseQuality (trimOws (value.drop (equal + 1)))
              seenQuality := true }
    else .again { s with parameter := next }

/-- How much of an item is left. -/
def ParameterState.left (item : Bytes) (s : ParameterState) : ℕ :=
  s.parameter.elim 0 fun parameter => item.length - parameter + 1

/-- A semicolon that is found later is nearer to the end. -/
lemma left_findFrom (item : Bytes) (parameter quality : ℕ) (seenQuality : Bool) :
    ParameterState.left item
        ⟨findFrom [semicolon] item (parameter + 1), quality, seenQuality⟩ <
      item.length - parameter + 1 := by
  cases hnext : findFrom [semicolon] item (parameter + 1) with
  | none => exact Nat.succ_pos _
  | some next =>
    obtain ⟨hle, hlt⟩ := findFrom_bounds (le_of_findFrom (List.cons_ne_nil _ _) hnext) hnext
    rw [List.length_singleton] at hlt
    change item.length - next + 1 < item.length - parameter + 1
    omega

/-- The loop over the parameters comes to an end. -/
lemma parameterStep_decreases (item : Bytes) :
    Loop.Decreases (parameterStep item) (ParameterState.left item) := by
  rintro ⟨_ | parameter, quality, seenQuality⟩ t h
  · cases h
  rw [parameterStep] at h
  dsimp only at h
  split at h
  · split at h
    · cases h
    · split at h
      · cases h
      · cases h
        exact left_findFrom item parameter _ _
  · cases h
    exact left_findFrom item parameter _ _

/-- The quality an item gives. -/
def itemQuality (item : Bytes) : ℕ :=
  Loop.run (parameterStep item) (ParameterState.left item) (parameterStep_decreases item)
    { parameter := find [semicolon] item }

/-- The coding of an item. -/
def coding (item : Bytes) : Bytes := trimOws (upTo item (find [semicolon] item))

/-- `explicit_quality` and `wildcard_quality`.  The source walks over the items once and keeps the
largest quality that names the coding and the largest one that names `*`. -/
structure Qualities where
  explicitQuality : List ℤ := supported.map fun _ => -1
  wildcardQuality : ℤ := -1

/-- What an item changes. -/
def Qualities.account (s : Qualities) (item : Bytes) : Qualities where
  explicitQuality := List.zipWith (fun name quality =>
    if iequals (coding item) name then max quality (itemQuality item) else quality)
    supported s.explicitQuality
  wildcardQuality :=
    if coding item = bytes "*" then max s.wildcardQuality (itemQuality item)
    else s.wildcardQuality

/-- One item. -/
def itemStep (s : Bytes × Qualities) : Loop.Next (Bytes × Qualities) Qualities :=
  if s.1 = [] then .leave s.2
  else
    let separator := find [comma] s.1
    .again (behind s.1 separator, s.2.account (trimOws (upTo s.1 separator)))

/-- The loop over the items comes to an end. -/
lemma itemStep_decreases : Loop.Decreases itemStep (fun s => s.1.length) := by
  rintro ⟨rest, qualities⟩ t h
  rw [itemStep] at h
  dsimp only at h
  split_ifs at h with hrest
  cases h
  have hpos := List.length_pos_iff.mpr hrest
  cases find [comma] rest with
  | none => exact hpos
  | some position =>
    change (rest.drop (position + 1)).length < rest.length
    rw [List.length_drop]
    omega

/-- The selection loop, with `selected_quality` and `selected`. -/
def select (wildcardQuality : ℤ) : List (Bytes × ℤ) → ℤ × Bytes :=
  List.foldl (fun best candidate =>
    let quality := if 0 ≤ candidate.2 then candidate.2 else wildcardQuality
    if best.1 < quality then (quality, candidate.1) else best) (0, [])

/-- `select_encoding`; no coding is the empty string.  One pass collects the qualities, and a second
one picks the best coding. -/
def selectEncoding (acceptEncoding : Bytes) : Bytes :=
  let qualities := Loop.run itemStep (fun s => s.1.length) itemStep_decreases (acceptEncoding, {})
  (select qualities.wildcardQuality (supported.zip qualities.explicitQuality)).2

/-! ### The preferences of a client -/

/-- A `qvalue`, in thousandths: `0` with at most three decimals, or `1` with at most three zeros.
This is the grammar that the source's comment cites; anything else makes the item worthless. -/
inductive Qvalue : Bytes → ℕ → Prop where
  | zero : Qvalue [0x30] 0
  | fraction {digits : List ℕ} (hlength : digits.length ≤ 3) (hdigits : ∀ d ∈ digits, d < 10) :
    Qvalue ([0x30, 0x2e] ++ digits.map digitByte)
      (Numeral.value 10 digits * 10 ^ (3 - digits.length))
  | one : Qvalue [0x31] 1000
  | zeros {n : ℕ} (hn : n ≤ 3) : Qvalue ([0x31, 0x2e] ++ List.replicate n 0x30) 1000

/-- The items of a header. -/
def items (accept : Bytes) : List Bytes := (accept.splitOn comma).map trimOws

/-- The coding that an item names. -/
def named (item : Bytes) : Bytes := trimOws ((item.splitOn semicolon).headD [])

/-- The parameters of an item. -/
def parameters (item : Bytes) : List Bytes := (item.splitOn semicolon).tail.map trimOws

/-- The name of a parameter. -/
def parameterName (parameter : Bytes) : Bytes :=
  trimOws ((parameter.splitOn equalSign).headD [])

/-- The quality parameters of an item. -/
def qualityParameters (item : Bytes) : List Bytes :=
  (parameters item).filter fun parameter => iequals (parameterName parameter) (bytes "q")

/-- `parameter` has the value `value`. -/
def HasValue (parameter value : Bytes) : Prop :=
  ∃ name text, parameter = name ++ equalSign :: text ∧ equalSign ∉ name ∧ value = trimOws text

/-- The quality that an item gives to its coding.  An item without a parameter `q` gives the full
quality, and the first parameter `q` counts. -/
inductive Gives (item : Bytes) : ℕ → Prop where
  | none (h : qualityParameters item = []) : Gives item 1000
  | exact {parameter value : Bytes} {quality : ℕ} (h : qualityParameters item = [parameter])
      (hvalue : HasValue parameter value) (hquality : Qvalue value quality) : Gives item quality
  | malformed {parameter : Bytes} (h : qualityParameters item = [parameter])
      (hmalformed : ∀ value quality, HasValue parameter value → ¬ Qvalue value quality) :
    Gives item 0
  | repeated {first second : Bytes} {more : List Bytes}
      (h : qualityParameters item = first :: second :: more) : Gives item 0

/-- The qualities given by the items whose coding is as described.  Repeated items all count, so the
best of them decides. -/
def given (accept : Bytes) (described : Bytes → Prop) : Set ℕ :=
  {quality | ∃ item ∈ items accept, described (named item) ∧ Gives item quality}

/-- The quality of a coding: the largest one given by name, else the largest one given to `*`.  A
coding that is named is not subject to `*`, even where `*` gives more. -/
inductive Quality (accept name : Bytes) : Option ℕ → Prop where
  | byName {quality : ℕ} (h : IsGreatest (given accept (iequals · name)) quality) :
    Quality accept name (some quality)
  | wildcard {quality : ℕ} (hname : given accept (iequals · name) = ∅)
      (h : IsGreatest (given accept (· = bytes "*")) quality) :
    Quality accept name (some quality)
  | absent (hname : given accept (iequals · name) = ∅)
      (h : given accept (· = bytes "*") = ∅) : Quality accept name none

/-- `name` is the first supported coding with the largest quality, and this is positive.  Ties go to
the coding that the server prefers, that is, to the first one. -/
def IsChoice (accept name : Bytes) : Prop :=
  ∃ before after quality, supported = before ++ name :: after ∧
    Quality accept name (some quality) ∧ 0 < quality ∧
    (∀ other ∈ before, ∀ q, Quality accept other (some q) → q < quality) ∧
    ∀ other ∈ after, ∀ q, Quality accept other (some q) → q ≤ quality

/-! ### Items and parameters -/

/-- Without a separator there is one piece. -/
lemma splitOn_of_find_none {x : UInt8} {xs : Bytes} (h : find [x] xs = none) :
    xs.splitOn x = [xs] :=
  List.splitOn_eq_singleton (find_singleton_eq_none.mp h)

/-- The first separator ends the first piece. -/
lemma splitOn_of_find_some {x : UInt8} {xs : Bytes} {n : ℕ} (h : find [x] xs = some n) :
    xs.splitOn x = xs.take n :: (xs.drop (n + 1)).splitOn x := by
  obtain ⟨a, b, rfl, ha, rfl⟩ := find_singleton_eq_some h
  rw [List.splitOn_append_cons_self, List.splitOn_eq_singleton ha, List.take_left,
    List.singleton_append, List.append_cons, ← List.length_singleton, ← List.length_append,
    List.drop_left]

/-- The first piece. -/
lemma headD_splitOn (x : UInt8) (xs : Bytes) : (xs.splitOn x).headD [] = upTo xs (find [x] xs) := by
  cases h : find [x] xs with
  | none => rw [splitOn_of_find_none h, List.headD_cons, upTo]
  | some n => rw [splitOn_of_find_some h, List.headD_cons, upTo]

/-- The coding is what the item names. -/
lemma coding_eq_named (item : Bytes) : coding item = named item := by
  rw [coding, named, headD_splitOn]

/-- The value of a parameter is behind its first `=`. -/
lemma hasValue_iff {parameter value : Bytes} :
    HasValue parameter value ↔
      ∃ n, find [equalSign] parameter = some n ∧ value = trimOws (parameter.drop (n + 1)) := by
  constructor
  · rintro ⟨name, text, rfl, hname, rfl⟩
    refine ⟨name.length, find_singleton_append hname, ?_⟩
    rw [List.append_cons, ← List.length_singleton, ← List.length_append, List.drop_left]
  · rintro ⟨n, hfind, rfl⟩
    obtain ⟨name, text, rfl, hname, rfl⟩ := find_singleton_eq_some hfind
    refine ⟨name, text, rfl, hname, ?_⟩
    rw [List.append_cons, ← List.length_singleton, ← List.length_append, List.drop_left]

/-- What the loop makes of the quality parameters that are left. -/
def weigh (quality : ℕ) (seenQuality : Bool) : List Bytes → ℕ
  | [] => quality
  | [parameter] =>
    match find [equalSign] parameter with
    | none => 0
    | some equal => if seenQuality then 0 else parseQuality (trimOws (parameter.drop (equal + 1)))
  | _ :: _ :: _ => 0

/-- The quality parameters among some pieces of an item. -/
def qualityPieces (pieces : List Bytes) : List Bytes :=
  (pieces.map trimOws).filter fun parameter => iequals (parameterName parameter) (bytes "q")

/-- One parameter, and what is left of the item. -/
lemma run_parameterStep {item piece : Bytes} {pieces : List Bytes} {parameter : ℕ}
    (hpiece : upTo (item.drop (parameter + 1))
      ((findFrom [semicolon] item (parameter + 1)).map (· - parameter - 1)) = piece)
    (hrest : ∀ quality seenQuality,
      Loop.run (parameterStep item) (ParameterState.left item) (parameterStep_decreases item)
          ⟨findFrom [semicolon] item (parameter + 1), quality, seenQuality⟩ =
        weigh quality seenQuality (qualityPieces pieces))
    (quality : ℕ) (seenQuality : Bool) :
    Loop.run (parameterStep item) (ParameterState.left item) (parameterStep_decreases item)
        ⟨some parameter, quality, seenQuality⟩ =
      weigh quality seenQuality (qualityPieces (piece :: pieces)) := by
  have hname : trimOws (upTo (trimOws piece) (find [equalSign] (trimOws piece))) =
      parameterName (trimOws piece) := by
    rw [parameterName, headD_splitOn]
  rw [Loop.run_eq, parameterStep]
  dsimp only
  rw [hpiece, hname]
  by_cases hquality : iequals (parameterName (trimOws piece)) (bytes "q") = true
  · have hpieces : qualityPieces (piece :: pieces) = trimOws piece :: qualityPieces pieces :=
      List.filter_cons_of_pos hquality
    rw [if_pos hquality, hpieces]
    cases hequal : find [equalSign] (trimOws piece) with
    | none =>
      cases qualityPieces pieces with
      | nil => simp only [weigh, hequal]
      | cons next more => rfl
    | some equal =>
      cases seenQuality with
      | true =>
        cases qualityPieces pieces with
        | nil => simp only [weigh, hequal, if_true]
        | cons next more => rfl
      | false =>
        have hnext := hrest (parseQuality (trimOws ((trimOws piece).drop (equal + 1)))) true
        refine hnext.trans ?_
        cases qualityPieces pieces with
        | nil => simp only [weigh, hequal, Bool.false_eq_true, if_false]
        | cons next more =>
          cases more with
          | nil =>
            rw [weigh, weigh]
            cases find [equalSign] next <;> rfl
          | cons => rfl
  · have hpieces : qualityPieces (piece :: pieces) = qualityPieces pieces :=
      List.filter_cons_of_neg hquality
    rw [if_neg hquality, hpieces]
    exact hrest quality seenQuality

/-- The loop over the parameters looks at all pieces behind a semicolon. -/
lemma run_parameters (item : Bytes) (parameter quality : ℕ) (seenQuality : Bool) :
    Loop.run (parameterStep item) (ParameterState.left item) (parameterStep_decreases item)
        ⟨some parameter, quality, seenQuality⟩ =
      weigh quality seenQuality
        (qualityPieces ((item.drop (parameter + 1)).splitOn semicolon)) := by
  induction hn : item.length - parameter using Nat.strong_induction_on
    generalizing parameter quality seenQuality with
  | _ n ih =>
    subst hn
    cases hfind : find [semicolon] (item.drop (parameter + 1)) with
    | none =>
      rw [splitOn_of_find_none hfind]
      refine run_parameterStep ?_ ?_ quality seenQuality
      · rw [findFrom, hfind]
        rfl
      · intro quality' seenQuality'
        rw [findFrom, hfind]
        exact Loop.run_of_leave _ rfl
    | some position =>
      have hnext : findFrom [semicolon] item (parameter + 1) =
          some (position + (parameter + 1)) := by
        rw [findFrom, hfind, Option.map_some]
      have hfit := find_add_length_le hfind
      rw [List.length_drop, List.length_singleton] at hfit
      rw [splitOn_of_find_some hfind]
      refine run_parameterStep ?_ ?_ quality seenQuality
      · rw [hnext, Option.map_some, upTo]
        congr 1
        omega
      · intro quality' seenQuality'
        rw [hnext, ih _ (by omega) _ _ _ rfl, List.drop_drop]
        congr 4
        omega

/-- The quality of an item depends on its quality parameters alone. -/
lemma itemQuality_eq (item : Bytes) :
    itemQuality item = weigh 1000 false (qualityParameters item) := by
  rw [itemQuality, qualityParameters, parameters]
  cases hfind : find [semicolon] item with
  | none =>
    rw [splitOn_of_find_none hfind]
    exact Loop.run_of_leave _ rfl
  | some position =>
    rw [run_parameters, splitOn_of_find_some hfind]
    rfl

/-! ### The decimal parser -/

/-- A digit more in front of a number. -/
lemma value_cons (d : ℕ) (ds : List ℕ) :
    Numeral.value 10 (d :: ds) = d * 10 ^ ds.length + Numeral.value 10 ds := by
  rw [Numeral.value_eq_ofDigits, Numeral.value_eq_ofDigits, List.reverse_cons,
    Nat.ofDigits_append, Nat.ofDigits_singleton, List.length_reverse]
  ring

/-- The decimal digits are characters between `0` and `9`. -/
lemma digitByte_spec {d : ℕ} (hd : d < 10) :
    ¬ digitByte d < 0x30 ∧ ¬ 0x39 < digitByte d ∧ (digitByte d).toNat - 0x30 = d := by
  have hall : ∀ d < 10,
      ¬ digitByte d < 0x30 ∧ ¬ 0x39 < digitByte d ∧ (digitByte d).toNat - 0x30 = d := by decide
  exact hall d hd

/-- A character between `0` and `9` is a decimal digit. -/
lemma digitByte_toNat_sub {ch : UInt8} (hlow : ¬ ch < 0x30) (hhigh : ¬ 0x39 < ch) :
    ch.toNat - 0x30 < 10 ∧ digitByte (ch.toNat - 0x30) = ch := by
  have hall : ∀ ch : Fin 256, ¬ UInt8.ofNat ch < 0x30 → ¬ 0x39 < UInt8.ofNat ch →
      (UInt8.ofNat ch).toNat - 0x30 < 10 ∧
        digitByte ((UInt8.ofNat ch).toNat - 0x30) = UInt8.ofNat ch := by decide +kernel
  have := hall ⟨ch.toNat, ch.toNat_lt⟩
  rw [UInt8.ofNat_toNat] at this
  exact this hlow hhigh

/-- Decimals add their thousandths, where the scale is that of the first of `n` decimals. -/
lemma parseDigits_fraction {digits : List ℕ} (hdigits : ∀ d ∈ digits, d < 10) (result : ℕ) {n : ℕ}
    (hn : digits.length ≤ n) :
    parseDigits 0x30 (digits.map digitByte) result (10 ^ n / 10) =
      result + Numeral.value 10 digits * 10 ^ (n - digits.length) := by
  induction digits generalizing result n with
  | nil =>
    rw [Numeral.value, List.foldl_nil, Nat.zero_mul]
    rfl
  | cons d digits ih =>
    obtain ⟨hd, hrest⟩ := List.forall_mem_cons.mp hdigits
    obtain ⟨hlow, hhigh, hvalue⟩ := digitByte_spec hd
    obtain ⟨n, rfl⟩ : ∃ m, n = m + 1 := Nat.exists_eq_succ_of_ne_zero (by
      rw [List.length_cons] at hn
      omega)
    rw [List.length_cons, Nat.add_le_add_iff_right] at hn
    have hscale : 10 ^ (n + 1) / 10 = 10 ^ n := by
      rw [pow_succ, Nat.mul_div_cancel _ (Nat.succ_pos 9)]
    have hfit : digits.length + (n - digits.length) = n := by omega
    rw [List.map_cons, parseDigits, if_neg (by simp [hlow, hhigh]), hvalue, hscale, ih hrest _ hn,
      value_cons, List.length_cons, Nat.add_sub_add_right, Nat.add_mul, Nat.mul_assoc d, ← pow_add,
      hfit, Nat.add_assoc]

/-- Zeros add nothing. -/
lemma parseDigits_zeros (n result scale : ℕ) :
    parseDigits 0x31 (List.replicate n 0x30) result scale = result := by
  induction n generalizing result scale with
  | zero => rfl
  | succ n ih =>
    have hcharacter : ¬ ((0x30 : UInt8) < 0x30 ∨ 0x39 < (0x30 : UInt8) ∨
        ((0x31 : UInt8) = 0x31 ∧ (0x30 : UInt8) ≠ 0x30)) := by decide
    rw [List.replicate_succ, parseDigits, if_neg hcharacter, ih]
    change result + 0 * scale = result
    rw [Nat.zero_mul, Nat.add_zero]

/-- A quality is read as its thousandths. -/
lemma parseQuality_of_qvalue {value : Bytes} {quality : ℕ} (h : Qvalue value quality) :
    parseQuality value = quality := by
  cases h with
  | zero => rfl
  | @fraction digits hlength hdigits =>
    rw [List.cons_append, List.singleton_append, parseQuality, if_neg (by decide)]
    dsimp only
    rw [if_neg (by simpa using Nat.lt_succ_of_le hlength)]
    exact (parseDigits_fraction hdigits 0 hlength).trans (Nat.zero_add _)
  | one => rfl
  | @zeros n hn =>
    rw [List.cons_append, List.singleton_append, parseQuality, if_neg (by decide)]
    dsimp only
    rw [if_neg (by simpa using Nat.lt_succ_of_le hn), parseDigits_zeros]
    rfl

/-- The loop over the decimals does not read zero unless they are digits, and zeros behind `1`. -/
lemma digits_of_parseDigits {first : UInt8} {text : Bytes} {result scale : ℕ}
    (h : parseDigits first text result scale ≠ 0) :
    (∃ digits : List ℕ, (∀ d ∈ digits, d < 10) ∧ text = digits.map digitByte) ∧
      (first = 0x31 → text = List.replicate text.length 0x30) := by
  induction text generalizing result scale with
  | nil => exact ⟨⟨[], by simp, rfl⟩, fun _ => rfl⟩
  | cons ch text ih =>
    rw [parseDigits] at h
    split_ifs at h with hcharacter
    · exact absurd rfl h
    obtain ⟨hlow, hhigh, hzero⟩ : ¬ ch < 0x30 ∧ ¬ 0x39 < ch ∧ (first = 0x31 → ch = 0x30) := by
      simpa [not_or] using hcharacter
    obtain ⟨⟨digits, hdigits, htext⟩, hzeros⟩ := ih h
    obtain ⟨hd, hch⟩ := digitByte_toNat_sub hlow hhigh
    refine ⟨⟨(ch.toNat - 0x30) :: digits, List.forall_mem_cons.mpr ⟨hd, hdigits⟩, ?_⟩, ?_⟩
    · rw [List.map_cons, hch, ← htext]
    · intro hfirst
      rw [List.length_cons, List.replicate_succ, ← hzeros hfirst, hzero hfirst]

/-- Anything else than a quality is read as zero.  So an item with a malformed quality is as good as
refused. -/
lemma parseQuality_of_not_qvalue {value : Bytes} (h : ∀ quality, ¬ Qvalue value quality) :
    parseQuality value = 0 := by
  by_contra hne
  cases value with
  | nil => exact hne rfl
  | cons first rest =>
    rw [parseQuality] at hne
    dsimp only at hne
    split_ifs at hne with hfirst
    · exact hne rfl
    have hfirst : first = 0x30 ∨ first = 0x31 := by
      by_contra hother
      exact hfirst (not_or.mp hother)
    cases rest with
    | nil =>
      rcases hfirst with rfl | rfl
      · exact h 0 .zero
      · exact h 1000 .one
    | cons point text =>
      dsimp only at hne
      split_ifs at hne with hpoint
      · exact hne rfl
      obtain ⟨rfl, hlength⟩ : point = 0x2e ∧ text.length < 4 := by simpa [not_or] using hpoint
      replace hlength := Nat.le_of_lt_succ hlength
      obtain ⟨⟨digits, hdigits, htext⟩, hzeros⟩ := digits_of_parseDigits hne
      rcases hfirst with rfl | rfl
      · rw [htext, List.length_map] at hlength
        rw [htext] at h
        exact h _ (.fraction hlength hdigits)
      · rw [hzeros rfl] at h
        exact h _ (.zeros hlength)

/-- A quality parameter with a value is read. -/
lemma itemQuality_of_value {item parameter value : Bytes} (h : qualityParameters item = [parameter])
    (hvalue : HasValue parameter value) : itemQuality item = parseQuality value := by
  obtain ⟨n, hfind, rfl⟩ := hasValue_iff.mp hvalue
  rw [itemQuality_eq, h, weigh, hfind]
  rfl

/-- A malformed quality parameter is read as zero. -/
lemma itemQuality_of_malformed {item parameter : Bytes} (h : qualityParameters item = [parameter])
    (hmalformed : ∀ value quality, HasValue parameter value → ¬ Qvalue value quality) :
    itemQuality item = 0 := by
  cases hfind : find [equalSign] parameter with
  | none => rw [itemQuality_eq, h, weigh, hfind]
  | some n =>
    have hvalue := hasValue_iff.mpr ⟨n, hfind, rfl⟩
    rw [itemQuality_of_value h hvalue]
    exact parseQuality_of_not_qvalue fun quality => hmalformed _ quality hvalue

/-- The quality that an item gives is the one that is read. -/
lemma gives_iff {item : Bytes} {quality : ℕ} : Gives item quality ↔ itemQuality item = quality := by
  constructor
  · intro h
    cases h with
    | none h => rw [itemQuality_eq, h, weigh]
    | exact h hvalue hquality => rw [itemQuality_of_value h hvalue, parseQuality_of_qvalue hquality]
    | malformed h hmalformed => exact itemQuality_of_malformed h hmalformed
    | repeated h => rw [itemQuality_eq, h, weigh]
  · rintro rfl
    rcases h : qualityParameters item with _ | ⟨parameter, _ | ⟨second, more⟩⟩
    · rw [itemQuality_eq, h, weigh]
      exact .none h
    · by_cases hwell : ∃ value quality, HasValue parameter value ∧ Qvalue value quality
      · obtain ⟨value, quality, hvalue, hquality⟩ := hwell
        rw [itemQuality_of_value h hvalue, parseQuality_of_qvalue hquality]
        exact .exact h hvalue hquality
      · have hmalformed : ∀ value quality, HasValue parameter value → ¬ Qvalue value quality :=
          fun value quality hvalue hquality => hwell ⟨value, quality, hvalue, hquality⟩
        rw [itemQuality_of_malformed h hmalformed]
        exact .malformed h hmalformed
    · rw [itemQuality_eq, h, weigh]
      exact .repeated h

/-! ### The largest qualities -/

/-- The value of a table entry: the largest quality seen so far, or -1. -/
def largest (qualities : List ℕ) : ℤ :=
  qualities.foldl (fun (best : ℤ) (quality : ℕ) => max best quality) (-1)

/-- One more quality. -/
lemma largest_append_singleton (qualities : List ℕ) (quality : ℕ) :
    largest (qualities ++ [quality]) = max (largest qualities) quality := by
  rw [largest, List.foldl_append]
  rfl

/-- An entry is the largest of the qualities, if there are any. -/
lemma largest_spec (qualities : List ℕ) :
    (qualities = [] ∧ largest qualities = -1) ∨
      ∃ quality : ℕ, IsGreatest {q | q ∈ qualities} quality ∧ largest qualities = quality := by
  induction qualities using List.reverseRecOn with
  | nil => exact .inl ⟨rfl, rfl⟩
  | append_singleton qualities quality ih =>
    right
    rw [largest_append_singleton]
    rcases ih with ⟨rfl, hlargest⟩ | ⟨best, ⟨hmem, hbest⟩, hlargest⟩
    · refine ⟨quality, ⟨List.mem_singleton_self _, fun q hq => ?_⟩, ?_⟩
      · exact (List.mem_singleton.mp hq).le
      · rw [hlargest]
        omega
    · refine ⟨max best quality, ⟨?_, fun q hq => ?_⟩, ?_⟩
      · rcases max_choice best quality with hmax | hmax
        · rw [hmax]
          exact List.mem_append_left _ hmem
        · rw [hmax]
          exact List.mem_append_right _ (List.mem_singleton_self _)
      · rcases List.mem_append.mp hq with hq | hq
        · exact (hbest hq).trans (le_max_left _ _)
        · exact (List.mem_singleton.mp hq).le.trans (le_max_right _ _)
      · rw [hlargest, Nat.cast_max]

/-- The qualities that items give to the codings that are as described. -/
def qualitiesOf (described : Bytes → Bool) (items : List Bytes) : List ℕ :=
  (items.filter fun item => described (coding item)).map itemQuality

/-- One more item. -/
lemma largest_qualitiesOf_append (described : Bytes → Bool) (items : List Bytes) (item : Bytes) :
    largest (qualitiesOf described (items ++ [item])) =
      if described (coding item) then max (largest (qualitiesOf described items)) (itemQuality item)
      else largest (qualitiesOf described items) := by
  rw [qualitiesOf, List.filter_append, List.map_append]
  by_cases h : described (coding item) = true
  · have hitem : [item].filter (fun item => described (coding item)) = [item] :=
      List.filter_cons_of_pos h
    rw [if_pos h, hitem, List.map_singleton, largest_append_singleton, qualitiesOf]
  · have hitem : [item].filter (fun item => described (coding item)) = [] :=
      List.filter_cons_of_neg h
    rw [if_neg h, hitem, List.map_nil, List.append_nil, qualitiesOf]

/-- The tables after some items. -/
lemma foldl_account (items : List Bytes) :
    items.foldl Qualities.account {} =
      { explicitQuality := supported.map fun name => largest (qualitiesOf (iequals · name) items)
        wildcardQuality := largest (qualitiesOf (· == bytes "*") items) } := by
  induction items using List.reverseRecOn with
  | nil => rfl
  | append_singleton items item ih =>
    rw [List.foldl_append, ih, List.foldl_cons, List.foldl_nil, Qualities.account]
    simp only [largest_qualitiesOf_append, beq_iff_eq, Qualities.mk.injEq]
    rw [List.zipWith_map_right, List.zipWith_self, and_true]

/-- An item keeps the size of the table. -/
lemma length_account {qualities : Qualities}
    (h : qualities.explicitQuality.length = supported.length) (item : Bytes) :
    (qualities.account item).explicitQuality.length = supported.length := by
  rw [Qualities.account, List.length_zipWith, h, min_self]

/-- An empty item changes nothing. -/
lemma account_nil {qualities : Qualities}
    (h : qualities.explicitQuality.length = supported.length) :
    qualities.account [] = qualities := by
  obtain ⟨explicitQuality, wildcardQuality⟩ := qualities
  obtain ⟨br, zstd, gzip, deflate, rfl⟩ : ∃ br zstd gzip deflate,
      explicitQuality = [br, zstd, gzip, deflate] :=
    List.length_eq_four.mp h
  rfl

/-- The loop over the items looks at all pieces between commas. -/
lemma run_items (accept : Bytes) {qualities : Qualities}
    (h : qualities.explicitQuality.length = supported.length) :
    Loop.run itemStep (fun s => s.1.length) itemStep_decreases (accept, qualities) =
      (items accept).foldl Qualities.account qualities := by
  induction hn : accept.length using Nat.strong_induction_on generalizing accept qualities with
  | _ n ih =>
    subst hn
    by_cases hempty : accept = []
    · subst hempty
      have hleave : itemStep ([], qualities) = .leave qualities := rfl
      rw [Loop.run_of_leave _ hleave]
      exact (account_nil h).symm
    have hagain : itemStep (accept, qualities) =
        .again (behind accept (find [comma] accept),
          qualities.account (trimOws (upTo accept (find [comma] accept)))) :=
      if_neg hempty
    have hpos := List.length_pos_iff.mpr hempty
    rw [Loop.run_of_again _ hagain, ih _ (itemStep_decreases _ _ hagain) _
      (length_account h _) rfl, items, items]
    cases hfind : find [comma] accept with
    | none =>
      rw [splitOn_of_find_none hfind]
      exact account_nil (length_account h _)
    | some position =>
      rw [splitOn_of_find_some hfind]
      rfl

/-! ### The choice -/

/-- The quality that the selection loop compares. -/
def effective (wildcardQuality explicitQuality : ℤ) : ℤ :=
  if 0 ≤ explicitQuality then explicitQuality else wildcardQuality

/-- One more candidate. -/
lemma select_append_singleton (wildcardQuality : ℤ) (candidates : List (Bytes × ℤ))
    (candidate : Bytes × ℤ) :
    select wildcardQuality (candidates ++ [candidate]) =
      if (select wildcardQuality candidates).1 < effective wildcardQuality candidate.2 then
        (effective wildcardQuality candidate.2, candidate.1)
      else select wildcardQuality candidates := by
  rw [select, List.foldl_append]
  rfl

/-- Either no candidate has a positive quality, or the first one of the best is selected.  The loop
replaces its choice only for a greater quality, which makes it the first of the best. -/
lemma select_spec (wildcardQuality : ℤ) (candidates : List (Bytes × ℤ)) :
    (select wildcardQuality candidates = (0, []) ∧
        ∀ c ∈ candidates, effective wildcardQuality c.2 ≤ 0) ∨
      ∃ before chosen after, candidates = before ++ chosen :: after ∧
        select wildcardQuality candidates = (effective wildcardQuality chosen.2, chosen.1) ∧
        0 < effective wildcardQuality chosen.2 ∧
        (∀ c ∈ before, effective wildcardQuality c.2 < effective wildcardQuality chosen.2) ∧
        ∀ c ∈ after, effective wildcardQuality c.2 ≤ effective wildcardQuality chosen.2 := by
  induction candidates using List.reverseRecOn with
  | nil => exact .inl ⟨rfl, by simp⟩
  | append_singleton candidates candidate ih =>
    rw [select_append_singleton]
    rcases ih with ⟨hselect, hall⟩ | ⟨before, chosen, after, rfl, hselect, hpos, hbefore, hafter⟩
    · rw [hselect]
      by_cases hbetter : 0 < effective wildcardQuality candidate.2
      · rw [if_pos hbetter]
        exact .inr ⟨candidates, candidate, [], rfl, rfl, hbetter,
          fun c hc => (hall c hc).trans_lt hbetter, by simp⟩
      · rw [if_neg hbetter]
        refine .inl ⟨rfl, fun c hc => ?_⟩
        rcases List.mem_append.mp hc with hc | hc
        · exact hall c hc
        · exact List.mem_singleton.mp hc ▸ not_lt.mp hbetter
    · right
      rw [hselect]
      by_cases hbetter : effective wildcardQuality chosen.2 < effective wildcardQuality candidate.2
      · rw [if_pos hbetter]
        refine ⟨before ++ chosen :: after, candidate, [], rfl, rfl, hpos.trans hbetter,
          fun c hc => ?_, by simp⟩
        rcases List.mem_append.mp hc with hc | hc
        · exact (hbefore c hc).trans hbetter
        · rcases List.mem_cons.mp hc with rfl | hc
          · exact hbetter
          · exact (hafter c hc).trans_lt hbetter
      · rw [if_neg hbetter]
        refine ⟨before, chosen, after ++ [candidate], by simp, rfl, hpos, hbefore, fun c hc => ?_⟩
        rcases List.mem_append.mp hc with hc | hc
        · exact hafter c hc
        · exact List.mem_singleton.mp hc ▸ not_lt.mp hbetter

/-- The table entry for the described codings is the largest quality that was given to them. -/
lemma given_spec (accept : Bytes) {described : Bytes → Prop} {test : Bytes → Bool}
    (h : ∀ name, described name ↔ test name = true) :
    (given accept described = ∅ ∧ largest (qualitiesOf test (items accept)) = -1) ∨
      ∃ quality : ℕ, IsGreatest (given accept described) quality ∧
        largest (qualitiesOf test (items accept)) = quality := by
  have hgiven : given accept described =
      {quality | quality ∈ qualitiesOf test (items accept)} := by
    ext quality
    simp only [given, qualitiesOf, Set.mem_ofPred_eq, List.mem_map, List.mem_filter, gives_iff, h,
      coding_eq_named, and_assoc]
  rw [hgiven]
  rcases largest_spec (qualitiesOf test (items accept)) with ⟨hnone, hlargest⟩ | hsome
  · refine .inl ⟨?_, hlargest⟩
    rw [hnone]
    exact Set.eq_empty_of_forall_notMem fun quality => List.not_mem_nil
  · exact .inr hsome

/-- What the selection loop compares for a coding. -/
def qualityOf (accept name : Bytes) : ℤ :=
  effective (largest (qualitiesOf (· == bytes "*") (items accept)))
    (largest (qualitiesOf (iequals · name) (items accept)))

/-- A coding has at most one quality. -/
lemma Quality.unique {accept name : Bytes} {q q' : Option ℕ} (h : Quality accept name q)
    (h' : Quality accept name q') : q = q' := by
  cases h with
  | byName h =>
    cases h' with
    | byName h' => rw [h.unique h']
    | wildcard hname | absent hname => exact absurd (hname ▸ h.1) (Set.notMem_empty _)
  | wildcard hname h =>
    cases h' with
    | byName h' => exact absurd (hname ▸ h'.1) (Set.notMem_empty _)
    | wildcard _ h' => rw [h.unique h']
    | absent _ hstar => exact absurd (hstar ▸ h.1) (Set.notMem_empty _)
  | absent hname hstar =>
    cases h' with
    | byName h' => exact absurd (hname ▸ h'.1) (Set.notMem_empty _)
    | wildcard _ h' => exact absurd (hstar ▸ h'.1) (Set.notMem_empty _)
    | absent => rfl

/-- The selection loop compares the quality of the coding, and -1 if it has none. -/
lemma exists_quality (accept name : Bytes) :
    ∃ q : Option ℕ, Quality accept name q ∧ qualityOf accept name = q.elim (-1) Nat.cast := by
  rcases given_spec accept (fun coding => Iff.refl (iequals coding name = true)) with
    ⟨hname, hlargest⟩ | ⟨quality, hname, hlargest⟩
  · rcases given_spec accept (fun coding => (beq_iff_eq (a := coding) (b := bytes "*")).symm) with
      ⟨hstar, hstar'⟩ | ⟨quality, hstar, hstar'⟩
    · refine ⟨none, .absent hname hstar, ?_⟩
      rw [qualityOf, hlargest, hstar']
      rfl
    · refine ⟨some quality, .wildcard hname hstar, ?_⟩
      rw [qualityOf, hlargest, hstar']
      rfl
  · refine ⟨some quality, .byName hname, ?_⟩
    rw [qualityOf, hlargest, effective, if_pos (Int.natCast_nonneg quality)]
    rfl

/-- The quality of a coding, if it has one. -/
lemma Quality.qualityOf_eq {accept name : Bytes} {q : ℕ} (h : Quality accept name (some q)) :
    qualityOf accept name = q := by
  obtain ⟨q', hq', heq⟩ := exists_quality accept name
  rw [heq, ← h.unique hq']
  rfl

/-- A positive quality is one that the coding has. -/
lemma quality_of_pos {accept name : Bytes} (h : 0 < qualityOf accept name) :
    ∃ q : ℕ, 0 < q ∧ Quality accept name (some q) ∧ qualityOf accept name = q := by
  obtain ⟨_ | q, hq, heq⟩ := exists_quality accept name
  · rw [heq] at h
    exact absurd h (by decide)
  · refine ⟨q, ?_, hq, heq⟩
    rw [heq] at h
    exact Int.natCast_pos.mp h

/-- For every header, every coding has one quality; the choice is the first supported coding of the
largest quality if that is positive, and none is chosen exactly when no supported coding has a
positive quality. -/
theorem selectEncoding_spec (accept : Bytes) :
    (∀ name, ∃! q, Quality accept name q) ∧
      (selectEncoding accept ≠ [] → IsChoice accept (selectEncoding accept)) ∧
      (selectEncoding accept = [] ↔
        ∀ name ∈ supported, ∀ q, Quality accept name (some q) → q = 0) := by
  refine ⟨fun name => ?_, ?_⟩
  · obtain ⟨q, hq, -⟩ := exists_quality accept name
    exact ⟨q, hq, fun q' hq' => hq'.unique hq⟩
  have hselect : selectEncoding accept =
      (select (largest (qualitiesOf (· == bytes "*") (items accept)))
        (supported.map fun name =>
          (name, largest (qualitiesOf (iequals · name) (items accept))))).2 := by
    rw [selectEncoding, run_items accept rfl, foldl_account]
    rfl
  rcases select_spec (largest (qualitiesOf (· == bytes "*") (items accept)))
      (supported.map fun name => (name, largest (qualitiesOf (iequals · name) (items accept)))) with
    ⟨hnone, hall⟩ | ⟨before, chosen, after, hsplit, hchosen, hpos, hbefore, hafter⟩
  · have hempty : selectEncoding accept = [] := by rw [hselect, hnone]
    refine ⟨fun hne => absurd hempty hne, fun _ name hname q hq => ?_, fun _ => hempty⟩
    have hle : qualityOf accept name ≤ 0 := hall _ (List.mem_map_of_mem hname)
    rw [hq.qualityOf_eq] at hle
    omega
  · -- the candidates are the supported codings with their table entries
    obtain ⟨before, rest, hsupported, rfl, hrest⟩ := List.map_eq_append_iff.mp hsplit
    obtain ⟨name, after, rfl, rfl, rfl⟩ := List.map_eq_cons_iff.mp hrest
    rw [hchosen] at hselect
    dsimp only at hselect hpos hbefore hafter
    obtain ⟨q, hq, hquality, heq⟩ := @quality_of_pos accept name hpos
    have hmem : name ∈ supported := by
      rw [hsupported]
      exact List.mem_append_right _ List.mem_cons_self
    refine ⟨fun _ => ?_, ?_, ?_⟩
    · rw [hselect]
      refine ⟨before, after, q, hsupported, hquality, hq, fun other hother r hr => ?_,
        fun other hother r hr => ?_⟩
      · have hlt : qualityOf accept other < qualityOf accept name :=
          hbefore _ (List.mem_map_of_mem hother)
        rw [hr.qualityOf_eq, heq] at hlt
        exact Int.ofNat_lt.mp hlt
      · have hle : qualityOf accept other ≤ qualityOf accept name :=
          hafter _ (List.mem_map_of_mem hother)
        rw [hr.qualityOf_eq, heq] at hle
        exact Int.ofNat_le.mp hle
    · intro hempty
      have hne : ∀ name ∈ supported, name ≠ [] := by decide
      exact absurd (hselect.symm.trans hempty) (hne name hmem)
    · intro hzero
      exact absurd (hzero name hmem q hquality) hq.ne'

-- a coding that is not wanted, and a wildcard for the others
example : selectEncoding (bytes "gzip;q=0, *;q=0.1") = bytes "br" := by decide +kernel

end Encoding

end Chhttp
