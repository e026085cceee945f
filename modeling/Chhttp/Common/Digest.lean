import Chhttp.Common.Text
import Chhttp.Lib.Loop
import Chhttp.Lib.Scan
import Chhttp.Lib.Search

/-!
# Digest authentication

`parse_digest_challenge` and `digest_auth` of `common.cpp`.  The parser moves a cursor over the text
by hand and reads characters by their index; a read behind the end is `none` here, and
`parseDigestChallenge_isSome` says that there is none.  The header that `digest_auth` returns is
read back by the parser, whatever the realm, the nonce, the opaque text, the user name and the URI
contain (`parseDigestChallenge_digestAuth`).

The hash functions are those of the cryptographic library.
-/

namespace Chhttp

open ListSearch

namespace Digest

/-! ### The parser -/

/-- `DigestChallenge`: the parameters of `WWW-Authenticate: Digest` that the client uses, as texts
without their quotes. -/
structure DigestChallenge where
  realm : Bytes := []
  nonce : Bytes := []
  opaqueText : Bytes := []
  algorithm : Bytes := bytes "MD5"
  qop : Bytes := []
  stale : Bool := false
  deriving DecidableEq

/-- `cursor < value.size() && value[cursor] == ch`. -/
def charAt (value : Bytes) (cursor : ℕ) (ch : UInt8) : Option Bool :=
  if cursor < value.length then value[cursor]?.map (· == ch) else some false

/-- `value.substr(position, count)`, which throws for a position behind the end. -/
def substr (value : Bytes) (position count : ℕ) : Option Bytes :=
  if position ≤ value.length then some ((value.drop position).take count) else none

/-- One iteration of a loop that moves the cursor over the characters of a class. -/
def skipStep (value : Bytes) (test : UInt8 → Bool) (cursor : ℕ) : Loop.Next ℕ (Option ℕ) :=
  if cursor < value.length then
    match value[cursor]? with
    | none => .leave none
    | some ch => if test ch then .again (cursor + 1) else .leave (some cursor)
  else .leave (some cursor)

/-- The cursor comes nearer to the end. -/
lemma skipStep_decreases (value : Bytes) (test : UInt8 → Bool) :
    Loop.Decreases (skipStep value test) (value.length - ·) := by
  intro cursor cursor' h
  rw [skipStep] at h
  split_ifs at h with hend
  rw [List.getElem?_eq_getElem hend] at h
  dsimp only at h
  split_ifs at h
  cases h
  dsimp only
  omega

/-- The cursor behind the characters of a class. -/
def skip (value : Bytes) (test : UInt8 → Bool) (cursor : ℕ) : Option ℕ :=
  Loop.run (skipStep value test) (value.length - ·) (skipStep_decreases value test) cursor

/-- One iteration of the loop over a quoted parameter; the result is none if the parameter is not
closed. -/
def quotedStep (value : Bytes) (s : ℕ × Bytes) :
    Loop.Next (ℕ × Bytes) (Option (Option (ℕ × Bytes))) :=
  if s.1 < value.length then
    match value[s.1]? with
    | none => .leave none
    | some ch =>
      if ch = quotationMark then .leave (some (some (s.1 + 1, s.2)))
      else if ch = backslash ∧ s.1 + 1 < value.length then
        match value[s.1 + 1]? with
        | none => .leave none
        | some next => .again (s.1 + 2, s.2 ++ [next])
      else .again (s.1 + 1, s.2 ++ [ch])
  else .leave (some none)

/-- The cursor only moves forward. -/
lemma quotedStep_again {value : Bytes} {s t : ℕ × Bytes} (h : quotedStep value s = .again t) :
    s.1 < value.length ∧ s.1 < t.1 := by
  rw [quotedStep] at h
  split_ifs at h with hend
  rw [List.getElem?_eq_getElem hend] at h
  dsimp only at h
  split_ifs at h with hmark hescape
  · rw [List.getElem?_eq_getElem hescape.2] at h
    cases h
    exact ⟨hend, Nat.lt_add_of_pos_right Nat.two_pos⟩
  · cases h
    exact ⟨hend, Nat.lt_succ_self _⟩

/-- The cursor comes nearer to the end. -/
lemma quotedStep_decreases (value : Bytes) :
    Loop.Decreases (quotedStep value) (fun s => value.length - s.1) := by
  intro s t h
  obtain ⟨hend, hlt⟩ := quotedStep_again h
  dsimp only
  omega

/-- A quoted parameter, and the cursor behind it. -/
def readQuoted (value : Bytes) (cursor : ℕ) : Option (Option (ℕ × Bytes)) :=
  Loop.run (quotedStep value) (fun s => value.length - s.1) (quotedStep_decreases value)
    (cursor, [])

/-- The value of a parameter, and the cursor behind it. -/
def readParameter (value : Bytes) (cursor : ℕ) : Option (Result (ℕ × Bytes)) := do
  if ← charAt value cursor quotationMark then
    match ← readQuoted value (cursor + 1) with
    | none => some (.error (protocolError "Unterminated Digest parameter"))
    | some read => some (.ok read)
  else
    let stop := (findFrom [comma] value cursor).getD value.length
    let parameter ← substr value cursor (stop - cursor)
    some (.ok (stop, trim parameter))

/-- `parameters`. -/
abbrev Parameters := Bytes → Option Bytes

/-- One iteration of the loop over the parameters. -/
def nextParameter (value : Bytes) (s : ℕ × Parameters) : Option (Result (ℕ × Parameters)) := do
  let keyBegin ← skip value (fun ch => ch == comma || isSpace ch) s.1
  let cursor ← skip value (fun ch => ch != equalSign && ch != comma) keyBegin
  if ← charAt value cursor equalSign then
    let key ← substr value keyBegin (cursor - keyBegin)
    match ← readParameter value (cursor + 1) with
    | .error e => some (.error e)
    | .ok (cursor, parameter) =>
      some (.ok (cursor, Function.update s.2 (lower (trim key)) (some parameter)))
  else some (.error (protocolError "Malformed Digest challenge"))

/-- The loop over the parameters. -/
def parametersStep (value : Bytes) (s : ℕ × Parameters) :
    Loop.Next (ℕ × Parameters) (Option (Result Parameters)) :=
  if s.1 < value.length then
    match nextParameter value s with
    | none => .leave none
    | some (.error e) => .leave (some (.error e))
    | some (.ok t) => .again t
  else .leave (some (.ok s.2))

/-! ### No read behind the end -/

/-- A test of the character at the cursor does not read behind the end. -/
lemma charAt_isSome (value : Bytes) (cursor : ℕ) (ch : UInt8) :
    ∃ found, charAt value cursor ch = some found ∧ (found = true → cursor < value.length) := by
  rw [charAt]
  by_cases hend : cursor < value.length
  · rw [if_pos hend, List.getElem?_eq_getElem hend]
    exact ⟨_, rfl, fun _ => hend⟩
  · rw [if_neg hend]
    exact ⟨_, rfl, nofun⟩

/-- Skipping moves the cursor on, and not behind the end. -/
lemma skip_isSome {value : Bytes} {cursor : ℕ} (hcursor : cursor ≤ value.length)
    (test : UInt8 → Bool) :
    ∃ c, skip value test cursor = some c ∧ cursor ≤ c ∧ c ≤ value.length := by
  refine Loop.run_induct (skipStep_decreases value test)
    (P := fun cursor result => cursor ≤ value.length →
      ∃ c, result = some c ∧ cursor ≤ c ∧ c ≤ value.length) ?_ ?_ cursor hcursor
  · intro cursor result h hcursor
    rw [skipStep] at h
    split_ifs at h with hend
    · rw [List.getElem?_eq_getElem hend] at h
      dsimp only at h
      split_ifs at h
      cases h
      exact ⟨cursor, rfl, le_rfl, hcursor⟩
    · cases h
      exact ⟨cursor, rfl, le_rfl, hcursor⟩
  · intro cursor cursor' result h ih hcursor
    rw [skipStep] at h
    split_ifs at h with hend
    rw [List.getElem?_eq_getElem hend] at h
    dsimp only at h
    split_ifs at h
    cases h
    obtain ⟨c, hc, hle, hlength⟩ := ih hend
    exact ⟨c, hc, by omega, hlength⟩

/-- So does reading a quoted parameter. -/
lemma readQuoted_isSome (value : Bytes) (cursor : ℕ) :
    ∃ read, readQuoted value cursor = some read ∧
      ∀ c parameter, read = some (c, parameter) → cursor ≤ c := by
  refine Loop.run_induct (quotedStep_decreases value)
    (P := fun s result => ∃ read, result = some read ∧
      ∀ c parameter, read = some (c, parameter) → s.1 ≤ c) ?_ ?_ (cursor, [])
  · intro s result h
    rw [quotedStep] at h
    split_ifs at h with hend
    · rw [List.getElem?_eq_getElem hend] at h
      dsimp only at h
      split_ifs at h with hmark hescape
      · cases h
        refine ⟨_, rfl, fun c parameter hread => ?_⟩
        cases hread
        exact Nat.le_succ _
      · rw [List.getElem?_eq_getElem hescape.2] at h
        cases h
    · cases h
      exact ⟨none, rfl, nofun⟩
  · intro s t result h ih
    obtain ⟨read, hresult, hle⟩ := ih
    refine ⟨read, hresult, fun c parameter hread => ?_⟩
    exact (quotedStep_again h).2.le.trans (hle c parameter hread)

/-- A search finds something at the cursor or later. -/
lemma le_getD_findFrom {value : Bytes} {cursor : ℕ} (hcursor : cursor ≤ value.length) :
    cursor ≤ (findFrom [comma] value cursor).getD value.length := by
  cases hfind : findFrom [comma] value cursor with
  | none => exact hcursor
  | some stop => exact (findFrom_bounds hcursor hfind).1

/-- A quoted parameter. -/
lemma readParameter_quoted {value : Bytes} {cursor : ℕ} {read : Option (ℕ × Bytes)}
    (hmark : charAt value cursor quotationMark = some true)
    (hread : readQuoted value (cursor + 1) = some read) :
    readParameter value cursor =
      some (read.elim (.error (protocolError "Unterminated Digest parameter")) .ok) := by
  rw [readParameter, hmark, Option.bind_eq_bind, Option.bind_some, if_pos rfl, hread,
    Option.bind_eq_bind, Option.bind_some]
  cases read <;> rfl

/-- A parameter that is not quoted. -/
lemma readParameter_bare {value : Bytes} {cursor : ℕ}
    (hmark : charAt value cursor quotationMark = some false) (hcursor : cursor ≤ value.length) :
    readParameter value cursor =
      some (.ok ((findFrom [comma] value cursor).getD value.length,
        trim ((value.drop cursor).take
          ((findFrom [comma] value cursor).getD value.length - cursor)))) := by
  simp only [readParameter, hmark, substr, hcursor, Option.bind_eq_bind, Option.bind_some,
    Bool.false_eq_true, if_false, if_true]

/-- A key and its parameter. -/
lemma nextParameter_eq {value : Bytes} {s : ℕ × Parameters} {keyBegin cursor c : ℕ}
    {parameter : Bytes}
    (hkey : skip value (fun ch => ch == comma || isSpace ch) s.1 = some keyBegin)
    (hlength : keyBegin ≤ value.length)
    (hcursor : skip value (fun ch => ch != equalSign && ch != comma) keyBegin = some cursor)
    (hequal : charAt value cursor equalSign = some true)
    (hread : readParameter value (cursor + 1) = some (.ok (c, parameter))) :
    nextParameter value s =
      some (.ok (c, Function.update s.2
        (lower (trim ((value.drop keyBegin).take (cursor - keyBegin)))) (some parameter))) := by
  simp only [nextParameter, hkey, hcursor, hequal, hread, substr, hlength, Option.bind_eq_bind,
    Option.bind_some, if_true]

/-- Reading a parameter moves the cursor on, and does not read behind the end. -/
lemma readParameter_isSome {value : Bytes} {cursor : ℕ} (hcursor : cursor ≤ value.length) :
    ∃ read, readParameter value cursor = some read ∧
      ∀ c parameter, read = .ok (c, parameter) → cursor ≤ c := by
  obtain ⟨found, hfound, -⟩ := charAt_isSome value cursor quotationMark
  cases found with
  | true =>
    obtain ⟨read, hread, hle⟩ := readQuoted_isSome value (cursor + 1)
    refine ⟨_, readParameter_quoted hfound hread, fun c parameter h => ?_⟩
    cases read with
    | none => cases h
    | some read =>
      cases h
      exact (Nat.le_succ _).trans (hle _ _ rfl)
  | false =>
    refine ⟨_, readParameter_bare hfound hcursor, fun c parameter h => ?_⟩
    cases h
    exact le_getD_findFrom hcursor

/-- An iteration does not read behind the end, and moves the cursor on. -/
lemma nextParameter_isSome {value : Bytes} {s : ℕ × Parameters} (hs : s.1 < value.length) :
    ∃ next, nextParameter value s = some next ∧ ∀ t, next = .ok t → s.1 < t.1 := by
  obtain ⟨keyBegin, hkey, hle, hlength⟩ :=
    skip_isSome hs.le (fun ch => ch == comma || isSpace ch)
  obtain ⟨cursor, hcursor, hle', hlength'⟩ :=
    skip_isSome hlength (fun ch => ch != equalSign && ch != comma)
  obtain ⟨found, hfound, hend⟩ := charAt_isSome value cursor equalSign
  cases found with
  | false =>
    refine ⟨.error (protocolError "Malformed Digest challenge"), ?_, fun t h => nomatch h⟩
    simp only [nextParameter, hkey, hcursor, hfound, Option.bind_eq_bind, Option.bind_some,
      Bool.false_eq_true, if_false]
  | true =>
    obtain ⟨read, hread, hread'⟩ := readParameter_isSome (Nat.succ_le_of_lt (hend rfl))
    cases read with
    | error e =>
      refine ⟨.error e, ?_, fun t h => nomatch h⟩
      simp only [nextParameter, hkey, hcursor, hfound, hread, substr, hlength, Option.bind_eq_bind,
        Option.bind_some, if_true]
    | ok read =>
      obtain ⟨c, parameter⟩ := read
      refine ⟨_, nextParameter_eq hkey hlength hcursor hfound hread, fun t h => ?_⟩
      cases h
      exact (hle.trans hle').trans_lt (hread' _ _ rfl)

/-- The loop over the parameters comes to an end. -/
lemma parametersStep_decreases (value : Bytes) :
    Loop.Decreases (parametersStep value) (fun s => value.length - s.1) := by
  intro s t h
  rw [parametersStep] at h
  split_ifs at h with hs
  obtain ⟨next, hnext, hlt⟩ := nextParameter_isSome hs
  rw [hnext] at h
  cases next with
  | error e => cases h
  | ok u =>
    cases h
    have := hlt t rfl
    dsimp only
    omega

/-- `parse_digest_challenge`; `none` is a read behind the end of the text, which the theorems
exclude. -/
def parseDigestChallenge (input : Bytes) : Option (Result DigestChallenge) :=
  let value := input.dropWhile isSpace
  match find [sp] value with
  | none => some (.error (protocolError "Authentication challenge is not Digest"))
  | some firstSpace =>
    if iequals (value.take firstSpace) (bytes "Digest") then
      let value := value.drop (firstSpace + 1)
      match Loop.run (parametersStep value) (fun s => value.length - s.1)
          (parametersStep_decreases value) (0, fun _ => none) with
      | none => none
      | some (.error e) => some (.error e)
      | some (.ok parameters) =>
        let challenge : DigestChallenge :=
          { realm := (parameters (bytes "realm")).getD []
            nonce := (parameters (bytes "nonce")).getD []
            opaqueText := (parameters (bytes "opaque")).getD []
            algorithm := (parameters (bytes "algorithm")).getD (bytes "MD5")
            qop := (parameters (bytes "qop")).getD []
            stale := iequals ((parameters (bytes "stale")).getD []) (bytes "true") }
        if challenge.realm = [] ∨ challenge.nonce = [] then
          some (.error (protocolError "Digest challenge is missing realm or nonce"))
        else some (.ok challenge)
    else some (.error (protocolError "Authentication challenge is not Digest"))

/-- The parser comes to an end on every input, and does not read behind the end.  The loops have no
bound of their own; each iteration moves the position forward. -/
lemma parseDigestChallenge_isSome (input : Bytes) :
    ∃ result, parseDigestChallenge input = some result := by
  have hloop : ∀ value : Bytes, ∃ result, Loop.run (parametersStep value)
      (fun s => value.length - s.1) (parametersStep_decreases value) (0, fun _ => none) =
        some result := by
    intro value
    refine Loop.run_induct (parametersStep_decreases value)
      (P := fun _ result => ∃ r, result = some r) ?_ (fun _ _ _ _ ih => ih) _
    intro s result h
    rw [parametersStep] at h
    split_ifs at h with hs
    · obtain ⟨next, hnext, -⟩ := nextParameter_isSome hs
      rw [hnext] at h
      cases next with
      | error e =>
        cases h
        exact ⟨_, rfl⟩
      | ok t => cases h
    · cases h
      exact ⟨_, rfl⟩
  rw [parseDigestChallenge]
  dsimp only
  split
  · exact ⟨_, rfl⟩
  · split_ifs with hscheme
    · obtain ⟨result, hresult⟩ := hloop ((input.dropWhile isSpace).drop (_ + 1))
      rw [hresult]
      cases result with
      | error e => exact ⟨_, rfl⟩
      | ok parameters =>
        dsimp only
        split_ifs <;> exact ⟨_, rfl⟩
    · exact ⟨_, rfl⟩

/-! ### The header -/

/-- The cryptographic library, where the hashes of a call of `digest_auth` are numbered.  It is a
parameter of the model: the theorems hold whatever it computes, and that a hash may fail is part of
it. -/
structure Crypto where
  /-- `EVP_MD_fetch` finds the digest of this name. -/
  fetch : Bytes → Bool
  /-- `EVP_MD_CTX_new` returns a context. -/
  context : ℕ → Bool
  /-- What `EVP_DigestInit_ex`, `EVP_DigestUpdate` and `EVP_DigestFinal_ex` leave in `output`, if
  they   succeed. -/
  digest : Bytes → ℕ → Bytes → Option Bytes

/-- `hash`, in hexadecimal digits. -/
def Crypto.hash (crypto : Crypto) (name : Bytes) (n : ℕ) (input : Bytes) : Result Bytes :=
  if crypto.context n then
    match crypto.digest name n input with
    | none => .error { code := .internal, message := "Digest hash failed" }
    | some output =>
      .ok (output.flatMap fun b => [digitByte (b.toNat / 16), digitByte (b.toNat % 16)])
  else .error { code := .internal, message := "Unable to allocate Digest context" }

/-- The name of the digest that an algorithm uses, without the suffix of a session. -/
def digestName (algorithm : Bytes) : Option Bytes :=
  if algorithm = bytes "md5" then some (bytes "MD5")
  else if algorithm = bytes "sha-256" then some (bytes "SHA256")
  else if algorithm = bytes "sha-512-256" then some (bytes "SHA512-256")
  else none

/-- `split_tokens`. -/
def splitTokens (value : Bytes) (separator : UInt8) : List Bytes :=
  ((value.splitOn separator).map trim).filter (· ≠ [])

/-- `selected_qop`. -/
def selectQop (qop : Bytes) : Result Bytes :=
  if qop = [] then .ok []
  else if (splitTokens qop comma).any (iequals · (bytes "auth")) then .ok (bytes "auth")
  else .error (protocolError "Digest qop=auth-int is not supported for streamed bodies")

/-- The nonce count in eight hexadecimal digits. -/
def nonceValue (nonceCount : UInt32) : Bytes :=
  (toChars 16 nonceCount.toNat).leftpad 8 0x30

/-- A character between quotation marks. -/
def escape (ch : UInt8) : Bytes :=
  if ch = quotationMark ∨ ch = backslash then [backslash, ch] else [ch]

/-- `quote`. -/
def quote (input : Bytes) : Bytes := quotationMark :: (input.flatMap escape ++ [quotationMark])

/-- `authorization`. -/
def authorization (username uri response : Bytes) (challenge : DigestChallenge)
    (selectedQop nonceValue cnonce : Bytes) : Bytes :=
  bytes "Digest username=" ++ quote username ++ bytes ", realm=" ++ quote challenge.realm ++
    bytes ", nonce=" ++ quote challenge.nonce ++ bytes ", uri=" ++ quote uri ++
    bytes ", response=" ++ quote response ++ bytes ", algorithm=" ++ challenge.algorithm ++
    (if challenge.opaqueText ≠ [] then bytes ", opaque=" ++ quote challenge.opaqueText else []) ++
    (if selectedQop ≠ [] then
      bytes ", qop=" ++ selectedQop ++ bytes ", nc=" ++ nonceValue ++ bytes ", cnonce=" ++
        quote cnonce
    else [])

/-- `ha1`. -/
def Crypto.ha1 (crypto : Crypto) (name : Bytes) (sessionAlgorithm : Bool)
    (username password : Bytes) (challenge : DigestChallenge) (cnonce : Bytes) : Result Bytes :=
  match crypto.hash name 0 (username ++ [colon] ++ challenge.realm ++ [colon] ++ password) with
  | .error e => .error e
  | .ok ha1 =>
    if sessionAlgorithm then
      crypto.hash name 1 (ha1 ++ [colon] ++ challenge.nonce ++ [colon] ++ cnonce)
    else .ok ha1

/-- `digest_auth`: the field value that answers a challenge, where `boundary` is what
`random_boundary` returns for a client nonce that is not given. -/
def digestAuth (crypto : Crypto) (boundary : Bytes) (method uri username password : Bytes)
    (challenge : DigestChallenge) (nonceCount : UInt32) (cnonce : Bytes) : Result Bytes := do
  let algorithm := lower challenge.algorithm
  let sessionAlgorithm := (bytes "-sess").isSuffixOf algorithm
  let algorithm :=
    if sessionAlgorithm then algorithm.take (algorithm.length - 5) else algorithm
  match digestName algorithm with
  | none =>
    .error (protocolError ("Unsupported Digest algorithm: " ++ text challenge.algorithm))
  | some name =>
    if !crypto.fetch name then
      .error { code := .internal, message := "Unable to load Digest hash algorithm" }
    else
      let cnonce := if cnonce.isEmpty then boundary else cnonce
      let ha1 ← crypto.ha1 name sessionAlgorithm username password challenge cnonce
      let ha2 ← crypto.hash name 2 (method ++ [colon] ++ uri)
      let selectedQop ← selectQop challenge.qop
      let responseInput :=
        if selectedQop = [] then ha1 ++ [colon] ++ challenge.nonce ++ [colon] ++ ha2
        else
          ha1 ++ [colon] ++ challenge.nonce ++ [colon] ++ nonceValue nonceCount ++ [colon] ++
            cnonce ++ [colon] ++ selectedQop ++ [colon] ++ ha2
      let response ← crypto.hash name 3 responseInput
      .ok (authorization username uri response challenge selectedQop (nonceValue nonceCount) cnonce)

/-! ### What is written is read -/

/-- The characters of a class are skipped. -/
lemma skip_eq {value before run after : Bytes} {test : UInt8 → Bool}
    (hvalue : value = before ++ run ++ after) (hrun : ∀ ch ∈ run, test ch = true)
    (hafter : ∀ ch ∈ after.head?, test ch = false) :
    skip value test before.length = some (before ++ run).length := by
  induction run generalizing before with
  | nil =>
    rw [List.append_nil] at hvalue ⊢
    refine Loop.run_of_leave _ ?_
    rw [skipStep]
    cases after with
    | nil =>
      rw [hvalue, List.append_nil, if_neg (Nat.lt_irrefl _)]
    | cons ch after =>
      have hget : value[before.length]? = some ch := by
        rw [hvalue, List.getElem?_append_right le_rfl, Nat.sub_self]
        rfl
      have hend := (List.getElem?_eq_some_iff.mp hget).1
      rw [if_pos hend, hget]
      dsimp only
      rw [if_neg (by simp [hafter ch rfl])]
  | cons ch run ih =>
    have hget : value[before.length]? = some ch := by
      rw [hvalue, List.append_assoc, List.getElem?_append_right le_rfl, Nat.sub_self]
      rfl
    have hend := (List.getElem?_eq_some_iff.mp hget).1
    have hstep : skipStep value test before.length = .again (before.length + 1) := by
      rw [skipStep, if_pos hend, hget]
      dsimp only
      rw [if_pos (hrun ch List.mem_cons_self)]
    have hnext := @ih (before ++ [ch]) (by rw [hvalue]; simp)
      fun x hx => hrun x (List.mem_cons_of_mem _ hx)
    rw [List.length_append, List.length_singleton] at hnext
    rw [skip, Loop.run_of_again _ hstep]
    refine hnext.trans ?_
    rw [List.append_assoc, List.singleton_append]

/-- The character at a position. -/
lemma getElem?_length {value before after : Bytes} {ch : UInt8}
    (hvalue : value = before ++ ch :: after) : value[before.length]? = some ch := by
  rw [hvalue, List.getElem?_append_right le_rfl, Nat.sub_self]
  rfl

/-- The test of a character at a position. -/
lemma charAt_length {value before after : Bytes} (hvalue : value = before ++ after) (ch : UInt8) :
    charAt value before.length ch = some (after.head? == some ch) := by
  cases after with
  | nil =>
    rw [List.append_nil] at hvalue
    rw [charAt, hvalue, if_neg (Nat.lt_irrefl _)]
    rfl
  | cons c after =>
    have hget := getElem?_length hvalue
    rw [charAt, if_pos (List.getElem?_eq_some_iff.mp hget).1, hget, List.head?_cons,
      Option.map_some]
    rfl

/-- The loop over a quoted parameter undoes the escapes. -/
lemma run_quotedStep {value before after : Bytes} (text read : Bytes)
    (hvalue : value = before ++ (text.flatMap escape ++ quotationMark :: after)) :
    Loop.run (quotedStep value) (fun s => value.length - s.1) (quotedStep_decreases value)
        (before.length, read) =
      some (some ((before ++ text.flatMap escape).length + 1, read ++ text)) := by
  induction text generalizing before read with
  | nil =>
    rw [List.flatMap_nil, List.nil_append] at hvalue
    rw [List.flatMap_nil, List.append_nil, List.append_nil]
    have hget := getElem?_length hvalue
    refine Loop.run_of_leave _ ?_
    rw [quotedStep, if_pos (List.getElem?_eq_some_iff.mp hget).1, hget]
    rfl
  | cons ch text ih =>
    rw [List.flatMap_cons, List.append_assoc] at hvalue
    have hescape : value =
        before ++ escape ch ++ (text.flatMap escape ++ quotationMark :: after) := by
      rw [hvalue, List.append_assoc]
    have hstep : quotedStep value (before.length, read) =
        .again ((before ++ escape ch).length, read ++ [ch]) := by
      rw [quotedStep]
      dsimp only
      by_cases hch : ch = quotationMark ∨ ch = backslash
      · rw [escape, if_pos hch] at hvalue hescape ⊢
        have hget := getElem?_length hvalue
        have hnext : value[before.length + 1]? = some ch := by
          have := @getElem?_length value (before ++ [backslash])
            (text.flatMap escape ++ quotationMark :: after) ch (by rw [hvalue]; simp)
          rwa [List.length_append, List.length_singleton] at this
        rw [if_pos (List.getElem?_eq_some_iff.mp hget).1, hget]
        dsimp only
        rw [if_neg (by decide), if_pos ⟨rfl, (List.getElem?_eq_some_iff.mp hnext).1⟩, hnext,
          List.length_append]
        rfl
      · rw [escape, if_neg hch] at hvalue hescape ⊢
        obtain ⟨hmark, hslash⟩ := not_or.mp hch
        have hget := getElem?_length hvalue
        rw [if_pos (List.getElem?_eq_some_iff.mp hget).1, hget]
        dsimp only
        rw [if_neg hmark, if_neg (fun h => hslash h.1), List.length_append]
        rfl
    rw [Loop.run_of_again _ hstep, ih (read ++ [ch]) hescape, List.flatMap_cons, List.append_assoc,
      List.append_assoc, List.singleton_append]

/-- A parameter as it is written.  It is quoted or bare; the same text may be written in both ways
if it has bare characters only. -/
structure Written where
  key : Bytes
  quoted : Bool
  text : Bytes

/-- The text of a parameter. -/
def Written.render (p : Written) : Bytes :=
  p.key ++ equalSign :: (if p.quoted then quote p.text else p.text)

/-- A character that is neither a separator nor space. -/
def bare (ch : UInt8) : Bool :=
  !isSpace ch && ch != comma && ch != quotationMark && ch != equalSign

/-- The key consists of bare characters in lower case, and so does a text that is not quoted.  Keys
in upper case are read in lower case, so they would not be read as they are written. -/
structure Written.Readable (p : Written) : Prop where
  key : ∀ ch ∈ p.key, bare ch = true
  lower : lower p.key = p.key
  text : p.quoted = false → ∀ ch ∈ p.text, bare ch = true

/-- Bare characters are not trimmed. -/
lemma trim_of_bare {text : Bytes} (h : ∀ ch ∈ text, bare ch = true) : trim text = text := by
  have hspace : ∀ ch ∈ text, isSpace ch = false := by
    intro ch hch
    have := h ch hch
    simp only [bare, Bool.and_eq_true, Bool.not_eq_true'] at this
    exact this.1.1.1
  exact trimWith_eq_self (fun ch hch => hspace ch (List.mem_of_mem_head? hch))
    fun ch hch => hspace ch (List.mem_of_mem_getLast? hch)

/-- A written parameter is read, where the next one, if any, begins with a comma. -/
lemma readParameter_render {value before after : Bytes} {p : Written} (hp : p.Readable)
    (hvalue : value = before ++ (if p.quoted then quote p.text else p.text) ++ after)
    (hafter : ∀ ch ∈ after.head?, ch = comma) :
    readParameter value before.length =
      some (.ok ((before ++ if p.quoted then quote p.text else p.text).length, p.text)) := by
  cases hquoted : p.quoted with
  | true =>
    rw [hquoted, if_pos rfl] at hvalue
    rw [if_pos rfl]
    rw [List.append_assoc] at hvalue
    have hmark : charAt value before.length quotationMark = some true := charAt_length hvalue _
    have hlength : (before ++ [quotationMark] ++ p.text.flatMap escape).length + 1 =
        (before ++ quote p.text).length := by
      simp only [quote, List.length_append, List.length_cons, List.length_nil]
      omega
    have hread : readQuoted value (before.length + 1) =
        some (some ((before ++ quote p.text).length, p.text)) := by
      have hrun := @run_quotedStep value (before ++ [quotationMark]) after p.text []
        (by rw [hvalue, quote]; simp)
      rw [hlength, List.length_append, List.length_singleton, List.nil_append] at hrun
      exact hrun
    exact readParameter_quoted hmark hread
  | false =>
    rw [hquoted, if_neg Bool.false_ne_true, List.append_assoc] at hvalue
    rw [if_neg Bool.false_ne_true]
    have htext := hp.text hquoted
    -- a bare value does not start with a quotation mark, nor does what follows an empty one
    have hmark : charAt value before.length quotationMark = some false := by
      rw [charAt_length hvalue, Option.some.injEq, beq_eq_false_iff_ne]
      intro hhead
      rcases htext' : p.text with _ | ⟨ch, rest⟩
      · rw [htext', List.nil_append] at hhead
        exact absurd (hafter _ hhead) (by decide)
      · rw [htext', List.cons_append, List.head?_cons, Option.some.injEq] at hhead
        have := htext ch (htext' ▸ List.mem_cons_self)
        rw [hhead] at this
        exact absurd this (by decide)
    have hcomma : comma ∉ p.text := fun hmem => absurd (htext _ hmem) (by decide)
    have hstop : (findFrom [comma] value before.length).getD value.length =
        (before ++ p.text).length := by
      have hlength : (before ++ p.text).length = p.text.length + before.length := by
        rw [List.length_append, Nat.add_comm]
      rw [findFrom, hvalue, List.drop_left]
      cases after with
      | nil =>
        rw [List.append_nil, find_singleton_eq_none.mpr hcomma]
        rfl
      | cons ch after =>
        rw [hafter ch rfl, find_singleton_append hcomma, hlength]
        rfl
    have hcursor : before.length ≤ value.length := by
      rw [hvalue, List.length_append]
      exact Nat.le_add_right _ _
    rw [readParameter_bare hmark hcursor, hstop, List.length_append, Nat.add_sub_cancel_left,
      hvalue, List.drop_left, List.take_left, trim_of_bare htext]

/-- A written parameter behind commas and space is read.  The position behind the comma is where the
next one starts, so the lemma is used once for each parameter. -/
lemma nextParameter_render {value before between after : Bytes} {p : Written} (hp : p.Readable)
    (hvalue : value = before ++ between ++ p.render ++ after)
    (hbetween : ∀ ch ∈ between, (ch == comma || isSpace ch) = true)
    (hafter : ∀ ch ∈ after.head?, ch = comma) (parameters : Parameters) :
    nextParameter value (before.length, parameters) =
      some (.ok ((before ++ between ++ p.render).length,
        Function.update parameters p.key (some p.text))) := by
  have hbare : ∀ ch ∈ p.key, isSpace ch = false ∧ ch ≠ comma ∧ ch ≠ equalSign := by
    intro ch hch
    have := hp.key ch hch
    simp only [bare, Bool.and_eq_true, Bool.not_eq_true', bne_iff_ne] at this
    exact ⟨this.1.1.1, this.1.1.2, this.2⟩
  obtain ⟨body, hbody⟩ : ∃ body, body = if p.quoted then quote p.text else p.text := ⟨_, rfl⟩
  rw [Written.render, ← hbody] at hvalue ⊢
  -- the three searches of the source, each stopping where the next part begins
  have hkeyBegin : skip value (fun ch => ch == comma || isSpace ch) before.length =
      some (before ++ between).length := by
    refine @skip_eq value before between (p.key ++ equalSign :: body ++ after) _
      (by rw [hvalue, List.append_assoc (before ++ between)]) hbetween fun ch hch => ?_
    rcases hkey : p.key with _ | ⟨first, rest⟩
    · rw [hkey] at hch
      cases hch
      decide
    · rw [hkey] at hch
      cases hch
      obtain ⟨hspace, hcomma, -⟩ := hbare ch (hkey ▸ List.mem_cons_self)
      rw [hspace, Bool.or_false, beq_eq_false_iff_ne]
      exact hcomma
  have hcursor : skip value (fun ch => ch != equalSign && ch != comma) (before ++ between).length =
      some (before ++ between ++ p.key).length := by
    refine @skip_eq value (before ++ between) p.key (equalSign :: body ++ after) _
      (by rw [hvalue]; simp) (fun ch hch => ?_) fun ch hch => ?_
    · obtain ⟨-, hcomma, hequal⟩ := hbare ch hch
      rw [Bool.and_eq_true, bne_iff_ne, bne_iff_ne]
      exact ⟨hequal, hcomma⟩
    · cases hch
      decide
  have hequal : charAt value (before ++ between ++ p.key).length equalSign = some true :=
    @charAt_length value (before ++ between ++ p.key) (equalSign :: body ++ after)
      (by rw [hvalue]; simp) _
  have hread := @readParameter_render value (before ++ between ++ p.key ++ [equalSign]) after p hp
    (by rw [← hbody, hvalue]; simp) hafter
  have hnext : (before ++ between ++ p.key ++ [equalSign]).length =
      (before ++ between ++ p.key).length + 1 := List.length_append
  rw [← hbody, hnext] at hread
  have hlength : (before ++ between).length ≤ value.length := by
    rw [hvalue]
    simp only [List.length_append]
    omega
  have hkey : (value.drop (before ++ between).length).take
      ((before ++ between ++ p.key).length - (before ++ between).length) = p.key := by
    rw [hvalue, List.append_assoc (before ++ between), List.drop_left, List.length_append,
      Nat.add_sub_cancel_left, List.append_assoc, List.take_left]
  rw [nextParameter_eq hkeyBegin hlength hcursor hequal hread, hkey, trim_of_bare hp.key, hp.lower]
  simp

/-- A parameter that has been read.  A later parameter of the same name replaces it. -/
def record (parameters : Parameters) (p : Written) : Parameters :=
  Function.update parameters p.key (some p.text)

/-- An iteration over a written parameter. -/
lemma parametersStep_render {value before between after : Bytes} {p : Written} (hp : p.Readable)
    (hvalue : value = before ++ between ++ p.render ++ after)
    (hbetween : ∀ ch ∈ between, (ch == comma || isSpace ch) = true)
    (hafter : ∀ ch ∈ after.head?, ch = comma) (parameters : Parameters) :
    parametersStep value (before.length, parameters) =
      .again ((before ++ between ++ p.render).length, record parameters p) := by
  have hend : before.length < value.length := by
    rw [hvalue, Written.render]
    simp only [List.length_append, List.length_cons]
    omega
  rw [parametersStep, if_pos hend, nextParameter_render hp hvalue hbetween hafter]
  rfl

/-- Further parameters begin with a comma. -/
lemma head?_flatMap_render {written : List Written} {ch : UInt8}
    (h : ch ∈ (written.flatMap fun p => bytes ", " ++ p.render).head?) : ch = comma := by
  cases written with
  | nil => cases h
  | cons => cases h; rfl

/-- Written parameters, each behind a comma and a blank, are all read. -/
lemma run_parametersStep {value before : Bytes} {written : List Written}
    (hwritten : ∀ p ∈ written, p.Readable)
    (hvalue : value = before ++ written.flatMap fun p => bytes ", " ++ p.render)
    (parameters : Parameters) :
    Loop.run (parametersStep value) (fun s => value.length - s.1) (parametersStep_decreases value)
        (before.length, parameters) =
      some (.ok (written.foldl record parameters)) := by
  induction written generalizing before parameters with
  | nil =>
    rw [List.flatMap_nil, List.append_nil] at hvalue
    refine Loop.run_of_leave _ ?_
    rw [parametersStep, hvalue, if_neg (Nat.lt_irrefl _)]
    rfl
  | cons p written ih =>
    obtain ⟨hp, hwritten⟩ := List.forall_mem_cons.mp hwritten
    have hvalue' : value = before ++ bytes ", " ++ p.render ++
        written.flatMap fun p => bytes ", " ++ p.render := by
      rw [hvalue, List.flatMap_cons]
      simp only [List.append_assoc]
    have hstep := parametersStep_render hp hvalue' (by decide +kernel)
      (fun ch => head?_flatMap_render) parameters
    rw [Loop.run_of_again _ hstep, ih hwritten hvalue', List.foldl_cons]

/-- What is looked up in parameters with different keys. -/
lemma foldl_update_of_mem {written : List Written} (hkeys : (written.map Written.key).Nodup)
    {p : Written} (hp : p ∈ written) (parameters : Parameters) :
    written.foldl record parameters p.key = some p.text := by
  induction written using List.reverseRecOn with
  | nil => cases hp
  | append_singleton written last ih =>
    rw [List.foldl_append, List.foldl_cons, List.foldl_nil]
    rw [List.map_append, List.nodup_append] at hkeys
    rcases List.mem_append.mp hp with hp | hp
    · have hne : p.key ≠ last.key :=
        hkeys.2.2 _ (List.mem_map_of_mem hp) _ (List.mem_singleton_self _)
      rw [record, Function.update_of_ne hne]
      exact ih hkeys.1 hp
    · rw [List.mem_singleton.mp hp, record, Function.update_self]

/-- What is looked up, and not there. -/
lemma foldl_update_of_not_mem {written : List Written} {key : Bytes}
    (hkey : key ∉ written.map Written.key) (parameters : Parameters) :
    written.foldl record parameters key = parameters key := by
  induction written generalizing parameters with
  | nil => rfl
  | cons p written ih =>
    rw [List.map_cons, List.mem_cons, not_or] at hkey
    rw [List.foldl_cons, ih hkey.2, record, Function.update_of_ne hkey.1]

/-! ### The round trip -/

/-- The parameters of the header behind the user name. -/
def writtenParameters (uri response : Bytes) (challenge : DigestChallenge)
    (selectedQop nonceValue cnonce : Bytes) : List Written :=
  [⟨bytes "realm", true, challenge.realm⟩, ⟨bytes "nonce", true, challenge.nonce⟩,
      ⟨bytes "uri", true, uri⟩, ⟨bytes "response", true, response⟩,
      ⟨bytes "algorithm", false, challenge.algorithm⟩] ++
    (if challenge.opaqueText ≠ [] then [⟨bytes "opaque", true, challenge.opaqueText⟩] else []) ++
    (if selectedQop ≠ [] then
      [⟨bytes "qop", false, selectedQop⟩, ⟨bytes "nc", false, nonceValue⟩,
        ⟨bytes "cnonce", true, cnonce⟩]
    else [])

/-- The header consists of its parameters. -/
lemma authorization_eq (username uri response : Bytes) (challenge : DigestChallenge)
    (selectedQop nonceValue cnonce : Bytes) :
    authorization username uri response challenge selectedQop nonceValue cnonce =
      bytes "Digest " ++ (Written.render ⟨bytes "username", true, username⟩ ++
        (writtenParameters uri response challenge selectedQop nonceValue cnonce).flatMap
          fun p => bytes ", " ++ p.render) := by
  have husername : bytes "Digest username=" =
      bytes "Digest " ++ bytes "username" ++ [equalSign] := rfl
  have hrealm : bytes ", realm=" = bytes ", " ++ bytes "realm" ++ [equalSign] := rfl
  have hnonce : bytes ", nonce=" = bytes ", " ++ bytes "nonce" ++ [equalSign] := rfl
  have huri : bytes ", uri=" = bytes ", " ++ bytes "uri" ++ [equalSign] := rfl
  have hresponse : bytes ", response=" = bytes ", " ++ bytes "response" ++ [equalSign] := rfl
  have halgorithm : bytes ", algorithm=" = bytes ", " ++ bytes "algorithm" ++ [equalSign] := rfl
  have hopaque : bytes ", opaque=" = bytes ", " ++ bytes "opaque" ++ [equalSign] := rfl
  have hqop : bytes ", qop=" = bytes ", " ++ bytes "qop" ++ [equalSign] := rfl
  have hnc : bytes ", nc=" = bytes ", " ++ bytes "nc" ++ [equalSign] := rfl
  have hcnonce : bytes ", cnonce=" = bytes ", " ++ bytes "cnonce" ++ [equalSign] := rfl
  rw [authorization, writtenParameters, husername, hrealm, hnonce, huri, hresponse, halgorithm,
    hopaque, hqop, hnc, hcnonce]
  split_ifs <;>
    simp only [Written.render, List.append_assoc, List.flatMap_cons, List.flatMap_nil,
      List.append_nil, List.nil_append, List.cons_append, if_true, Bool.false_eq_true, if_false]

/-- The keys of the header are different. -/
lemma nodup_keys (uri response : Bytes) (challenge : DigestChallenge)
    (selectedQop nonceValue cnonce : Bytes) :
    ((writtenParameters uri response challenge selectedQop nonceValue cnonce).map
      Written.key).Nodup := by
  rw [writtenParameters]
  split_ifs <;> simp only [List.map_append, List.map_cons, List.map_nil] <;> decide +kernel

/-- A quoted parameter with a key in lower case is readable. -/
lemma readable_quoted {key : Bytes} (hkey : key.all bare = true) (hlower : lower key = key)
    (text : Bytes) : Written.Readable ⟨key, true, text⟩ :=
  ⟨List.all_eq_true.mp hkey, hlower, fun h => nomatch h⟩

/-- So is one with a bare text. -/
lemma readable_bare {key text : Bytes} (hkey : key.all bare = true) (hlower : lower key = key)
    (htext : ∀ ch ∈ text, bare ch = true) : Written.Readable ⟨key, false, text⟩ :=
  ⟨List.all_eq_true.mp hkey, hlower, fun _ => htext⟩

/-- All parameters of the header are readable. -/
lemma readable_writtenParameters (uri response : Bytes) {challenge : DigestChallenge}
    {selectedQop nonceValue : Bytes} (cnonce : Bytes)
    (halgorithm : ∀ ch ∈ challenge.algorithm, bare ch = true)
    (hqop : ∀ ch ∈ selectedQop, bare ch = true) (hnonceValue : ∀ ch ∈ nonceValue, bare ch = true) :
    ∀ p ∈ writtenParameters uri response challenge selectedQop nonceValue cnonce,
      p.Readable := by
  rw [writtenParameters]
  refine List.forall_mem_append.mpr ⟨List.forall_mem_append.mpr ⟨?_, ?_⟩, ?_⟩
  · simp only [List.forall_mem_cons]
    exact ⟨readable_quoted (by decide) (by decide) _,
      readable_quoted (by decide) (by decide) _,
      readable_quoted (by decide) (by decide) _,
      readable_quoted (by decide) (by decide) _,
      readable_bare (by decide) (by decide) halgorithm, by simp⟩
  · split_ifs
    · rw [List.forall_mem_singleton]
      exact readable_quoted (by decide) (by decide) _
    · simp
  · split_ifs
    · simp only [List.forall_mem_cons]
      exact ⟨readable_bare (by decide) (by decide) hqop,
        readable_bare (by decide) (by decide) hnonceValue,
        readable_quoted (by decide) (by decide) _, by simp⟩
    · simp

/-- What is recorded of the parameters that were written. -/
lemma parameters_written (username uri response : Bytes) (challenge : DigestChallenge)
    (selectedQop nonceValue cnonce : Bytes) :
    let parameters := (writtenParameters uri response challenge selectedQop nonceValue cnonce).foldl
      record (record (fun _ => none) ⟨bytes "username", true, username⟩)
    parameters (bytes "realm") = some challenge.realm ∧
      parameters (bytes "nonce") = some challenge.nonce ∧
      parameters (bytes "algorithm") = some challenge.algorithm ∧
      (parameters (bytes "opaque")).getD [] = challenge.opaqueText := by
  intro parameters
  obtain ⟨written, hwritten⟩ : ∃ written, written =
      writtenParameters uri response challenge selectedQop nonceValue cnonce := ⟨_, rfl⟩
  have hparameters : parameters =
      written.foldl record (record (fun _ => none) ⟨bytes "username", true, username⟩) := by
    rw [hwritten]
  have hkeys : (written.map Written.key).Nodup := hwritten ▸ nodup_keys ..
  have hmem : ∀ p ∈ written, parameters p.key = some p.text := by
    intro p hp
    rw [hparameters, foldl_update_of_mem hkeys hp]
  refine ⟨hmem ⟨bytes "realm", true, challenge.realm⟩ (by simp [hwritten, writtenParameters]),
    hmem ⟨bytes "nonce", true, challenge.nonce⟩ (by simp [hwritten, writtenParameters]),
    hmem ⟨bytes "algorithm", false, challenge.algorithm⟩ (by simp [hwritten, writtenParameters]), ?_⟩
  by_cases hempty : challenge.opaqueText = []
  · have hkey : bytes "opaque" ∉ written.map Written.key := by
      rw [hwritten, writtenParameters, hempty, if_neg (not_not.mpr rfl)]
      split_ifs <;> simp only [List.map_append, List.map_cons, List.map_nil] <;> decide
    have hother : bytes "opaque" ≠ bytes "username" := by decide
    rw [hparameters, foldl_update_of_not_mem hkey, record, Function.update_of_ne hother, hempty]
    rfl
  · rw [hmem ⟨bytes "opaque", true, challenge.opaqueText⟩
      (by simp [hwritten, writtenParameters, hempty]), Option.getD_some]

/-- The header is read back. -/
lemma parseDigestChallenge_authorization (username uri response : Bytes)
    {challenge : DigestChallenge} {selectedQop nonceValue : Bytes} (cnonce : Bytes)
    (hrealm : challenge.realm ≠ []) (hnonce : challenge.nonce ≠ [])
    (halgorithm : ∀ ch ∈ challenge.algorithm, bare ch = true)
    (hqop : ∀ ch ∈ selectedQop, bare ch = true) (hnonceValue : ∀ ch ∈ nonceValue, bare ch = true) :
    ∃ parsed, parseDigestChallenge
        (authorization username uri response challenge selectedQop nonceValue cnonce) =
          some (.ok parsed) ∧
      parsed.realm = challenge.realm ∧ parsed.nonce = challenge.nonce ∧
      parsed.opaqueText = challenge.opaqueText ∧ parsed.algorithm = challenge.algorithm := by
  obtain ⟨written, hwritten⟩ : ∃ written, written =
      writtenParameters uri response challenge selectedQop nonceValue cnonce := ⟨_, rfl⟩
  have hreadable : ∀ p ∈ written, p.Readable :=
    hwritten ▸ readable_writtenParameters uri response cnonce halgorithm hqop hnonceValue
  rw [authorization_eq, ← hwritten]
  obtain ⟨body, hbody⟩ : ∃ body, body = Written.render ⟨bytes "username", true, username⟩ ++
      written.flatMap fun p => bytes ", " ++ p.render := ⟨_, rfl⟩
  -- the scheme
  have hspace : (bytes "Digest " ++ body).dropWhile isSpace = bytes "Digest" ++ sp :: body := rfl
  have hfind : find [sp] (bytes "Digest" ++ sp :: body) = some (bytes "Digest").length :=
    find_singleton_append (by decide)
  have hrest : (bytes "Digest" ++ sp :: body).drop ((bytes "Digest").length + 1) = body := rfl
  -- the first parameter, and the others
  have hfirst := @parametersStep_render body [] [] _ ⟨bytes "username", true, username⟩
    (readable_quoted (by decide) (by decide) username) hbody (by simp)
    (fun ch => head?_flatMap_render) (fun _ => none)
  obtain ⟨parameters, hparameters⟩ : ∃ parameters, parameters =
      written.foldl record (record (fun _ => none) ⟨bytes "username", true, username⟩) := ⟨_, rfl⟩
  have hloop : Loop.run (parametersStep body) (fun s => body.length - s.1)
      (parametersStep_decreases body) (0, fun _ => none) = some (.ok parameters) := by
    rw [hparameters]
    exact (Loop.run_of_again (parametersStep_decreases body) hfirst).trans
      (run_parametersStep hreadable hbody _)
  have hlookup := parameters_written username uri response challenge selectedQop nonceValue cnonce
  simp only [← hwritten, ← hparameters] at hlookup
  obtain ⟨hrealm', hnonce', halgorithm', hopaque⟩ := hlookup
  refine ⟨{ realm := challenge.realm, nonce := challenge.nonce, opaqueText := challenge.opaqueText
            algorithm := challenge.algorithm, qop := (parameters (bytes "qop")).getD []
            stale := iequals ((parameters (bytes "stale")).getD []) (bytes "true") },
    ?_, rfl, rfl, rfl, rfl⟩
  rw [← hbody, parseDigestChallenge, hspace]
  dsimp only
  rw [hfind]
  dsimp only
  rw [List.take_left, if_pos (iequals_refl _), hrest, hloop]
  dsimp only
  rw [hrealm', hnonce', halgorithm', hopaque, Option.getD_some, Option.getD_some,
    if_neg (not_or.mpr ⟨hrealm, hnonce⟩)]
  rfl

/-- A character is bare if it is bare in lower case. -/
lemma bare_of_foldCase {ch : UInt8} (h : bare (foldCase ch) = true) : bare ch = true := by
  have hall : ∀ n : Fin 256, bare (foldCase (UInt8.ofNat n)) = true →
      bare (UInt8.ofNat n) = true := by decide +kernel
  have := hall ⟨ch.toNat, ch.toNat_lt⟩
  rw [UInt8.ofNat_toNat] at this
  exact this h

/-- A supported algorithm consists of bare characters. -/
lemma bare_of_digestName {algorithm name : Bytes}
    (h : digestName (if (bytes "-sess").isSuffixOf (lower algorithm) then
      (lower algorithm).take ((lower algorithm).length - 5) else lower algorithm) = some name) :
    ∀ ch ∈ algorithm, bare ch = true := by
  have hname : ∀ text, digestName text = some name → ∀ ch ∈ text, bare ch = true := by
    intro text htext
    rw [digestName] at htext
    split_ifs at htext with hmd5 hsha256 hsha512
    · rw [hmd5]
      exact List.all_eq_true.mp (by decide)
    · rw [hsha256]
      exact List.all_eq_true.mp (by decide)
    · rw [hsha512]
      exact List.all_eq_true.mp (by decide)
  have hlower : ∀ ch ∈ lower algorithm, bare ch = true := by
    split_ifs at h with hsession
    · obtain ⟨base, hbase⟩ := List.isSuffixOf_iff_suffix.mp hsession
      rw [← hbase] at h ⊢
      have htake : (base ++ bytes "-sess").take ((base ++ bytes "-sess").length - 5) = base := by
        rw [List.length_append]
        exact List.take_left
      rw [htake] at h
      intro ch hch
      rcases List.mem_append.mp hch with hch | hch
      · exact hname base h ch hch
      · have hsess : ∀ ch ∈ bytes "-sess", bare ch = true := List.all_eq_true.mp (by decide)
        exact hsess ch hch
    · exact hname _ h
  exact fun ch hch => bare_of_foldCase (hlower _ (List.mem_map_of_mem hch))

/-- The nonce count consists of bare characters. -/
lemma bare_nonceValue (nonceCount : UInt32) : ∀ ch ∈ nonceValue nonceCount, bare ch = true := by
  intro ch hch
  rw [nonceValue, List.leftpad] at hch
  rcases List.mem_append.mp hch with hch | hch
  · rw [List.eq_of_mem_replicate hch]
    decide
  · obtain ⟨d, hd, rfl⟩ := mem_toChars (by decide) (by decide) hch
    have hall : ∀ d < 36, bare (digitByte d) = true := by decide
    exact hall d hd

/-- A header is made from a supported algorithm, with `auth` or without a quality of protection. -/
lemma digestAuth_eq_ok {crypto : Crypto}
    {boundary method uri username password cnonce header : Bytes}
    {challenge : DigestChallenge} {nonceCount : UInt32}
    (h : digestAuth crypto boundary method uri username password challenge nonceCount cnonce =
      .ok header) :
    (∀ ch ∈ challenge.algorithm, bare ch = true) ∧
      ∃ response selectedQop cnonce', (∀ ch ∈ selectedQop, bare ch = true) ∧
        header = authorization username uri response challenge selectedQop
          (nonceValue nonceCount) cnonce' := by
  rw [digestAuth] at h
  dsimp only at h
  split at h
  · cases h
  · rename_i name hname
    refine ⟨bare_of_digestName hname, ?_⟩
    split at h
    · cases h
    simp only [Scan.bind_eq_ok] at h
    obtain ⟨ha1, -, ha2, -, selectedQop, hqop, response, -, hheader⟩ := h
    cases hheader
    refine ⟨response, selectedQop, _, ?_, rfl⟩
    rw [selectQop] at hqop
    split_ifs at hqop
    · cases hqop
      exact fun ch hch => absurd hch List.not_mem_nil
    · cases hqop
      exact List.all_eq_true.mp (by decide)

/-- The parser comes to an end on every input without a read behind its end; and whatever the
realm, the nonce, the opaque text, the user name and the URI contain, a header that `digest_auth`
returns is read back, with the same realm, nonce, opaque text and algorithm. -/
theorem parseDigestChallenge_digestAuth (crypto : Crypto)
    (boundary method uri username password : Bytes) (challenge : DigestChallenge)
    (nonceCount : UInt32) (cnonce : Bytes) :
    (∀ input, ∃ result, parseDigestChallenge input = some result) ∧
      (challenge.realm ≠ [] → challenge.nonce ≠ [] → ∀ header,
        digestAuth crypto boundary method uri username password challenge nonceCount cnonce =
            .ok header →
          ∃ parsed, parseDigestChallenge header = some (.ok parsed) ∧
            parsed.realm = challenge.realm ∧ parsed.nonce = challenge.nonce ∧
            parsed.opaqueText = challenge.opaqueText ∧
            parsed.algorithm = challenge.algorithm) := by
  refine ⟨parseDigestChallenge_isSome, fun hrealm hnonce header h => ?_⟩
  obtain ⟨halgorithm, response, selectedQop, cnonce', hqop, rfl⟩ := digestAuth_eq_ok h
  exact parseDigestChallenge_authorization username uri response cnonce' hrealm hnonce halgorithm
    hqop (bare_nonceValue nonceCount)

/-- MD5 where it is needed for the user `u` with the password `p` and a realm with a quotation mark
and a comma. -/
def md5 (input : Bytes) : Option Bytes :=
  if input = bytes "u:a\",b:p" then
    some [0xe5, 0x46, 0x9f, 0x1b, 0x5a, 0x13, 0x5a, 0x48, 0x7b, 0x3b, 0x3a, 0x24,
      0x81, 0x5e, 0xa8, 0x76]
  else if input = bytes "GET:/" then
    some [0x71, 0x99, 0x8c, 0x64, 0xae, 0xa3, 0x7a, 0xe7, 0x70, 0x20, 0xc4, 0x9c,
      0x00, 0xf7, 0x3f, 0xa8]
  else if input = bytes "e5469f1b5a135a487b3b3a24815ea876:n:71998c64aea37ae77020c49c00f73fa8" then
    some [0xb8, 0x91, 0x02, 0x6e, 0xe3, 0x69, 0xec, 0xd0, 0x88, 0x16, 0x72, 0x9f,
      0xdf, 0xf7, 0x0e, 0xa2]
  else none

/-- The header for this user is read back. -/
theorem parseDigestChallenge_digestAuth_of_md5 :
    let challenge : DigestChallenge := { realm := bytes "a\",b", nonce := bytes "n" }
    let header := bytes ("Digest username=\"u\", realm=\"a\\\",b\", nonce=\"n\", uri=\"/\", " ++
      "response=\"b891026ee369ecd08816729fdff70ea2\", algorithm=MD5")
    digestAuth ⟨fun _ => true, fun _ => true, fun _ _ => md5⟩ (bytes "b") (bytes "GET") (bytes "/")
        (bytes "u") (bytes "p") challenge 1 [] = .ok header ∧
      ∃ parsed, parseDigestChallenge header = some (.ok parsed) ∧
        parsed.realm = bytes "a\",b" ∧ parsed.nonce = bytes "n" := by
  intro challenge header
  have hheader : digestAuth ⟨fun _ => true, fun _ => true, fun _ _ => md5⟩ (bytes "b") (bytes "GET")
      (bytes "/") (bytes "u") (bytes "p") challenge 1 [] = .ok header := by decide +kernel
  obtain ⟨parsed, hparsed, hrealm, hnonce, -⟩ :=
    (parseDigestChallenge_digestAuth _ _ _ _ _ _ _ _ _).2 (by decide) (by decide)
      header hheader
  exact ⟨hheader, parsed, hparsed, hrealm, hnonce⟩

end Digest

end Chhttp
