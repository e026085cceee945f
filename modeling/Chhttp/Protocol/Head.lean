import Chhttp.Common.Headers
import Chhttp.Lib.Loop
import Chhttp.Lib.Scan
import Chhttp.Protocol.Lines

/-!
# Message heads

`parseHead` is `parse_head`: it takes the bytes of a head through the line end of the last field,
validates every field line, and extracts the framing controls (`Content-Length`,
`Transfer-Encoding`, `Host`, `Connection`, `Expect`) while it passes over them.

What it computes is a function of the field list: `scanned` is the state of the scan after a list
of fields, `Scannable` says which lists the scan accepts, and `parseHead_eq_ok` puts both together
with the checks at the end.
-/

namespace Chhttp

open ListSearch

/-- The struct `ParsedHead`.  Framing and persistence are decided from these findings and not from
the fields again, so each theorem on a head has to say what the findings are. -/
structure ParsedHead where
  startLine : Bytes
  headers : Headers := []
  contentLength : Option ℕ := none
  chunked : Bool := false
  hosts : ℕ := 0
  invalidHost : Bool := false
  connectionClose : Bool := false
  connectionKeepAlive : Bool := false
  hasExpect : Bool := false
  expectContinue : Bool := false
  deriving DecidableEq

/-- `ParsedHead` together with the local variables of `parse_head`.  The codings are counted over
all fields, and the rules on them are checked when the last field is in. -/
structure HeadScan extends ParsedHead where
  transferCodings : ℕ := 0
  finalChunked : Bool := false

/-- `visit_framing_values`: hand the comma-separated values of a field to `consume`. -/
def visitFramingValues {σ : Type} (input : Bytes) (field : String)
    (consume : σ → Bytes → Result σ) (state : σ) : Result σ :=
  ((input.splitOn comma).map trimOws).foldlM (fun state value =>
    if value.isEmpty then .error (protocolError ("Empty value in " ++ field))
    else consume state value) state

/-- The visitor of `Content-Length` values; the state is `result.content_length`. -/
def visitContentLength (contentLength : Option ℕ) (value : Bytes) : Result (Option ℕ) :=
  match fromChars 10 uint64Limit value with
  | none => .error (protocolError "Invalid Content-Length")
  | some parsed =>
    if contentLength.isSome ∧ contentLength ≠ some parsed then
      .error (protocolError "Conflicting Content-Length headers")
    else .ok (some parsed)

/-- The visitor of `Transfer-Encoding` values; the state is `transfer_codings` and
`final_chunked`. -/
def visitTransferEncoding (state : ℕ × Bool) (coding : Bytes) : Result (ℕ × Bool) :=
  if coding.contains semicolon then
    .error (protocolError "Transfer-Encoding parameters are not supported")
  else .ok (state.1 + 1, iequals coding (bytes "chunked"))

/-- The checks of one field line: its name and its value without surrounding blanks. -/
def fieldOf (line : Bytes) : Result (Bytes × Bytes) :=
  if line.head? = some sp ∨ line.head? = some htab then
    .error (protocolError "Obsolete folded HTTP header rejected")
  else
    match find [colon] line with
    | none => .error (protocolError "HTTP header has no colon")
    | some n =>
      let name := line.take n
      let value := trimOws (line.drop (n + 1))
      if !validHeaderName name || !validHeaderValue value then
        .error (protocolError "Invalid HTTP header field")
      else .ok (name, value)

/-- The `switch` on the size of the name: what a field adds to the protocol controls. -/
def scanControls (s : HeadScan) (name value : Bytes) : Result HeadScan :=
  match name.length with
  | 4 =>
    if iequals name (bytes "Host") then
      .ok { s with hosts := s.hosts + 1,
                   invalidHost := s.invalidHost || (value.isEmpty || value.contains comma) }
    else .ok s
  | 6 =>
    if iequals name (bytes "Expect") then
      .ok { s with hasExpect := true,
                   expectContinue :=
                     s.expectContinue || headerValueHasToken value (bytes "100-continue") }
    else .ok s
  | 10 =>
    if iequals name (bytes "Connection") then
      .ok { s with connectionClose :=
                     s.connectionClose || headerValueHasToken value (bytes "close"),
                   connectionKeepAlive :=
                     s.connectionKeepAlive || headerValueHasToken value (bytes "keep-alive") }
    else .ok s
  | 14 =>
    if iequals name (bytes "Content-Length") then
      match visitFramingValues value "Content-Length" visitContentLength s.contentLength with
      | .error e => .error e
      | .ok contentLength => .ok { s with contentLength }
    else .ok s
  | 17 =>
    if iequals name (bytes "Transfer-Encoding") then
      match visitFramingValues value "Transfer-Encoding" visitTransferEncoding
          (s.transferCodings, s.finalChunked) with
      | .error e => .error e
      | .ok (transferCodings, finalChunked) => .ok { s with transferCodings, finalChunked }
    else .ok s
  | _ => .ok s

/-- One validated field: its controls, and the field itself in wire order. -/
def scanField (s : HeadScan) (field : Bytes × Bytes) : Result HeadScan :=
  match scanControls s field.1 field.2 with
  | .error e => .error e
  | .ok s => .ok { s with headers := s.headers.add field.1 field.2 }

/-- One iteration of the loop over the field lines; the state is what follows the cursor. -/
def headStep : Bytes × HeadScan → Loop.Next (Bytes × HeadScan) (Result HeadScan)
  | (input, s) =>
    if input.isEmpty then .leave (.ok s)
    else
      match find crlf input with
      | none => .leave (.error (protocolError "Malformed HTTP header termination"))
      | some lineEnd =>
        let line := input.take lineEnd
        if line.isEmpty then .leave (.ok s)
        else
          match fieldOf line >>= scanField s with
          | .error e => .leave (.error e)
          | .ok s => .again (input.drop (lineEnd + 2), s)

/-- Every field line shortens what follows the cursor. -/
lemma headStep_decreases : Loop.Decreases headStep fun s => s.1.length := by
  rintro ⟨input, s⟩ ⟨input', s'⟩ h
  simp only [headStep, List.isEmpty_iff] at h
  split_ifs at h with h1
  split at h
  · cases h
  · split_ifs at h with h2
    split at h
    · cases h
    · cases h
      have := List.length_pos_of_ne_nil h1
      simp only [List.length_drop]
      omega

/-- The checks after the field lines. -/
def finishHead (s : HeadScan) : Result ParsedHead :=
  if s.transferCodings ≠ 0 then
    if s.contentLength.isSome then
      .error (protocolError "Transfer-Encoding with Content-Length is rejected")
    else if !s.finalChunked then
      .error (protocolError "Final HTTP transfer coding is not chunked")
    else if s.transferCodings ≠ 1 then
      .error (protocolError "Unsupported HTTP transfer coding")
    else .ok { s.toParsedHead with chunked := true }
  else .ok s.toParsedHead

/-- `parse_head`. -/
def parseHead (input : Bytes) : Result ParsedHead :=
  match find crlf input with
  | none => .error (protocolError "Malformed HTTP start line")
  | some 0 => .error (protocolError "Malformed HTTP start line")
  | some firstEnd =>
    let startLine := input.take firstEnd
    if !validHeaderValue startLine then
      .error (protocolError "Invalid character in HTTP start line")
    else
      Loop.run headStep (fun s => s.1.length) headStep_decreases
        (input.drop (firstEnd + 2), { startLine }) >>= finishHead

/-- `parse_version`. -/
def parseVersion (value : Bytes) : Option ℕ :=
  if value = bytes "HTTP/1.1" then some 11
  else if value = bytes "HTTP/1.0" then some 10
  else none

/-- `keep_alive`. -/
def keepAlive (version : ℕ) (head : ParsedHead) : Bool :=
  !head.connectionClose && (decide (11 ≤ version) || head.connectionKeepAlive)

/-! ### Field lines -/

/-- A field line: a name, a colon and a value among blanks.  Blanks around the value are not part of
it; blanks before the colon make the name invalid. -/
structure FieldLine (line name value : Bytes) : Prop where
  split : ∃ raw, line = name ++ colon :: raw ∧ trimOws raw = value
  name : validHeaderName name = true
  value : validHeaderValue value = true

/-- The colon is not a token character. -/
lemma colon_not_mem_of_validHeaderName {name : Bytes} (h : validHeaderName name = true) :
    colon ∉ name :=
  not_mem_of_validHeaderName h (by decide)

/-- A valid name starts with a token character. -/
lemma head?_of_validHeaderName {name : Bytes} (h : validHeaderName name = true) (rest : Bytes) :
    ∃ c, (name ++ rest).head? = some c ∧ tokenCharacter c = true := by
  cases name with
  | nil => simp [validHeaderName] at h
  | cons c name =>
    refine ⟨c, rfl, ?_⟩
    simp only [validHeaderName, Bool.and_eq_true] at h
    exact List.all_eq_true.mp h.2 c List.mem_cons_self

/-- The checks of one field line accept exactly the field lines. -/
theorem fieldOf_eq_ok {line name value : Bytes} :
    fieldOf line = .ok (name, value) ↔ FieldLine line name value := by
  constructor
  · intro h
    unfold fieldOf at h
    split_ifs at h with hfold
    split at h
    · cases h
    · rename_i n hn
      obtain ⟨a, b, rfl, -, rfl⟩ := find_singleton_eq_some hn
      dsimp only at h
      split_ifs at h with hvalid
      simp only [Bool.or_eq_true, Bool.not_eq_true', not_or, Bool.not_eq_false,
        List.take_left] at hvalid
      cases h
      refine ⟨⟨b, ?_, ?_⟩, ?_, hvalid.2⟩
      · simp
      · simp
      · simpa using hvalid.1
  · rintro ⟨⟨raw, rfl, rfl⟩, hname, hvalue⟩
    obtain ⟨c, hc, htok⟩ := head?_of_validHeaderName hname (colon :: raw)
    have hfold : ¬ ((name ++ colon :: raw).head? = some sp ∨
        (name ++ colon :: raw).head? = some htab) := by
      rw [hc]
      rintro (h | h) <;> cases h <;> exact absurd htok (by decide)
    unfold fieldOf
    rw [if_neg hfold, find_singleton_append (colon_not_mem_of_validHeaderName hname)]
    have hdrop : (name ++ colon :: raw).drop (name.length + 1) = raw := by
      rw [← List.drop_drop]
      simp
    simp [hdrop, hname, hvalue]

/-! ### The scan as a function of the field list -/

/-- The comma-separated values of all fields called `name`, in order.  A field with an empty value
has one empty element, which the framing rules refuse. -/
def elements (headers : Headers) (name : Bytes) : List Bytes :=
  (headers.getAll name).flatMap fun value => (value.splitOn comma).map trimOws

/-- The elements after one more field. -/
lemma elements_append_singleton (fields : Headers) (f : Bytes × Bytes) (name : Bytes) :
    elements (fields ++ [f]) name = elements fields name ++
      if iequals f.1 name then (f.2.splitOn comma).map trimOws else [] := by
  rw [elements, Headers.getAll_append, List.flatMap_append, Headers.getAll_cons]
  split_ifs <;> simp [elements]

/-- Every field has an element. -/
theorem elements_eq_nil_iff {headers : Headers} {name : Bytes} :
    elements headers name = [] ↔ headers.getAll name = [] := by
  constructor
  · intro h
    by_contra hne
    obtain ⟨value, hvalue⟩ := List.exists_mem_of_ne_nil _ hne
    have := List.flatMap_eq_nil_iff.mp h value hvalue
    exact List.splitOn_ne_nil comma value (List.map_eq_nil_iff.mp this)
  · intro h
    rw [elements, h, List.flatMap_nil]

/-- The number the accepted `Content-Length` values denote. -/
def lengthOf (values : List Bytes) : Option ℕ := values.head?.bind (fromChars 10 uint64Limit)

/-- All values denote one number. -/
def Agreeing (values : List Bytes) : Prop :=
  ∃ n, ∀ value ∈ values, fromChars 10 uint64Limit value = some n

/-- Transfer codings without parameters. -/
def PlainCodings (codings : List Bytes) : Prop := ∀ c ∈ codings, c ≠ [] ∧ semicolon ∉ c

/-- Agreeing values denote the number of each of them. -/
lemma Agreeing.lengthOf_eq {values : List Bytes} (h : Agreeing values) {value : Bytes}
    (hv : value ∈ values) : lengthOf values = fromChars 10 uint64Limit value := by
  obtain ⟨n, hn⟩ := h
  cases values with
  | nil => cases hv
  | cons v values =>
    rw [hn value hv]
    exact hn v List.mem_cons_self

/-- Agreement with one more value. -/
lemma agreeing_append_singleton {values : List Bytes} (h : Agreeing values) (value : Bytes) :
    Agreeing (values ++ [value]) ↔
      ∃ n, fromChars 10 uint64Limit value = some n ∧ (values ≠ [] → lengthOf values = some n) := by
  constructor
  · rintro ⟨n, hn⟩
    refine ⟨n, hn value (by simp), ?_⟩
    intro hne
    obtain ⟨v, hv⟩ := List.exists_mem_of_ne_nil _ hne
    rw [h.lengthOf_eq hv, hn v (by simp [hv])]
  · rintro ⟨n, hvalue, hold⟩
    refine ⟨n, ?_⟩
    intro v hv
    rw [List.mem_append, List.mem_singleton] at hv
    rcases hv with hv | rfl
    · rw [← h.lengthOf_eq hv, hold (List.ne_nil_of_mem hv)]
    · exact hvalue

/-- No value is empty when all of them denote a number. -/
lemma isEmpty_of_fromChars {base limit n : ℕ} {value : Bytes}
    (h : fromChars base limit value = some n) : value.isEmpty = false := by
  cases value with
  | nil => simp [fromChars] at h
  | cons c value => rfl

/-- The visitor of `Content-Length` values accepts agreeing values.  Agreement is what makes the
value independent of the order of the visits. -/
lemma visitContentLength_describes :
    Scan.Describes (fun state value =>
        if value.isEmpty then .error (protocolError ("Empty value in " ++ "Content-Length"))
        else visitContentLength state value) Agreeing lengthOf := by
  constructor
  · intro values value o h
    rw [agreeing_append_singleton h]
    have hhead : ∀ n, fromChars 10 uint64Limit value = some n →
        (values ≠ [] → lengthOf values = some n) → lengthOf (values ++ [value]) = some n := by
      intro n hn hold
      cases values with
      | nil => simpa [lengthOf] using hn
      | cons v values => exact hold (by simp)
    cases hf : fromChars 10 uint64Limit value with
    | none => by_cases he : value.isEmpty <;> simp [visitContentLength, hf, he]
    | some n =>
      have he := isEmpty_of_fromChars hf
      simp only [he, Bool.false_eq_true, if_false, visitContentLength, hf, Option.some.injEq]
      have hiff : (values ≠ [] → lengthOf values = some n) ↔
          ¬ ((lengthOf values).isSome ∧ lengthOf values ≠ some n) := by
        constructor
        · rintro hold ⟨hsome, hne⟩
          cases values with
          | nil => cases hsome
          | cons v values => exact hne (hold (by simp))
        · intro hno hne
          by_contra hdiff
          obtain ⟨v, hv⟩ := List.exists_mem_of_ne_nil _ hne
          obtain ⟨m, hm⟩ := h
          exact hno ⟨by rw [Agreeing.lengthOf_eq ⟨m, hm⟩ hv, hm v hv]; rfl, hdiff⟩
      constructor
      · intro hs
        split_ifs at hs with hc
        cases hs
        have hold := hiff.mpr hc
        exact ⟨⟨n, rfl, hold⟩, (hhead n hf hold).symm⟩
      · rintro ⟨⟨m, rfl, hold⟩, rfl⟩
        rw [if_neg (hiff.mp hold), hhead _ hf hold]
  · rintro values value ⟨n, hn⟩
    exact ⟨n, fun v hv => hn v (by simp [hv])⟩

/-- The state of the visitor of `Transfer-Encoding` values. -/
def codingsOf (codings : List Bytes) : ℕ × Bool :=
  (codings.length, codings.getLast?.elim false (iequals · (bytes "chunked")))

/-- The visitor of `Transfer-Encoding` values accepts plain codings. -/
lemma visitTransferEncoding_describes :
    Scan.Describes (fun state value =>
        if value.isEmpty then .error (protocolError ("Empty value in " ++ "Transfer-Encoding"))
        else visitTransferEncoding state value) PlainCodings codingsOf := by
  constructor
  · intro codings coding o h
    have hplain : PlainCodings (codings ++ [coding]) ↔ coding ≠ [] ∧ semicolon ∉ coding := by
      constructor
      · intro hall
        exact hall coding (by simp)
      · intro hc c hmem
        rw [List.mem_append, List.mem_singleton] at hmem
        rcases hmem with hmem | rfl
        · exact h c hmem
        · exact hc
    rw [hplain]
    have hstate : codingsOf (codings ++ [coding]) =
        (codings.length + 1, iequals coding (bytes "chunked")) := by
      simp [codingsOf]
    by_cases he : coding = []
    · simp [he]
    · have he' : coding.isEmpty = false := by simpa using he
      by_cases hs : semicolon ∈ coding
      · simp [he', visitTransferEncoding, hs]
      · rw [hstate]
        simp [he, he', visitTransferEncoding, hs, codingsOf, eq_comm]
  · intro codings coding h c hc
    exact h c (by simp [hc])

/-- The state of the scan after the given fields. -/
def scanned (startLine : Bytes) (fields : Headers) : HeadScan where
  startLine
  headers := fields
  contentLength := lengthOf (elements fields (bytes "Content-Length"))
  hosts := (fields.getAll (bytes "Host")).length
  invalidHost := (fields.getAll (bytes "Host")).any fun v => v.isEmpty || v.contains comma
  connectionClose := hasToken fields (bytes "Connection") (bytes "close")
  connectionKeepAlive := hasToken fields (bytes "Connection") (bytes "keep-alive")
  hasExpect := fields.contains (bytes "Expect")
  expectContinue := hasToken fields (bytes "Expect") (bytes "100-continue")
  transferCodings := (codingsOf (elements fields (bytes "Transfer-Encoding"))).1
  finalChunked := (codingsOf (elements fields (bytes "Transfer-Encoding"))).2

/-- The field lists the scan accepts. -/
def Scannable (fields : Headers) : Prop :=
  Agreeing (elements fields (bytes "Content-Length")) ∧
    PlainCodings (elements fields (bytes "Transfer-Encoding"))

/-- Strings of different lengths are not equal up to case. -/
lemma iequals_eq_false {u v : Bytes} (h : u.length ≠ v.length) : iequals u v = false := by
  simp [iequals, h]

/-- Tokens after one more field. -/
lemma hasToken_append_singleton (fields : Headers) (f : Bytes × Bytes) (name token : Bytes) :
    hasToken (fields ++ [f]) name token =
      (hasToken fields name token || (iequals f.1 name && headerValueHasToken f.2 token)) := by
  simp [hasToken]

/-- Presence after one more field. -/
lemma contains_append_singleton (fields : Headers) (f : Bytes × Bytes) (name : Bytes) :
    Headers.contains (fields ++ [f]) name = (fields.contains name || iequals f.1 name) := by
  simp [Headers.contains]

/-- A field of another name leaves the elements of a name alone. -/
lemma elements_append_of_ne {fields : Headers} {f : Bytes × Bytes} {name : Bytes}
    (h : iequals f.1 name = false) : elements (fields ++ [f]) name = elements fields name := by
  rw [elements_append_singleton, h]
  simp

/-- The scan of a `Content-Length` field. -/
lemma scanControls_contentLength {startLine : Bytes} {fields : Headers} {f : Bytes × Bytes}
    {s : HeadScan} (hok : Scannable fields) (h : iequals f.1 (bytes "Content-Length") = true) :
    scanControls (scanned startLine fields) f.1 f.2 = .ok s ↔
      Scannable (fields ++ [f]) ∧ s = { scanned startLine (fields ++ [f]) with headers := fields } := by
  have hl : f.1.length = 14 := length_eq_of_iequals h
  have hne : ∀ u : Bytes, u.length ≠ 14 → iequals f.1 u = false :=
    fun u hu => iequals_eq_false (by omega)
  have hte := hne (bytes "Transfer-Encoding") (by decide)
  have hhost := hne (bytes "Host") (by decide)
  have hexp := hne (bytes "Expect") (by decide)
  have hconn := hne (bytes "Connection") (by decide)
  have hel : elements (fields ++ [f]) (bytes "Content-Length") =
      elements fields (bytes "Content-Length") ++ (f.2.splitOn comma).map trimOws := by
    rw [elements_append_singleton, if_pos h]
  have hvisit : ∀ o, visitFramingValues f.2 "Content-Length" visitContentLength
      (scanned startLine fields).contentLength = .ok o ↔
        Scannable (fields ++ [f]) ∧
          o = lengthOf (elements (fields ++ [f]) (bytes "Content-Length")) := by
    intro o
    rw [Scannable, hel, elements_append_of_ne hte, and_iff_left hok.2]
    exact visitContentLength_describes.foldlM_eq_ok hok.1
  simp only [scanControls, hl, h, if_true]
  cases hv : visitFramingValues f.2 "Content-Length" visitContentLength
      (scanned startLine fields).contentLength with
  | error e =>
    simp only [hv, reduceCtorEq, false_iff] at hvisit ⊢
    rintro ⟨hsc, -⟩
    exact hvisit _ ⟨hsc, rfl⟩
  | ok o =>
    obtain ⟨hsc, ho⟩ := (hvisit o).mp hv
    simp [scanned, hsc, ho, elements_append_of_ne hte, hasToken_append_singleton,
      contains_append_singleton, hhost, hexp, hconn, eq_comm]

/-- The scan of a `Transfer-Encoding` field. -/
lemma scanControls_transferEncoding {startLine : Bytes} {fields : Headers} {f : Bytes × Bytes}
    {s : HeadScan} (hok : Scannable fields)
    (h : iequals f.1 (bytes "Transfer-Encoding") = true) :
    scanControls (scanned startLine fields) f.1 f.2 = .ok s ↔
      Scannable (fields ++ [f]) ∧ s = { scanned startLine (fields ++ [f]) with headers := fields } := by
  have hl : f.1.length = 17 := length_eq_of_iequals h
  have hne : ∀ u : Bytes, u.length ≠ 17 → iequals f.1 u = false :=
    fun u hu => iequals_eq_false (by omega)
  have hlen := hne (bytes "Content-Length") (by decide)
  have hhost := hne (bytes "Host") (by decide)
  have hexp := hne (bytes "Expect") (by decide)
  have hconn := hne (bytes "Connection") (by decide)
  have hel : elements (fields ++ [f]) (bytes "Transfer-Encoding") =
      elements fields (bytes "Transfer-Encoding") ++ (f.2.splitOn comma).map trimOws := by
    rw [elements_append_singleton, if_pos h]
  have hvisit : ∀ o, visitFramingValues f.2 "Transfer-Encoding" visitTransferEncoding
      ((scanned startLine fields).transferCodings, (scanned startLine fields).finalChunked) =
        .ok o ↔
        Scannable (fields ++ [f]) ∧
          o = codingsOf (elements (fields ++ [f]) (bytes "Transfer-Encoding")) := by
    intro o
    rw [Scannable, hel, elements_append_of_ne hlen, and_iff_right hok.1]
    exact visitTransferEncoding_describes.foldlM_eq_ok hok.2
  simp only [scanControls, hl, h, if_true]
  cases hv : visitFramingValues f.2 "Transfer-Encoding" visitTransferEncoding
      ((scanned startLine fields).transferCodings, (scanned startLine fields).finalChunked) with
  | error e =>
    simp only [hv, reduceCtorEq, false_iff] at hvisit ⊢
    rintro ⟨hsc, -⟩
    exact hvisit _ ⟨hsc, rfl⟩
  | ok o =>
    obtain ⟨hsc, ho⟩ := (hvisit o).mp hv
    simp [scanned, hsc, ho, elements_append_of_ne hlen, hasToken_append_singleton,
      contains_append_singleton, hhost, hexp, hconn, eq_comm]

/-- The scan of a field that has no part in the framing never fails. -/
lemma scanControls_of_ne {startLine : Bytes} {fields : Headers} {f : Bytes × Bytes}
    (hlen : iequals f.1 (bytes "Content-Length") = false)
    (hte : iequals f.1 (bytes "Transfer-Encoding") = false) :
    scanControls (scanned startLine fields) f.1 f.2 =
      .ok { scanned startLine (fields ++ [f]) with headers := fields } := by
  have hne : ∀ u : Bytes, u.length ≠ f.1.length → iequals f.1 u = false :=
    fun u hu => iequals_eq_false hu.symm
  by_cases hhost : iequals f.1 (bytes "Host") = true
  · have hl : f.1.length = 4 := length_eq_of_iequals hhost
    have hexp := hne (bytes "Expect") (by rw [hl]; decide)
    have hconn := hne (bytes "Connection") (by rw [hl]; decide)
    simp [scanControls, scanned, hl, hhost, hexp, hconn, elements_append_of_ne hlen,
      elements_append_of_ne hte, hasToken_append_singleton, contains_append_singleton]
  by_cases hexp : iequals f.1 (bytes "Expect") = true
  · have hl : f.1.length = 6 := length_eq_of_iequals hexp
    have hconn := hne (bytes "Connection") (by rw [hl]; decide)
    simp [scanControls, scanned, hl, hhost, hexp, hconn, elements_append_of_ne hlen,
      elements_append_of_ne hte, hasToken_append_singleton, contains_append_singleton]
  by_cases hconn : iequals f.1 (bytes "Connection") = true
  · have hl : f.1.length = 10 := length_eq_of_iequals hconn
    simp [scanControls, scanned, hl, hhost, hexp, hconn, elements_append_of_ne hlen,
      elements_append_of_ne hte, hasToken_append_singleton, contains_append_singleton]
  · have hskip : scanControls (scanned startLine fields) f.1 f.2 =
        .ok (scanned startLine fields) := by
      unfold scanControls
      split <;> simp [hhost, hexp, hconn, hlen, hte]
    rw [hskip]
    simp [scanned, hhost, hexp, hconn, elements_append_of_ne hlen, elements_append_of_ne hte,
      hasToken_append_singleton, contains_append_singleton]

/-- The scan of one more field.  The state after a list of fields is a function of the list, as long
as the list is acceptable; so the loop over the lines can be read off its end. -/
theorem scanField_describes (startLine : Bytes) :
    Scan.Describes scanField Scannable (scanned startLine) := by
  constructor
  · intro fields f s hok
    have hcontrols : ∀ s, scanControls (scanned startLine fields) f.1 f.2 = .ok s ↔
        Scannable (fields ++ [f]) ∧
          s = { scanned startLine (fields ++ [f]) with headers := fields } := by
      intro s
      by_cases hlen : iequals f.1 (bytes "Content-Length") = true
      · exact scanControls_contentLength hok hlen
      by_cases hte : iequals f.1 (bytes "Transfer-Encoding") = true
      · exact scanControls_transferEncoding hok hte
      · rw [Bool.not_eq_true] at hlen hte
        have hsc : Scannable (fields ++ [f]) := by
          rw [Scannable, elements_append_of_ne hlen, elements_append_of_ne hte]
          exact hok
        rw [scanControls_of_ne hlen hte, Except.ok.injEq, eq_comm, and_iff_right hsc]
    rw [scanField]
    cases hc : scanControls (scanned startLine fields) f.1 f.2 with
    | error e =>
      simp only [hc, reduceCtorEq, false_iff] at hcontrols ⊢
      rintro ⟨hsc, -⟩
      exact hcontrols _ ⟨hsc, rfl⟩
    | ok s' =>
      obtain ⟨hsc, rfl⟩ := (hcontrols s').mp hc
      rw [and_iff_right hsc, Except.ok.injEq, eq_comm]
      rfl
  · rintro fields f ⟨⟨n, hn⟩, hplain⟩
    rw [elements_append_singleton] at hn hplain
    exact ⟨⟨n, fun v hv => hn v (by simp [hv])⟩, fun c hc => hplain c (by simp [hc])⟩

/-! ### Whole heads -/

/-- The scan over the lines of a head, whose line ends follow them. -/
lemma run_headStep {lines : List Bytes} (h : ∀ line ∈ lines, LineText line)
    (hne : ∀ line ∈ lines, line ≠ []) (s : HeadScan) :
    Loop.run headStep (fun s => s.1.length) headStep_decreases (lineBytes lines, s) =
      lines.foldlM (fun s line => fieldOf line >>= scanField s) s := by
  induction lines generalizing s with
  | nil =>
    have hstep : headStep (lineBytes [], s) = .leave (.ok s) := by simp [headStep]
    exact Loop.run_of_leave headStep_decreases hstep
  | cons line lines ih =>
    have hline := h line List.mem_cons_self
    have hfind : find crlf (line ++ (crlf ++ lineBytes lines)) = some line.length :=
      find_crlf_of_lineText hline _
    have hstep : headStep (lineBytes (line :: lines), s) =
        match fieldOf line >>= scanField s with
        | .error e => .leave (.error e)
        | .ok s' => .again (lineBytes lines, s') := by
      have hline' := hne line List.mem_cons_self
      have hdrop : (line ++ (crlf ++ lineBytes lines)).drop (line.length + 2) =
          lineBytes lines := by
        rw [← List.drop_drop, List.drop_left]
        rfl
      simp only [headStep, lineBytes_cons, hfind, List.take_left, hdrop]
      simp [hline']
    rw [List.foldlM_cons]
    cases hf : fieldOf line >>= scanField s with
    | error e =>
      rw [hf] at hstep
      exact Loop.run_of_leave headStep_decreases hstep
    | ok s' =>
      rw [hf] at hstep
      rw [Loop.run_of_again headStep_decreases hstep]
      exact ih (fun l hl => h l (List.mem_cons_of_mem _ hl))
        (fun l hl => hne l (List.mem_cons_of_mem _ hl)) s'

/-- The framing fields of an acceptable head: the lengths agree, and the only transfer coding is
`chunked`, without a length. -/
structure FramingFields (fields : Headers) : Prop where
  lengths : Agreeing (elements fields (bytes "Content-Length"))
  codings : elements fields (bytes "Transfer-Encoding") = [] ∨
    ∃ coding, elements fields (bytes "Transfer-Encoding") = [coding] ∧
      iequals coding (bytes "chunked") = true ∧ elements fields (bytes "Content-Length") = []

/-- The head that a start line and a field list denote. -/
def headOf (startLine : Bytes) (fields : Headers) : ParsedHead :=
  { (scanned startLine fields).toParsedHead with
    chunked := !(elements fields (bytes "Transfer-Encoding")).isEmpty }

/-- A coding equal to `chunked` has no parameters. -/
lemma plain_of_chunked {coding : Bytes} (h : iequals coding (bytes "chunked") = true) :
    coding ≠ [] ∧ semicolon ∉ coding := by
  have hlower := (iequals_iff).mp h
  constructor
  · rintro rfl
    exact absurd hlower (by decide)
  · intro hmem
    have : foldCase semicolon ∈ lower coding := List.mem_map_of_mem hmem
    rw [hlower] at this
    exact absurd this (by decide)

/-- The length of agreeing values is known as soon as there is one. -/
lemma Agreeing.isSome_lengthOf {values : List Bytes} (h : Agreeing values) :
    (lengthOf values).isSome = !values.isEmpty := by
  cases values with
  | nil => rfl
  | cons v values =>
    obtain ⟨n, hn⟩ := h
    rw [Agreeing.lengthOf_eq ⟨n, hn⟩ List.mem_cons_self, hn v List.mem_cons_self]
    rfl

/-- The checks after the field lines.  What `parse_head` refuses last are fields that are fine one
by one. -/
lemma finishHead_scanned {startLine : Bytes} {fields : Headers} (hok : Scannable fields)
    {head : ParsedHead} :
    finishHead (scanned startLine fields) = .ok head ↔
      FramingFields fields ∧ head = headOf startLine fields := by
  have hsome := hok.1.isSome_lengthOf
  rcases hte : elements fields (bytes "Transfer-Encoding") with _ | ⟨coding, codings⟩
  · have hframing : FramingFields fields := ⟨hok.1, Or.inl hte⟩
    simp only [finishHead, scanned, codingsOf, hte, headOf]
    simp [hframing, eq_comm]
  · have hframing : FramingFields fields ↔ codings = [] ∧
        iequals coding (bytes "chunked") = true ∧
          elements fields (bytes "Content-Length") = [] := by
      constructor
      · rintro ⟨-, h | ⟨c, h, hc, hlen⟩⟩
        · rw [hte] at h
          cases h
        · rw [hte] at h
          cases h
          exact ⟨rfl, hc, hlen⟩
      · rintro ⟨rfl, hc, hlen⟩
        exact ⟨hok.1, Or.inr ⟨coding, hte, hc, hlen⟩⟩
    rw [hframing]
    rcases hlen : elements fields (bytes "Content-Length") with _ | ⟨v, vs⟩
    · rw [hlen] at hsome
      rcases codings with _ | ⟨c, codings⟩
      · simp only [finishHead, scanned, codingsOf, hte, hlen, headOf]
        by_cases hc : iequals coding (bytes "chunked") = true <;>
          simp [hc, lengthOf, eq_comm]
      · simp only [finishHead, scanned, codingsOf, hte, hlen]
        simp only [lengthOf, List.head?_nil, Option.bind_none, Option.isSome_none]
        split_ifs <;> simp_all
    · rw [hlen] at hsome
      have hsome' : (scanned startLine fields).contentLength.isSome = true := by
        rw [scanned, hlen]
        exact hsome
      have hcount : (scanned startLine fields).transferCodings ≠ 0 := by
        simp [scanned, codingsOf, hte]
      rw [finishHead, if_pos hcount, if_pos hsome']
      simp

/-- `parse_head` accepts a valid start line and valid field lines with acceptable framing fields,
and returns the head they denote. -/
theorem parseHead_eq_ok {start : Bytes} {lines : List Bytes} (hstart : LineText start)
    (h : ∀ line ∈ lines, LineText line) (hne : ∀ line ∈ lines, line ≠ []) {head : ParsedHead} :
    parseHead (headBytes start lines) = .ok head ↔
      start ≠ [] ∧ validHeaderValue start = true ∧
        ∃ fields, List.Forall₂ (fun line f => FieldLine line f.1 f.2) lines fields ∧
          FramingFields fields ∧ head = headOf start fields := by
  have hfind : find crlf (headBytes start lines) = some start.length := by
    rw [headBytes, List.append_assoc]
    exact find_crlf_of_lineText hstart _
  rw [parseHead, hfind]
  cases start with
  | nil => simp
  | cons c start =>
    have htake : (headBytes (c :: start) lines).take (c :: start).length = c :: start := by
      rw [headBytes, List.append_assoc, List.take_left]
    have hdrop : (headBytes (c :: start) lines).drop ((c :: start).length + 2) =
        lineBytes lines := by
      rw [headBytes, List.append_assoc, ← List.drop_drop, List.drop_left]
      rfl
    simp only [List.length_cons] at htake hdrop ⊢
    rw [htake, hdrop]
    by_cases hvalid : validHeaderValue (c :: start) = true
    · have hinit : ({ startLine := c :: start } : HeadScan) = scanned (c :: start) [] := rfl
      have hnil : Scannable [] := ⟨⟨0, by simp [elements]⟩, by simp [PlainCodings, elements]⟩
      simp only [hvalid, Bool.not_true, Bool.false_eq_true, if_false, ne_eq, reduceCtorEq,
        not_false_eq_true, true_and]
      rw [run_headStep h hne, hinit, Scan.bind_eq_ok]
      constructor
      · rintro ⟨s, hs, hfin⟩
        obtain ⟨fields, hfields, hfold⟩ := (Scan.foldlM_bind_eq_ok).mp hs
        obtain ⟨hok, rfl⟩ := ((scanField_describes _).foldlM_eq_ok hnil).mp hfold
        obtain ⟨hframing, rfl⟩ := (finishHead_scanned hok).mp hfin
        exact ⟨fields, hfields.imp fun _ _ hf => (fieldOf_eq_ok).mp hf, hframing, rfl⟩
      · rintro ⟨fields, hfields, hframing, rfl⟩
        have hok : Scannable fields := by
          refine ⟨hframing.lengths, ?_⟩
          intro c hc
          rcases hframing.codings with hte | ⟨coding, hte, hchunked, -⟩
          · rw [hte] at hc
            cases hc
          · rw [hte, List.mem_singleton] at hc
            exact hc ▸ plain_of_chunked hchunked
        refine ⟨scanned (c :: start) fields, ?_, (finishHead_scanned hok).mpr ⟨hframing, rfl⟩⟩
        refine (Scan.foldlM_bind_eq_ok).mpr ⟨fields, ?_, ?_⟩
        · exact hfields.imp fun _ _ hf => (fieldOf_eq_ok).mpr hf
        · exact ((scanField_describes _).foldlM_eq_ok hnil).mpr ⟨hok, rfl⟩
    · simp [hvalid]

end Chhttp
