import Chhttp.Common.Message
import Chhttp.Common.Url
import Chhttp.Protocol.Head
import Chhttp.Protocol.Input

/-!
# Request heads

`readRequestHead` is `read_request_head`: it takes the bytes of a head from the connection and
hands them to `parseRequestHead`, which checks the request line, the `Host` rule of HTTP/1.1, the
target and the expectation.
-/

namespace Chhttp

open ListSearch Fragment

/-! ### The source -/

/-- The struct `RequestBodyState`: what the reader of the body needs of the head, and whether
`100 Continue` has been sent. -/
structure RequestBodyState where
  headers : Headers
  contentLength : Option ℕ := none
  chunked : Bool := false
  expectContinue : Bool := false
  continueSent : Bool := false

/-- The struct `RequestHeadResult`: the request as it is before its body, and the state from which
the body is read. -/
structure RequestHeadResult where
  request : Request
  body : RequestBodyState

/-- A byte that no request target may contain. -/
def invalidTargetByte (c : UInt8) : Bool := decide (c ≤ 0x20) || c == 0x7f

/-- The method, the target and the version of a start line. -/
def parseRequestLine (startLine : Bytes) : Result (Bytes × Bytes × ℕ) :=
  match find [sp] startLine, findLast sp startLine with
  | some firstSpace, some lastSpace =>
    if lastSpace = firstSpace ∨ findFrom [sp] startLine (firstSpace + 1) ≠ some lastSpace then
      .error (protocolError "Malformed HTTP request line")
    else
      let method := startLine.take firstSpace
      let target := (startLine.drop (firstSpace + 1)).take (lastSpace - firstSpace - 1)
      if !validHeaderName method || target.isEmpty || target.any invalidTargetByte then
        .error (protocolError "Invalid HTTP request line")
      else
        match parseVersion (startLine.drop (lastSpace + 1)) with
        | none => .error (protocolError "Unsupported HTTP version")
        | some version => .ok (method, target, version)
  | _, _ => .error (protocolError "Malformed HTTP request line")

/-- The `Host` rule of HTTP/1.1. -/
def checkHost (version : ℕ) (head : ParsedHead) : Result Unit :=
  if version = 11 then
    if head.invalidHost then .error (protocolError "Invalid HTTP Host header")
    else if head.hosts ≠ 1 then
      .error (protocolError "HTTP/1.1 request must have exactly one Host header")
    else .ok ()
  else .ok ()

/-- The request target is in absolute form. -/
def isAbsoluteForm (target : Bytes) : Bool :=
  target.head? != some slash && (find (bytes "://") target).isSome

/-- The target that routing looks at: an absolute-form target is reduced to its origin form. -/
def routingTarget (target : Bytes) : Result Bytes :=
  if isAbsoluteForm target then
    match parseUrl target with
    | .error e =>
      .error (protocolError ("Invalid absolute HTTP request target: " ++ e.message))
    | .ok absolute => .ok absolute.target
  else .ok target

/-- The path of a routing target before percent decoding.  It is what `url_decode` is applied to,
and an empty one stands for the root. -/
def rawPath (routing : Bytes) : Bytes :=
  let path := routing.takeWhile (· != 0x3f)
  if path.isEmpty then bytes "/" else path

/-- The query parameters of a routing target. -/
def routingQuery (routing : Bytes) : List (Bytes × Bytes) :=
  if routing.contains 0x3f then parseQuery (routing.dropWhile (· != 0x3f)).tail else []

/-- The result `parse_request_head` returns. -/
def requestHeadResult (head : ParsedHead) (method target : Bytes) (version : ℕ)
    (routing path : Bytes) (duplicateHeaders : Bool) : RequestHeadResult where
  request := {
    method, target, version, path
    keepAlive := keepAlive version head
    query := routingQuery routing
    headers := if duplicateHeaders then head.headers else [] }
  body := {
    headers := head.headers
    contentLength := head.contentLength
    chunked := head.chunked
    expectContinue := head.expectContinue }

/-- What `parse_request_head` does once the head has been consumed. -/
def requestOfHead (head : ParsedHead) (method target : Bytes) (version : ℕ)
    (duplicateHeaders : Bool) : Result RequestHeadResult :=
  match checkHost version head with
  | .error e => .error e
  | .ok () =>
    match routingTarget target with
    | .error e => .error e
    | .ok routing =>
      match urlDecode (rawPath routing) with
      | .error e => .error (protocolError ("Invalid encoded HTTP request path: " ++ e.message))
      | .ok path =>
        if head.hasExpect ∧ ¬ head.expectContinue then
          .error (protocolError "Unsupported HTTP expectation")
        else
          .ok (requestHeadResult head method target version routing path duplicateHeaders)

/-- `parse_request_head`: the head is consumed once its request line is accepted. -/
def parseRequestHead (input : Input) (view : Bytes) (duplicateHeaders : Bool) :
    Result RequestHeadResult × Input :=
  match parseHead view with
  | .error e => (.error e, input)
  | .ok head =>
    match parseRequestLine head.startLine with
    | .error e => (.error e, input)
    | .ok (method, target, version) =>
      (requestOfHead head method target version duplicateHeaders,
        input.consume (view.length + 2))

/-- `read_request_head`: the bytes up to the empty line, and what the parser makes of them. -/
def readRequestHead (maxHeaderSize : ℕ) (duplicateHeaders : Bool) (input : Input) :
    Result RequestHeadResult × Input :=
  match takeHeadBytes maxHeaderSize input with
  | (.error e, input) => (.error e, input)
  | (.ok view, input) => parseRequestHead input view duplicateHeaders

/-! ### Request lines -/

/-- The text of a supported version. -/
def versionText (version : ℕ) : Bytes := if version = 10 then bytes "HTTP/1.0" else bytes "HTTP/1.1"

/-- A request line: a method, a target without blanks and controls, and a supported version, with
one space between them. -/
structure RequestLine (startLine method target : Bytes) (version : ℕ) : Prop where
  eq : startLine = method ++ sp :: (target ++ sp :: versionText version)
  version : version = 10 ∨ version = 11
  method : validHeaderName method = true
  target_ne : target ≠ []
  target : ∀ c ∈ target, 0x20 < c ∧ c ≠ 0x7f

/-- The versions the parser knows. -/
lemma parseVersion_eq_some {value : Bytes} {version : ℕ} :
    parseVersion value = some version ↔
      (version = 10 ∨ version = 11) ∧ value = versionText version := by
  constructor
  · intro h
    unfold parseVersion at h
    split_ifs at h with h1 h2
    · cases h
      exact ⟨Or.inr rfl, h1⟩
    · cases h
      exact ⟨Or.inl rfl, h2⟩
  · rintro ⟨rfl | rfl, rfl⟩ <;> decide

/-- A byte is allowed in a target. -/
lemma invalidTargetByte_eq_false {c : UInt8} :
    invalidTargetByte c = false ↔ 0x20 < c ∧ c ≠ 0x7f := by
  simp [invalidTargetByte]

/-- There is no space in a version. -/
lemma sp_not_mem_versionText (version : ℕ) : sp ∉ versionText version := by
  unfold versionText
  split_ifs <;> decide

/-- What is read as a request line is one. -/
lemma requestLine_of_parse {startLine method target : Bytes} {version : ℕ}
    (h : parseRequestLine startLine = .ok (method, target, version)) :
    RequestLine startLine method target version := by
  unfold parseRequestLine at h
  split at h
  · rename_i first last hfirst hlast
    split_ifs at h with hspaces
    push Not at hspaces
    obtain ⟨hne, hsecond⟩ := hspaces
    obtain ⟨a, b, rfl, ha, rfl⟩ := find_singleton_eq_some hfirst
    have hdrop : (a ++ sp :: b).drop (a.length + 1) = b := by
      rw [← List.drop_drop, List.drop_left]
      rfl
    rw [findFrom, hdrop, Option.map_eq_some_iff] at hsecond
    obtain ⟨k, hk, hkl⟩ := hsecond
    obtain ⟨t, v, rfl, ht, rfl⟩ := find_singleton_eq_some hk
    have hlen : last - a.length - 1 = t.length := by omega
    have hdrop' : (a ++ sp :: (t ++ sp :: v)).drop (last + 1) = v := by
      rw [show last + 1 = a.length + 1 + (t.length + 1) by omega, ← List.drop_drop, hdrop,
        ← List.drop_drop, List.drop_left]
      rfl
    simp only [hlen, hdrop, hdrop', List.take_left] at h
    split_ifs at h with hvalid
    split at h
    · cases h
    · rename_i version' hversion
      cases h
      obtain ⟨hv, rfl⟩ := parseVersion_eq_some.mp hversion
      simp only [Bool.or_eq_true, Bool.not_eq_true', List.isEmpty_iff, List.any_eq_true,
        not_or, Bool.not_eq_false, not_exists, not_and, Bool.not_eq_true] at hvalid
      exact ⟨rfl, hv, hvalid.1.1, hvalid.1.2,
        fun c hc => invalidTargetByte_eq_false.mp (hvalid.2 c hc)⟩
  · cases h

/-- A request line is read as what it says. -/
lemma parse_of_requestLine {startLine method target : Bytes} {version : ℕ}
    (h : RequestLine startLine method target version) :
    parseRequestLine startLine = .ok (method, target, version) := by
  obtain ⟨rfl, hv, hmethod, htarget, hbytes⟩ := h
  have hsp : sp ∉ method := not_mem_of_validHeaderName hmethod (by decide)
  have hsp' : sp ∉ target := by
    intro hmem
    exact absurd (hbytes sp hmem).1 (by decide)
  have hfirst : find [sp] (method ++ sp :: (target ++ sp :: versionText version)) =
      some method.length := find_singleton_append hsp
  have hlast : findLast sp (method ++ sp :: (target ++ sp :: versionText version)) =
      some (method.length + (target.length + 1)) := by
    have := findLast_append (a := method ++ sp :: target) (sp_not_mem_versionText version)
    simpa using this
  have hdrop : (method ++ sp :: (target ++ sp :: versionText version)).drop
      (method.length + 1) = target ++ sp :: versionText version := by
    rw [← List.drop_drop, List.drop_left]
    rfl
  have hsecond : findFrom [sp] (method ++ sp :: (target ++ sp :: versionText version))
      (method.length + 1) = some (method.length + (target.length + 1)) := by
    rw [findFrom, hdrop, find_singleton_append hsp', Option.map_some, Option.some.injEq]
    omega
  have hdrop' : (method ++ sp :: (target ++ sp :: versionText version)).drop
      (method.length + (target.length + 1) + 1) = versionText version := by
    rw [show method.length + (target.length + 1) + 1 =
      method.length + 1 + (target.length + 1) by omega, ← List.drop_drop, hdrop,
      ← List.drop_drop, List.drop_left]
    rfl
  have hlen : method.length + (target.length + 1) - method.length - 1 = target.length := by
    omega
  have hany : target.any invalidTargetByte = false := by
    rw [List.any_eq_false]
    intro c hc
    rw [Bool.not_eq_true]
    exact invalidTargetByte_eq_false.mpr (hbytes c hc)
  have hversion : parseVersion (versionText version) = some version :=
    parseVersion_eq_some.mpr ⟨hv, rfl⟩
  simp only [parseRequestLine, hfirst, hlast, hsecond, hdrop, hdrop', hlen, List.take_left,
    hversion]
  rw [if_neg (by simp)]
  simp [hmethod, hany, htarget]

/-- The request lines are exactly what the parser accepts. -/
theorem parseRequestLine_eq_ok {startLine method target : Bytes} {version : ℕ} :
    parseRequestLine startLine = .ok (method, target, version) ↔
      RequestLine startLine method target version :=
  ⟨requestLine_of_parse, parse_of_requestLine⟩

/-- A request line is a line text of valid bytes. -/
lemma RequestLine.validHeaderValue {startLine method target : Bytes} {version : ℕ}
    (h : RequestLine startLine method target version) : validHeaderValue startLine = true := by
  have hversion : Chhttp.validHeaderValue (versionText version) = true := by
    unfold versionText
    split_ifs <;> decide
  have htarget : Chhttp.validHeaderValue target = true := by
    refine List.all_eq_true.mpr fun c hc => (fieldValueCharacter_iff).mpr (Or.inr ?_)
    exact ⟨UInt8.le_of_lt (h.target c hc).1, (h.target c hc).2⟩
  have hmethod := validHeaderValue_of_name h.method
  have hsp : fieldValueCharacter sp = true := by decide
  rw [h.eq]
  simp only [Chhttp.validHeaderValue, List.all_append, List.all_cons, Bool.and_eq_true] at *
  exact ⟨hmethod, hsp, htarget, hsp, hversion⟩

/-! ### Field values and lengths -/

/-- A nonempty string of decimal digits that denotes `n`, which a `std::uint64_t` holds.  Leading
zeros are allowed; a sign, a blank or a value from 2^64 on are not. -/
structure IsDecimal (value : Bytes) (n : ℕ) : Prop where
  ne : value ≠ []
  digits : ∀ c ∈ value, isDigit c = true
  denotes : Numeral.value 10 (value.map fun c => c.toNat - 48) = n
  lt : n < 2 ^ 64

/-- The decimal digits `std::from_chars` accepts. -/
lemma digitOf_ten (c : UInt8) :
    digitOf 10 c = if isDigit c then some (c.toNat - 48) else none := by
  have hall : ∀ n < 256, digitOf 10 (UInt8.ofNat n) =
      if isDigit (UInt8.ofNat n) then some ((UInt8.ofNat n).toNat - 48) else none := by
    decide +kernel
  have := hall c.toNat c.toNat_lt
  rwa [UInt8.ofNat_toNat] at this

/-- A string is read digit by digit when it consists of digits. -/
lemma mapM_digitOf_ten {value : Bytes} {ds : List ℕ} :
    value.mapM (digitOf 10) = some ds ↔
      (∀ c ∈ value, isDigit c = true) ∧ value.map (fun c => c.toNat - 48) = ds := by
  induction value generalizing ds with
  | nil => simp
  | cons c value ih =>
    rw [List.mapM_cons, digitOf_ten]
    by_cases hc : isDigit c = true
    · cases hm : value.mapM (digitOf 10) with
      | none =>
        simp only [hm, reduceCtorEq, false_iff, not_and] at ih
        have hbad : ¬ ∀ d ∈ value, isDigit d = true := fun h => ih h rfl
        simp only [hc, List.mem_cons, forall_eq_or_imp, hbad]
        simp
      | some es =>
        obtain ⟨hall, hmap⟩ := ih.mp hm
        simpa [hc, hmap] using fun _ : _ :: es = ds => hall
    · simp [hc]

/-- `std::from_chars` on a `std::uint64_t` accepts the decimal numbers below `2 ^ 64`. -/
theorem fromChars_ten {value : Bytes} {n : ℕ} :
    fromChars 10 uint64Limit value = some n ↔ IsDecimal value n := by
  unfold fromChars
  by_cases hne : value = []
  · simp only [hne, List.isEmpty_nil, if_true, reduceCtorEq, false_iff]
    rintro ⟨h, -⟩
    exact h rfl
  · simp only [List.isEmpty_eq_false_iff.mpr hne, Bool.false_eq_true, if_false]
    cases hm : value.mapM (digitOf 10) with
    | none =>
      simp only [reduceCtorEq, false_iff]
      rintro ⟨-, hdigits, -, -⟩
      have := mapM_digitOf_ten.mpr ⟨hdigits, rfl⟩
      rw [hm] at this
      cases this
    | some ds =>
      obtain ⟨hdigits, rfl⟩ := mapM_digitOf_ten.mp hm
      simp only [Option.ite_none_right_eq_some, Option.some.injEq]
      constructor
      · rintro ⟨hlt, rfl⟩
        exact ⟨hne, hdigits, rfl, hlt⟩
      · rintro ⟨-, -, rfl, hlt⟩
        exact ⟨hlt, rfl⟩

/-- The value of a field line has no CR around it either. -/
lemma cr_not_mem_raw {raw value : Bytes} (h : trimOws raw = value)
    (hvalue : validHeaderValue value = true) : cr ∉ raw := by
  intro hmem
  have hkept : cr ∈ value := h ▸ mem_trimWith_of_not hmem (by decide)
  exact not_mem_of_validHeaderValue hvalue (by decide) hkept

/-- A field line is a nonempty line text. -/
lemma FieldLine.lineText {line name value : Bytes} (h : FieldLine line name value) :
    LineText line ∧ line ≠ [] := by
  obtain ⟨⟨raw, rfl, hraw⟩, hname, hvalue⟩ := h
  constructor
  · refine lineText_of_not_mem ?_
    rw [List.mem_append, List.mem_cons, not_or, not_or]
    exact ⟨not_mem_of_validHeaderName hname (by decide), by decide, cr_not_mem_raw hraw hvalue⟩
  · simp

/-- All lines of a head are nonempty line texts. -/
lemma lineTexts_of_fieldLines {lines : List Bytes} {fields : Headers}
    (h : List.Forall₂ (fun line f => FieldLine line f.1 f.2) lines fields) :
    (∀ line ∈ lines, LineText line) ∧ ∀ line ∈ lines, line ≠ [] := by
  induction h with
  | nil => simp
  | cons hf _ ih =>
    simp only [List.mem_cons, forall_eq_or_imp]
    exact ⟨⟨hf.lineText.1, ih.1⟩, hf.lineText.2, ih.2⟩

/-! ### What the reader accepts -/

/-- What the request rules ask of a target, a version and the fields.  An HTTP/1.1 request has one
`Host`, the target has a path that decodes, and the only expectation is `100-continue`. -/
structure WellFormedRequest (target : Bytes) (version : ℕ) (fields : Headers) : Prop where
  host : version = 11 →
    ∃ host, fields.getAll (bytes "Host") = [host] ∧ host ≠ [] ∧ comma ∉ host
  path : ∃ routing, routingTarget target = .ok routing ∧
    ∃ path, urlDecode (rawPath routing) = .ok path
  expectation : fields.contains (bytes "Expect") = true →
    hasToken fields (bytes "Expect") (bytes "100-continue") = true

/-- The `Host` rule on the scanned fields. -/
lemma checkHost_headOf {startLine : Bytes} {fields : Headers} {version : ℕ} :
    checkHost version (headOf startLine fields) = .ok () ↔
      (version = 11 →
        ∃ host, fields.getAll (bytes "Host") = [host] ∧ host ≠ [] ∧ comma ∉ host) := by
  unfold checkHost
  split_ifs with hv hinvalid hhosts
  · simp only [hv, forall_const, false_iff]
    rintro ⟨host, hall, hne, hcomma⟩
    simp [headOf, scanned, hall, hne, hcomma] at hinvalid
  · simp only [hv, forall_const, false_iff]
    rintro ⟨host, hall, -, -⟩
    simp [headOf, scanned, hall] at hhosts
  · simp only [hv, forall_const, true_iff]
    rw [not_not] at hhosts
    obtain ⟨host, hall⟩ := List.length_eq_one_iff.mp hhosts
    refine ⟨host, hall, ?_⟩
    simpa [headOf, scanned, hall] using hinvalid
  · simp [hv]

/-- The request rules decide whether the parsed head becomes a request.  The request that comes out
is determined by the line, the fields and the decoded path. -/
theorem requestOfHead_eq_ok {startLine method target : Bytes} {version : ℕ} {fields : Headers}
    {duplicateHeaders : Bool} {result : RequestHeadResult} :
    requestOfHead (headOf startLine fields) method target version duplicateHeaders = .ok result ↔
      WellFormedRequest target version fields ∧
        ∃ routing path, routingTarget target = .ok routing ∧
          urlDecode (rawPath routing) = .ok path ∧
          result = requestHeadResult (headOf startLine fields) method target version routing path
            duplicateHeaders := by
  have hexpect : (headOf startLine fields).hasExpect = fields.contains (bytes "Expect") := rfl
  have hcontinue : (headOf startLine fields).expectContinue =
      hasToken fields (bytes "Expect") (bytes "100-continue") := rfl
  have hhost : checkHost version (headOf startLine fields) = .ok () ↔ _ := checkHost_headOf
  unfold requestOfHead
  split
  · rename_i e he
    rw [he] at hhost
    simp only [reduceCtorEq, false_iff] at hhost ⊢
    rintro ⟨hwf, -⟩
    exact hhost hwf.host
  · rename_i hok
    split
    · rename_i e he
      simp [he]
    · rename_i routing hrouting
      split
      · rename_i e he
        simp [hrouting, he]
      · rename_i path hpath
        rw [hexpect, hcontinue]
        split_ifs with hexp
        · simp only [false_iff]
          rintro ⟨hwf, -⟩
          exact hexp.2 (hwf.expectation hexp.1)
        · simp only [Except.ok.injEq]
          constructor
          · rintro rfl
            refine ⟨⟨hhost.mp hok, ⟨routing, hrouting, path, hpath⟩, ?_⟩, routing, path, hrouting,
              hpath, rfl⟩
            intro h
            by_contra hcont
            exact hexp ⟨h, hcont⟩
          · rintro ⟨-, routing', path', hrouting', hpath', rfl⟩
            rw [hrouting] at hrouting'
            cases hrouting'
            rw [hpath] at hpath'
            cases hpath'
            rfl

/-- A successfully read request head, with the lines it was read from.  It collects everything that
a success says: the bytes, the lines and the rules they meet, and the result as a function of them.
-/
structure RequestHeadRead (maxHeaderSize : ℕ) (duplicateHeaders : Bool) (input : Input)
    (result : RequestHeadResult) (after : Input) (start : Bytes) (lines : List Bytes)
    (fields : Headers) (routing path : Bytes) : Prop where
  available : input.available = headBytes start lines ++ (crlf ++ after.available)
  size : (headBytes start lines).length + 2 ≤ maxHeaderSize
  fieldLines : List.Forall₂ (fun line f => FieldLine line f.1 f.2) lines fields
  framing : FramingFields fields
  line : RequestLine start result.request.method result.request.target result.request.version
  rules : WellFormedRequest result.request.target result.request.version fields
  routes : routingTarget result.request.target = .ok routing
  decodes : urlDecode (rawPath routing) = .ok path
  eq : result = requestHeadResult (headOf start fields) result.request.method
    result.request.target result.request.version routing path duplicateHeaders

/-- `parse_request_head` on a head that was taken. -/
lemma requestHeadRead_of_parse {maxHeaderSize : ℕ} {duplicateHeaders : Bool}
    {input middle after : Input} {view : Bytes} {result : RequestHeadResult}
    (htaken : HeadTaken maxHeaderSize input view middle)
    (h : parseRequestHead middle view duplicateHeaders = (.ok result, after)) :
    ∃ start lines fields routing path, RequestHeadRead maxHeaderSize duplicateHeaders input result
      after start lines fields routing path := by
  obtain ⟨havail, hsize⟩ := htaken.consume
  obtain ⟨n, hn, -, hview⟩ := htaken.found
  obtain ⟨start, lines, hstart, hlines, hne, htake⟩ := exists_headBytes_of_find hn
  rw [hview, htake] at h havail hsize
  unfold parseRequestHead at h
  split at h
  · cases h
  · rename_i head hhead
    obtain ⟨-, -, fields, hfields, hframing, rfl⟩ :=
      (parseHead_eq_ok hstart hlines hne).mp hhead
    split at h
    · cases h
    · rename_i method target version hline
      simp only [Prod.mk.injEq] at h
      obtain ⟨hresult, rfl⟩ := h
      obtain ⟨hrules, routing, path, hrouting, hpath, rfl⟩ := (requestOfHead_eq_ok).mp hresult
      refine ⟨start, lines, fields, routing, path, havail, hsize, hfields, hframing, ?_, hrules,
        hrouting, hpath, rfl⟩
      exact (parseRequestLine_eq_ok).mp hline

/-- A request head that was read is well formed, and what follows it is left to read.  Together with
`readRequestHead_of_wellFormed` it says exactly which heads are read, and the theorems on framing
start from the two. -/
theorem requestHeadRead_of_ok {maxHeaderSize : ℕ} {duplicateHeaders : Bool} {input after : Input}
    {result : RequestHeadResult}
    (h : readRequestHead maxHeaderSize duplicateHeaders input = (.ok result, after)) :
    ∃ start lines fields routing path, RequestHeadRead maxHeaderSize duplicateHeaders input result
      after start lines fields routing path := by
  unfold readRequestHead at h
  split at h
  · cases h
  · rename_i view middle htake
    exact requestHeadRead_of_parse (headTaken_of_takeHeadBytes htake) h

/-- The head found in the input is the head that is there. -/
lemma HeadTaken.view_eq {maxHeaderSize : ℕ} {input after : Input} {start rest view : Bytes}
    {lines : List Bytes} (h : HeadTaken maxHeaderSize input view after) (hstart : LineText start)
    (hlines : ∀ line ∈ lines, LineText line) (hne : ∀ line ∈ lines, line ≠ [])
    (havail : input.available = headBytes start lines ++ (crlf ++ rest)) :
    view = headBytes start lines ∧ (after.consume (view.length + 2)).available = rest := by
  have hfind : find crlfCrlf input.available = some ((headBytes start lines).length - 2) := by
    rw [havail]
    exact find_headBytes hstart hlines hne rest
  have htwo : 2 ≤ (headBytes start lines).length := by
    simp only [headBytes, List.length_append, crlf_length]
    omega
  obtain ⟨n, hn, -, hview⟩ := h.found
  have hn' := find_available hn
  rw [h.available, hfind] at hn'
  have hlen : view.length = (headBytes start lines).length := by
    have hfit := find_add_length_le hn
    rw [crlfCrlf_length] at hfit
    simp only [Option.some.injEq] at hn'
    rw [hview, List.length_take]
    omega
  have hsplit := h.consume.1
  rw [havail] at hsplit
  obtain ⟨hhead, hrest⟩ := List.append_inj hsplit hlen.symm
  exact ⟨hhead.symm, (List.append_cancel_left hrest).symm⟩

/-- A well-formed request head within the size limit is read, however it arrives.  The cuts of the
stream do not matter, nor does what stands behind the head. -/
theorem readRequestHead_of_wellFormed {maxHeaderSize version : ℕ} {duplicateHeaders : Bool}
    {input : Input} {start rest method target : Bytes} {lines : List Bytes} {fields : Headers}
    (havail : input.available = headBytes start lines ++ (crlf ++ rest))
    (hsize : (headBytes start lines).length + 2 ≤ maxHeaderSize)
    (hfields : List.Forall₂ (fun line f => FieldLine line f.1 f.2) lines fields)
    (hframing : FramingFields fields) (hline : RequestLine start method target version)
    (hrules : WellFormedRequest target version fields) :
    ∃ routing path after, routingTarget target = .ok routing ∧
      urlDecode (rawPath routing) = .ok path ∧ after.available = rest ∧
      readRequestHead maxHeaderSize duplicateHeaders input =
        (.ok (requestHeadResult (headOf start fields) method target version routing path
          duplicateHeaders), after) := by
  have hvalid := hline.validHeaderValue
  have hstart := lineText_of_validHeaderValue hvalid
  obtain ⟨hlines, hne⟩ := lineTexts_of_fieldLines hfields
  have hstart' : start ≠ [] := by
    rw [hline.eq]
    simp
  obtain ⟨routing, hrouting, path, hpath⟩ := hrules.path
  have hfind : find crlfCrlf input.available = some ((headBytes start lines).length - 2) := by
    rw [havail]
    exact find_headBytes hstart hlines hne rest
  have htwo : 2 ≤ (headBytes start lines).length := by
    simp only [headBytes, List.length_append, crlf_length]
    omega
  have hmax : (headBytes start lines).length - 2 + 4 ≤ maxHeaderSize := by omega
  obtain ⟨view, after, htake, htaken⟩ := takeHeadBytes_of_find hfind hmax
  obtain ⟨rfl, hrest⟩ := htaken.view_eq hstart hlines hne havail
  have hhead : parseHead (headBytes start lines) = .ok (headOf start fields) :=
    (parseHead_eq_ok hstart hlines hne).mpr ⟨hstart', hvalid, fields, hfields, hframing, rfl⟩
  have hparsed : parseRequestLine (headOf start fields).startLine =
      .ok (method, target, version) := (parseRequestLine_eq_ok).mpr hline
  have hrequest : requestOfHead (headOf start fields) method target version duplicateHeaders =
      .ok (requestHeadResult (headOf start fields) method target version routing path
        duplicateHeaders) :=
    (requestOfHead_eq_ok).mpr ⟨hrules, routing, path, hrouting, hpath, rfl⟩
  refine ⟨routing, path, _, hrouting, hpath, hrest, ?_⟩
  rw [readRequestHead, htake]
  simp only [parseRequestHead, hhead, hparsed, hrequest]

/-- The framing of an accepted head, in the words of the fields.  It turns what the scan has
recorded into statements about the field lines. -/
lemma framing_of_requestHeadRead {maxHeaderSize : ℕ} {duplicateHeaders : Bool}
    {input after : Input} {result : RequestHeadResult} {start routing path : Bytes}
    {lines : List Bytes} {fields : Headers}
    (h : RequestHeadRead maxHeaderSize duplicateHeaders input result after start lines fields
      routing path) :
    (∀ n, result.body.contentLength = some n ↔
      fields.getAll (bytes "Content-Length") ≠ [] ∧
        ∀ value ∈ elements fields (bytes "Content-Length"), IsDecimal value n) ∧
    (result.body.chunked = true ↔
      ∃ coding, elements fields (bytes "Transfer-Encoding") = [coding] ∧
        iequals coding (bytes "chunked") = true) ∧
    ¬ (result.body.contentLength.isSome = true ∧ result.body.chunked = true) := by
  have hlength : result.body.contentLength = lengthOf (elements fields (bytes "Content-Length")) := by
    rw [h.eq]
    rfl
  have hchunked : result.body.chunked =
      !(elements fields (bytes "Transfer-Encoding")).isEmpty := by
    rw [h.eq]
    rfl
  obtain ⟨hagree, hcodings⟩ := h.framing
  refine ⟨?_, ?_, ?_⟩
  · intro n
    rw [hlength, Ne, ← elements_eq_nil_iff]
    constructor
    · intro hn
      have hne : elements fields (bytes "Content-Length") ≠ [] := by
        intro hnil
        rw [hnil] at hn
        cases hn
      refine ⟨hne, fun value hvalue => (fromChars_ten).mp ?_⟩
      rw [← hagree.lengthOf_eq hvalue, hn]
    · rintro ⟨hne, hall⟩
      obtain ⟨value, hvalue⟩ := List.exists_mem_of_ne_nil _ hne
      rw [hagree.lengthOf_eq hvalue]
      exact (fromChars_ten).mpr (hall value hvalue)
  · rw [hchunked]
    rcases hcodings with hnil | ⟨coding, hone, heq, -⟩
    · simp [hnil]
    · simp [hone, heq]
  · rw [hlength, hchunked, hagree.isSome_lengthOf]
    rcases hcodings with hnil | ⟨coding, hone, -, hnil⟩
    · simp [hnil]
    · simp [hnil]

/-- Inbound head framing.  A request head that is read ends at the first double line end, whatever
the cuts.  Its first line is the request line, so that every other line of it is a field line; its
fields are those of the field lines, in order; its length and its transfer coding are what all its
framing fields say together, never both; and an HTTP/1.1 request has exactly one `Host`.
Conversely, a head within the size limit whose framing fields meet these rules is read, with the
request line and the fields that it has, and the bytes behind it are left. -/
theorem readRequestHead_framing (maxHeaderSize : ℕ) (duplicateHeaders : Bool) (input : Input) :
    (∀ result after, readRequestHead maxHeaderSize duplicateHeaders input = (.ok result, after) →
      ∃ start lines,
        (input.available = headBytes start lines ++ (crlf ++ after.available) ∧
          find crlfCrlf input.available = some ((headBytes start lines).length - 2) ∧
          (headBytes start lines).length + 2 ≤ maxHeaderSize) ∧
        RequestLine start result.request.method result.request.target result.request.version ∧
        (List.Forall₂ (fun line f =>
            (∃ raw, colon ∉ f.1 ∧ line = f.1 ++ colon :: raw ∧ f.2 = trimOws raw) ∧
              validHeaderName f.1 = true ∧ ∀ c ∈ f.2, c = htab ∨ 0x20 ≤ c ∧ c ≠ 0x7f)
          lines result.body.headers) ∧
        (∀ n, result.body.contentLength = some n ↔
          result.body.headers.getAll (bytes "Content-Length") ≠ [] ∧
            ∀ value ∈ elements result.body.headers (bytes "Content-Length"), IsDecimal value n) ∧
        (result.body.chunked = true ↔
          ∃ coding, elements result.body.headers (bytes "Transfer-Encoding") = [coding] ∧
            iequals coding (bytes "chunked") = true) ∧
        ¬ (result.body.contentLength.isSome = true ∧ result.body.chunked = true) ∧
        (result.request.version = 11 →
          ∃ host, result.body.headers.getAll (bytes "Host") = [host] ∧ host ≠ [] ∧
            comma ∉ host)) ∧
    ∀ start lines fields method target version rest,
      input.available = headBytes start lines ++ (crlf ++ rest) →
      (headBytes start lines).length + 2 ≤ maxHeaderSize →
      List.Forall₂ (fun line f => FieldLine line f.1 f.2) lines fields →
      RequestLine start method target version → WellFormedRequest target version fields →
      (elements fields (bytes "Content-Length") = [] ∨
        ∃ n, ∀ value ∈ elements fields (bytes "Content-Length"), IsDecimal value n) →
      (elements fields (bytes "Transfer-Encoding") = [] ∨
        ∃ coding, elements fields (bytes "Transfer-Encoding") = [coding] ∧
          iequals coding (bytes "chunked") = true ∧
          elements fields (bytes "Content-Length") = []) →
      ∃ result after, readRequestHead maxHeaderSize duplicateHeaders input = (.ok result, after) ∧
        result.request.method = method ∧ result.request.target = target ∧
        result.request.version = version ∧ result.body.headers = fields ∧
        after.available = rest := by
  constructor
  · intro result after h
    obtain ⟨start, lines, fields, routing, path, hread⟩ := requestHeadRead_of_ok h
    have hheaders : result.body.headers = fields := by
      rw [hread.eq]
      rfl
    -- the framing the reader found is what the fields say
    obtain ⟨hlength, hchunked, hnot⟩ := framing_of_requestHeadRead hread
    obtain ⟨hlines, hne⟩ := lineTexts_of_fieldLines hread.fieldLines
    rw [hheaders]
    refine ⟨start, lines, ⟨hread.available, ?_, hread.size⟩, hread.line, ?_, hlength, hchunked,
      hnot, hread.rules.host⟩
    · rw [hread.available]
      exact find_headBytes (lineText_of_validHeaderValue hread.line.validHeaderValue) hlines hne _
    · refine hread.fieldLines.imp ?_
      rintro line ⟨name, value⟩ ⟨⟨raw, hsplit, hraw⟩, hname, hvalue⟩
      refine ⟨⟨raw, colon_not_mem_of_validHeaderName hname, hsplit, hraw.symm⟩, hname, ?_⟩
      exact fun c hc => (fieldValueCharacter_iff).mp (List.all_eq_true.mp hvalue c hc)
  · intro start lines fields method target version rest havail hsize hfields hline hrules hlen hte
    -- the two rules on the framing fields, in the terms of the reader's loop
    have hframing : FramingFields fields := by
      refine ⟨?_, hte⟩
      rcases hlen with hnil | ⟨n, hn⟩
      · exact ⟨0, by simp [hnil]⟩
      · exact ⟨n, fun value hvalue => (fromChars_ten).mpr (hn value hvalue)⟩
    obtain ⟨routing, path, after, -, -, hafter, hread⟩ :=
      readRequestHead_of_wellFormed havail hsize hfields hframing hline hrules
    exact ⟨_, after, hread, rfl, rfl, rfl, rfl, hafter⟩

/-- A request with a body of two bytes, cut in the middle of its end, is read. -/
theorem readRequestHead_framing_cut :
    ∃ result after, readRequestHead 64 true
        ⟨bytes "GET / HTTP/1.1\r\nHost: a\r\nContent-Length: 2\r", [.data (bytes "\n\r"),
          .data (bytes "\nhi")]⟩ = (.ok result, after) ∧
      result.request.method = bytes "GET" ∧ result.request.target = bytes "/" ∧
      result.request.version = 11 ∧
      result.body.headers = [(bytes "Host", bytes "a"), (bytes "Content-Length", bytes "2")] ∧
      after.available = bytes "hi" := by
  have hhost : FieldLine (bytes "Host: a") (bytes "Host") (bytes "a") :=
    ⟨⟨bytes " a", by decide, by decide⟩, by decide, by decide⟩
  have hlength : FieldLine (bytes "Content-Length: 2") (bytes "Content-Length") (bytes "2") :=
    ⟨⟨bytes " 2", by decide, by decide⟩, by decide, by decide⟩
  refine (readRequestHead_framing 64 true _).2 (bytes "GET / HTTP/1.1")
    [bytes "Host: a", bytes "Content-Length: 2"]
    [(bytes "Host", bytes "a"), (bytes "Content-Length", bytes "2")]
    (bytes "GET") (bytes "/") 11 (bytes "hi") rfl (by decide +kernel)
    (.cons hhost (.cons hlength .nil)) ?_ ?_ (Or.inr ⟨2, ?_⟩) (Or.inl (by decide))
  · exact ⟨by decide, by decide, by decide, by decide, by decide +kernel⟩
  · exact ⟨fun _ => ⟨bytes "a", by decide, by decide, by decide⟩,
      ⟨bytes "/", rfl, bytes "/", rfl⟩, by decide⟩
  · intro value hvalue
    have : value = bytes "2" := by
      have hel : elements [(bytes "Host", bytes "a"), (bytes "Content-Length", bytes "2")]
          (bytes "Content-Length") = [bytes "2"] := by decide
      rw [hel, List.mem_singleton] at hvalue
      exact hvalue
    subst this
    exact ⟨by decide, by decide +kernel, by decide, by norm_num⟩

end Chhttp
