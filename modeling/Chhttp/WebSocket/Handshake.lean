import Chhttp.Common.Base64
import Chhttp.Common.Digest
import Chhttp.Common.Rebuild
import Chhttp.Protocol.RequestRoundTrip
import Chhttp.Protocol.ResponseRoundTrip
import Chhttp.Server.Session

/-!
# The opening handshake of a WebSocket

The client part is `websocket_client_connect`, from the connection on; the server part is
`is_websocket_upgrade`, `websocket_server_handshake` and the choice of the subprotocol in the session
of `server.cpp`.  SHA-1 is a function of the cryptographic library, which need not be built in.

`websocket_handshake_agrees` puts the two parts together: what the client writes is an upgrade for
the server, and what the server answers is accepted by the client, with the same subprotocol.
-/

namespace Chhttp

open ListSearch Fragment

namespace WebSocket

/-! ### The source -/

/-- `websocket_accept`. -/
def websocketAccept (sha1 : Option (Bytes → Bytes)) (key : Bytes) : Bytes :=
  match sha1 with
  | some sha1 => base64Text (sha1 (key ++ bytes "258EAFA5-E914-47DA-95CA-C5AB0DC85B11"))
  | none => []

/-- What the loop of `is_websocket_upgrade` has found.  Versions and keys are counted, because a
second one makes the request no upgrade. -/
structure UpgradeFields where
  connectionUpgrade : Bool := false
  upgradeWebsocket : Bool := false
  versions : ℕ := 0
  keys : ℕ := 0

/-- One field; another version ends the search. -/
def upgradeField (s : UpgradeFields) (field : Bytes × Bytes) : Option UpgradeFields :=
  if iequals field.1 (bytes "Connection") then
    if s.connectionUpgrade then some s
    else some { s with connectionUpgrade := headerValueHasToken field.2 (bytes "upgrade") }
  else if iequals field.1 (bytes "Upgrade") then
    if s.upgradeWebsocket then some s
    else some { s with upgradeWebsocket := headerValueHasToken field.2 (bytes "websocket") }
  else if iequals field.1 (bytes "Sec-WebSocket-Version") then
    if field.2 ≠ bytes "13" then none else some { s with versions := s.versions + 1 }
  else if iequals field.1 (bytes "Sec-WebSocket-Key") then some { s with keys := s.keys + 1 }
  else some s

/-- `is_websocket_upgrade`: one pass over the fields, which counts versions and keys and notes the
tokens. -/
def isWebsocketUpgrade (request : Request) : Bool :=
  iequals request.method (bytes "GET") &&
    (request.headers.foldlM upgradeField {}).any fun s =>
      s.connectionUpgrade && s.upgradeWebsocket && s.versions == 1 && s.keys == 1

/-- The tokens of all fields `Sec-WebSocket-Protocol`.  The order is that of the client's
preference. -/
def subprotocols (headers : Headers) : List Bytes :=
  (headers.getAll (bytes "Sec-WebSocket-Protocol")).flatMap (Digest.splitTokens · comma)

/-- The subprotocol that the session of the server selects.  A selector that returns something that
was not offered selects nothing. -/
def selectSubprotocol (selector : Option (List Bytes → Bytes)) (request : Request) : Bytes :=
  let offered := subprotocols request.headers
  let selected := selector.elim [] (· offered)
  if selected ≠ [] ∧ (validHeaderName selected = false ∨ offered.contains selected = false) then []
  else selected

/-- The fields of the server's answer. -/
def acceptFields (sha1 : Option (Bytes → Bytes)) (key subprotocol : Bytes) : Headers :=
  [(bytes "Upgrade", bytes "websocket"), (bytes "Connection", bytes "Upgrade"),
    (bytes "Sec-WebSocket-Accept", websocketAccept sha1 key)] ++
  if subprotocol = [] then [] else [(bytes "Sec-WebSocket-Protocol", subprotocol)]

/-- What `websocket_server_handshake` writes.  The key must be the encoding of sixteen bytes. -/
def websocketServerHandshake (sha1 : Option (Bytes → Bytes)) (request : Request)
    (subprotocol : Bytes) : Result Bytes :=
  let key := (findHeader request.headers (bytes "Sec-WebSocket-Key")).getD []
  match base64Decode key with
  | .ok decoded =>
    if decoded.length ≠ 16 then
      .error { code := .websocketHandshake, message := "Invalid Sec-WebSocket-Key" }
    else
      serializeHead (bytes "HTTP/1.1 101 Switching Protocols") (acceptFields sha1 key subprotocol)
        [] []
  | .error _ => .error { code := .websocketHandshake, message := "Invalid Sec-WebSocket-Key" }

/-- The request that `websocket_client_connect` writes. -/
def upgradeRequest (url : ParsedUrl) (headers : Headers) (key : Bytes) : Result Request :=
  if (subprotocols headers).any fun protocol => !validHeaderName protocol then
    .error { code := .websocketHandshake, message := "Invalid requested WebSocket subprotocol" }
  else
    .ok {
      method := bytes "GET"
      target := url.target
      headers :=
        ((((headers.set (bytes "Host") url.authority).set (bytes "Upgrade") (bytes "websocket")).set
          (bytes "Connection") (bytes "Upgrade")).set (bytes "Sec-WebSocket-Version")
            (bytes "13")).set (bytes "Sec-WebSocket-Key") key }

/-- The checks of the client on the answer; the result is the subprotocol. -/
def acceptUpgrade (sha1 : Option (Bytes → Bytes)) (key : Bytes) (requested : List Bytes)
    (response : Response) : Result Bytes :=
  if response.status ≠ 101 ∨ hasToken response.headers (bytes "Upgrade") (bytes "websocket") = false ∨
      hasToken response.headers (bytes "Connection") (bytes "upgrade") = false ∨
      (response.headers.getAll (bytes "Sec-WebSocket-Accept")).length ≠ 1 ∨
      1 < (response.headers.getAll (bytes "Sec-WebSocket-Protocol")).length ∨
      (findHeader response.headers (bytes "Sec-WebSocket-Accept")).getD [] ≠
        websocketAccept sha1 key then
    .error { code := .websocketHandshake, message := "WebSocket upgrade was rejected" }
  else
    let selected := (findHeader response.headers (bytes "Sec-WebSocket-Protocol")).getD []
    if selected ≠ [] ∧ (validHeaderName selected = false ∨ requested.contains selected = false) then
      .error { code := .websocketHandshake,
               message := "Server selected an unrequested WebSocket subprotocol" }
    else .ok selected

/-- What `websocket_client_connect` does with the answer.  It reads a response and checks it; bytes
behind the head are left for the frames. -/
def readUpgrade (sha1 : Option (Bytes → Bytes)) (decoder : Decoder) (options : HttpReadOptions)
    (key : Bytes) (requested : List Bytes) (input : Input) : Result Bytes × Input :=
  match readResponse decoder (bytes "GET") options input with
  | (.error e, input) => (.error e, input)
  | (.ok response, input) => (acceptUpgrade sha1 key requested response, input)

/-! ### The search for the fields of an upgrade -/

/-- A field with one name does not have another one. -/
lemma iequals_false_of_iequals {name first second : Bytes} (h : iequals name first = true)
    (hne : iequals first second = false) : iequals name second = false := by
  rw [iequals_congr h, hne]

/-- A token of one of the fields. -/
lemma hasToken_cons (f : Bytes × Bytes) (headers : Headers) (name token : Bytes) :
    hasToken (f :: headers) name token =
      (iequals f.1 name && headerValueHasToken f.2 token || hasToken headers name token) := by
  rw [hasToken, List.any_cons]
  rfl

/-- A single pass finds the tokens, the versions and the keys. -/
lemma foldlM_upgradeField (headers : Headers) (s : UpgradeFields) :
    headers.foldlM upgradeField s =
      if ∀ version ∈ headers.getAll (bytes "Sec-WebSocket-Version"), version = bytes "13" then
        some {
          connectionUpgrade :=
            s.connectionUpgrade || hasToken headers (bytes "Connection") (bytes "upgrade")
          upgradeWebsocket :=
            s.upgradeWebsocket || hasToken headers (bytes "Upgrade") (bytes "websocket")
          versions := s.versions + (headers.getAll (bytes "Sec-WebSocket-Version")).length
          keys := s.keys + (headers.getAll (bytes "Sec-WebSocket-Key")).length }
      else none := by
  induction headers generalizing s with
  | nil => simp [hasToken, Headers.getAll]
  | cons f headers ih =>
    rw [List.foldlM_cons, upgradeField, Headers.getAll_cons, Headers.getAll_cons, hasToken_cons,
      hasToken_cons]
    by_cases hconnection : iequals f.1 (bytes "Connection") = true
    · have hupgrade := iequals_false_of_iequals hconnection
        (by decide : iequals (bytes "Connection") (bytes "Upgrade") = false)
      have hversion := iequals_false_of_iequals hconnection
        (by decide : iequals (bytes "Connection") (bytes "Sec-WebSocket-Version") = false)
      have hkey := iequals_false_of_iequals hconnection
        (by decide : iequals (bytes "Connection") (bytes "Sec-WebSocket-Key") = false)
      cases hs : s.connectionUpgrade <;>
        simp [hconnection, hupgrade, hversion, hkey, hs, ih]
    · rw [Bool.not_eq_true] at hconnection
      by_cases hupgrade : iequals f.1 (bytes "Upgrade") = true
      · have hversion := iequals_false_of_iequals hupgrade
          (by decide : iequals (bytes "Upgrade") (bytes "Sec-WebSocket-Version") = false)
        have hkey := iequals_false_of_iequals hupgrade
          (by decide : iequals (bytes "Upgrade") (bytes "Sec-WebSocket-Key") = false)
        cases hs : s.upgradeWebsocket <;>
          simp [hconnection, hupgrade, hversion, hkey, hs, ih]
      · rw [Bool.not_eq_true] at hupgrade
        by_cases hversion : iequals f.1 (bytes "Sec-WebSocket-Version") = true
        · have hkey := iequals_false_of_iequals hversion
            (by decide : iequals (bytes "Sec-WebSocket-Version") (bytes "Sec-WebSocket-Key") = false)
          by_cases hvalue : f.2 = bytes "13"
          · simp [hconnection, hupgrade, hversion, hkey, hvalue, ih, Nat.add_assoc, Nat.add_comm 1]
          · simp [hconnection, hupgrade, hversion, hvalue]
        · rw [Bool.not_eq_true] at hversion
          by_cases hkey : iequals f.1 (bytes "Sec-WebSocket-Key") = true
          · simp [hconnection, hupgrade, hversion, hkey, ih, Nat.add_assoc, Nat.add_comm 1]
          · simp [hconnection, hupgrade, hversion, hkey, ih]

/-- An upgrade: a `GET` request with both tokens, one version and one key.  The loop of the source
stops early at a wrong version; the equivalence says that this changes nothing. -/
theorem isWebsocketUpgrade_iff {request : Request} :
    isWebsocketUpgrade request = true ↔ iequals request.method (bytes "GET") = true ∧
      hasToken request.headers (bytes "Connection") (bytes "upgrade") = true ∧
      hasToken request.headers (bytes "Upgrade") (bytes "websocket") = true ∧
      request.headers.getAll (bytes "Sec-WebSocket-Version") = [bytes "13"] ∧
      (request.headers.getAll (bytes "Sec-WebSocket-Key")).length = 1 := by
  have hversions : (∀ version ∈ request.headers.getAll (bytes "Sec-WebSocket-Version"),
      version = bytes "13") ∧ (request.headers.getAll (bytes "Sec-WebSocket-Version")).length = 1 ↔
        request.headers.getAll (bytes "Sec-WebSocket-Version") = [bytes "13"] := by
    constructor
    · rintro ⟨hall, hone⟩
      obtain ⟨version, hversion⟩ := List.length_eq_one_iff.mp hone
      rw [hversion] at hall ⊢
      rw [hall version List.mem_cons_self]
    · intro h
      rw [h]
      exact ⟨fun version hversion => List.mem_singleton.mp hversion, rfl⟩
  rw [isWebsocketUpgrade, foldlM_upgradeField, ← hversions]
  split_ifs with hall
  · simp only [Option.any_some, Bool.false_or, Nat.zero_add, Bool.and_eq_true, beq_iff_eq]
    tauto
  · simp only [Option.any_none, Bool.and_false, Bool.false_eq_true, false_iff]
    tauto

/-- The single pass decides what the session of the server asks for.  The two models of the source's
predicates are written for different callers, and this connects them. -/
theorem isWebsocketUpgrade_eq (request : Request) :
    isWebsocketUpgrade request = Chhttp.isWebsocketUpgrade request := by
  rw [Bool.eq_iff_iff, isWebsocketUpgrade_iff, Chhttp.isWebsocketUpgrade]
  simp only [Bool.and_eq_true, beq_iff_eq, and_assoc]

/-! ### Texts -/

/-- A character of a Base64 text. -/
lemma plain_of_mem_base64 {c : UInt8} (h : c ∈ base64Alphabet ∨ c = padChar) :
    isOws c = false ∧ fieldValueCharacter c = true := by
  have hall : (padChar :: base64Alphabet).all
      (fun c => !isOws c && fieldValueCharacter c) = true := by decide +kernel
  have hmem : c ∈ padChar :: base64Alphabet := by
    rw [List.mem_cons]
    exact h.symm
  simpa using List.all_eq_true.mp hall c hmem

/-- A Base64 text is a field value without blanks, and it is decoded. -/
lemma base64Text_spec (value : Bytes) :
    base64Decode (base64Text value) = .ok value ∧ trimOws (base64Text value) = base64Text value ∧
      validHeaderValue (base64Text value) = true := by
  have hdecode : base64Decode (encoded value) = .ok value := by
    have hmod : ¬ (encoded value).length % 4 ≠ 0 := by
      rw [length_encoded]
      omega
    exact (if_neg hmod).trans (decodeQuartets_encoded value)
  obtain ⟨text, padding, heq, -, halphabet⟩ := (base64Decode_ok_iff.mp ⟨value, hdecode⟩).chars
  have hplain : ∀ c ∈ encoded value, isOws c = false ∧ fieldValueCharacter c = true := by
    intro c hc
    rw [heq] at hc
    rcases List.mem_append.mp hc with hc | hc
    · exact plain_of_mem_base64 (.inl (halphabet c hc))
    · exact plain_of_mem_base64 (.inr (List.eq_of_mem_replicate hc))
  rw [base64Text_eq]
  exact ⟨hdecode, trimOws_eq_self fun c hc => (hplain c hc).1,
    List.all_eq_true.mpr fun c hc => (hplain c hc).2⟩

/-- What proves that the server has understood the key is a field value without blanks. -/
lemma websocketAccept_spec (sha1 : Option (Bytes → Bytes)) (key : Bytes) :
    trimOws (websocketAccept sha1 key) = websocketAccept sha1 key ∧
      validHeaderValue (websocketAccept sha1 key) = true := by
  cases sha1 with
  | none => exact ⟨rfl, rfl⟩
  | some sha1 => exact (base64Text_spec _).2

/-- A blank behind a text is behind its last piece. -/
lemma splitOn_concat {sep c : UInt8} (hc : c ≠ sep) (value : Bytes) :
    ∃ pieces last, value.splitOn sep = pieces ++ [last] ∧
      (value ++ [c]).splitOn sep = pieces ++ [last ++ [c]] := by
  induction value with
  | nil =>
    refine ⟨[], [], List.splitOn_nil sep, ?_⟩
    exact List.splitOn_eq_singleton fun hmem => hc (List.mem_singleton.mp hmem).symm
  | cons x value ih =>
    obtain ⟨pieces, last, hvalue, hconcat⟩ := ih
    rw [List.cons_append, List.splitOn_cons_eq_if_modifyHead, List.splitOn_cons_eq_if_modifyHead,
      hvalue, hconcat]
    by_cases hx : (x == sep) = true
    · rw [if_pos hx, if_pos hx]
      exact ⟨[] :: pieces, last, rfl, rfl⟩
    · rw [if_neg hx, if_neg hx]
      cases pieces with
      | nil => exact ⟨[], x :: last, rfl, rfl⟩
      | cons piece pieces => exact ⟨(x :: piece) :: pieces, last, rfl, rfl⟩

/-- Blanks around a text do not change its tokens.  Every token is trimmed anyway. -/
lemma splitTokens_trimOws (value : Bytes) :
    Digest.splitTokens (trimOws value) comma = Digest.splitTokens value comma := by
  have hspace : ∀ c, isOws c = true → isSpace c = true ∧ c ≠ comma := by
    intro c hc
    rw [isOws, Bool.or_eq_true, beq_iff_eq, beq_iff_eq] at hc
    rcases hc with rfl | rfl <;> exact ⟨rfl, by decide⟩
  have hcons : ∀ (c : UInt8) (v : Bytes), isOws c = true →
      Digest.splitTokens (c :: v) comma = Digest.splitTokens v comma := by
    intro c v hc
    obtain ⟨hblank, hne⟩ := hspace c hc
    rw [Digest.splitTokens, Digest.splitTokens, List.splitOn_cons_eq_if_modifyHead,
      if_neg (by simpa using hne)]
    cases hv : v.splitOn comma with
    | nil => rfl
    | cons piece pieces =>
      have htrim : trim (c :: piece) = trim piece := trimWith_cons_of_pos hblank piece
      rw [List.modifyHead_cons, List.map_cons, List.map_cons, htrim]
  have hconcat : ∀ (c : UInt8) (v : Bytes), isOws c = true →
      Digest.splitTokens (v ++ [c]) comma = Digest.splitTokens v comma := by
    intro c v hc
    obtain ⟨hblank, hne⟩ := hspace c hc
    obtain ⟨pieces, last, hv, hvc⟩ := splitOn_concat hne v
    have htrim : trim (last ++ [c]) = trim last := trimWith_concat_of_pos hblank last
    rw [Digest.splitTokens, Digest.splitTokens, hv, hvc, List.map_append, List.map_append,
      List.map_singleton, List.map_singleton, htrim]
  obtain ⟨left, right, heq, hleft, hright⟩ := exists_trimWith isOws value
  have hdropLeft : ∀ (l v : Bytes), (∀ c ∈ l, isOws c = true) →
      Digest.splitTokens (l ++ v) comma = Digest.splitTokens v comma := by
    intro l v hl
    induction l with
    | nil => rfl
    | cons c l ih =>
      rw [List.cons_append, hcons c _ (hl c List.mem_cons_self)]
      exact ih fun c' hc' => hl c' (List.mem_cons_of_mem _ hc')
  have hdropRight : ∀ (r v : Bytes), (∀ c ∈ r, isOws c = true) →
      Digest.splitTokens (v ++ r) comma = Digest.splitTokens v comma := by
    intro r v hr
    induction r using List.reverseRecOn with
    | nil => rw [List.append_nil]
    | append_singleton r c ih =>
      rw [← List.append_assoc, hconcat c _ (hr c (by simp))]
      exact ih fun c' hc' => hr c' (List.mem_append_left _ hc')
  conv_rhs => rw [heq]
  rw [hdropLeft left _ hleft, hdropRight right _ hright, trimOws]

/-- The subprotocols of fields as their reader sees them. -/
lemma subprotocols_trimField (fields : Headers) :
    subprotocols (fields.map trimField) = subprotocols fields := by
  rw [subprotocols, subprotocols, getAll_map_trimField, List.flatMap_map]
  exact congrArg (List.flatMap · _) (funext splitTokens_trimOws)

/-! ### The selected subprotocol -/

/-- The selected subprotocol is one that was offered, and a token, or there is none. -/
lemma selectSubprotocol_spec (selector : Option (List Bytes → Bytes)) (request : Request) :
    selectSubprotocol selector request = [] ∨
      validHeaderName (selectSubprotocol selector request) = true ∧
        selectSubprotocol selector request ∈ subprotocols request.headers := by
  unfold selectSubprotocol
  dsimp only
  split_ifs with h
  · exact .inl rfl
  · rw [not_and, not_or, Bool.not_eq_false, Bool.not_eq_false, List.contains_iff_mem] at h
    by_cases hempty : selector.elim [] (· (subprotocols request.headers)) = []
    · exact .inl hempty
    · exact .inr (h hempty)

/-! ### The request on the wire -/

section Upgrade

variable {url : ParsedUrl} {headers : Headers} {key : Bytes} {request : Request}

/-- A request without a body, whose fields are the ones of the handshake and those of the caller. -/
lemma upgradeRequest_spec (h : upgradeRequest url headers key = .ok request) :
    request.method = bytes "GET" ∧ request.body = [] ∧ request.bodyStream = none ∧
      request.headers.getAll (bytes "Host") = [url.authority] ∧
      request.headers.getAll (bytes "Upgrade") = [bytes "websocket"] ∧
      request.headers.getAll (bytes "Connection") = [bytes "Upgrade"] ∧
      request.headers.getAll (bytes "Sec-WebSocket-Version") = [bytes "13"] ∧
      request.headers.getAll (bytes "Sec-WebSocket-Key") = [key] ∧
      ∀ name, (∀ set ∈ [bytes "Host", bytes "Upgrade", bytes "Connection",
        bytes "Sec-WebSocket-Version", bytes "Sec-WebSocket-Key"], iequals set name = false) →
          request.headers.getAll name = headers.getAll name := by
  unfold upgradeRequest at h
  split_ifs at h
  cases h
  refine ⟨rfl, rfl, rfl, ?_, ?_, ?_, ?_, ?_, fun name hname => ?_⟩
  · rw [Headers.getAll_set_of_ne _ (by decide), Headers.getAll_set_of_ne _ (by decide),
      Headers.getAll_set_of_ne _ (by decide), Headers.getAll_set_of_ne _ (by decide),
      Headers.getAll_set_self]
  · rw [Headers.getAll_set_of_ne _ (by decide), Headers.getAll_set_of_ne _ (by decide),
      Headers.getAll_set_of_ne _ (by decide), Headers.getAll_set_self]
  · rw [Headers.getAll_set_of_ne _ (by decide), Headers.getAll_set_of_ne _ (by decide),
      Headers.getAll_set_self]
  · rw [Headers.getAll_set_of_ne _ (by decide), Headers.getAll_set_self]
  · exact Headers.getAll_set_self _ _ _
  · simp only [List.mem_cons, List.not_mem_nil, or_false, forall_eq_or_imp, forall_eq] at hname
    obtain ⟨hhost, hupgrade, hconnection, hversion, hkey⟩ := hname
    rw [Headers.getAll_set_of_ne _ hkey, Headers.getAll_set_of_ne _ hversion,
      Headers.getAll_set_of_ne _ hconnection, Headers.getAll_set_of_ne _ hupgrade,
      Headers.getAll_set_of_ne _ hhost]

/-- A buffered request without a body that the client writes on a reliable transport is read by the
server, with its fields, whatever follows. -/
lemma readRequest_of_bodiless {wireTarget host path rest : Bytes} {output output' : Output}
    {decoder : Decoder} {options : HttpReadOptions} {input : Input} {serverOutput : Output}
    (hbody : request.body = [] ∧ request.bodyStream = none) (hreliable : output.Reliable)
    (hwrite : writeRequest request wireTarget none output = (none, output'))
    (htarget : wireTarget.head? = some slash) (hpath : urlDecode (rawPath wireTarget) = .ok path)
    (hhost : request.headers.getAll (bytes "Host") = [host]) (hblank : trimOws host ≠ [])
    (hcomma : comma ∉ host) (hexpect : request.headers.contains (bytes "Expect") = false)
    (hcoding : request.headers.contains (bytes "Content-Encoding") = false)
    (hbuf : options.Buffered)
    (hhead : ∀ head, serializeRequest request wireTarget = .ok head →
      head.length ≤ options.maxHeaderSize)
    (havail : output.bytes ++ input.available = output'.bytes ++ rest) :
    ∃ received after, readRequest decoder options input serverOutput =
        (.ok received, after, serverOutput) ∧
      received.method = request.method ∧ received.headers =
        (mergeFields (requestOverrides request) (requestOmitted request) request.headers).map
          trimField ∧ after.available = rest := by
  have hlength : request.declaredLength < 2 ^ 64 := by
    rw [Request.declaredLength, hbody.1, hbody.2]
    exact Nat.two_pow_pos 64
  obtain ⟨word, hbytes, hsent⟩ := writtenRequest_of_writeRequest hreliable hwrite htarget hpath hhost
    hblank hcomma hexpect hlength hhead
  have hkept : (writtenRequestFields request).getAll (bytes "Content-Encoding") =
      request.headers.getAll (bytes "Content-Encoding") :=
    getAll_written (writerSets_eq_false request (by decide))
  have hplain : contentCoding options ((writtenRequestFields request).map trimField) = none := by
    rw [Headers.contains_eq_false_iff] at hcoding
    rw [contentCoding, Headers.findHeader_eq_head?, getAll_map_trimField, hkept, hcoding]
    split_ifs <;> rfl
  have hempty : sentBody request = [] := by
    rw [sentBody, hbody.2]
    exact hbody.1
  rw [hbytes, List.append_assoc, List.append_assoc, List.append_assoc,
    List.append_cancel_left_eq] at havail
  obtain ⟨received, after, hread, hmethod, -, -, -, hfields, hrest⟩ :=
    @readRequest_of_plain decoder options hbuf input serverOutput _ _ _ _ _ _ _ _ _ havail hsent.size
      hsent.fields hsent.framing hsent.line hsent.rules hsent.expect hplain hsent.frame
      (by rw [hempty]; exact Nat.zero_le _)
  exact ⟨received, after, hread, hmethod, hfields, hrest⟩

end Upgrade

/-! ### The answer on the wire -/

/-- Without overrides and omissions, the fields are written as they are. -/
lemma mergeFields_nil (headers : Headers) : mergeFields [] [] headers = headers := by
  have h := filter_mergeFields [] [] headers
  have hall : ∀ fields : Headers, fields.filter
      (fun f => (overrideIndex [] f.1).isNone && !isOmitted [] f.1) = fields := fun fields =>
    List.filter_eq_self.mpr fun f _ => rfl
  have hall' : ∀ fields : Headers, fields.filter (fun f => (overrideIndex [] f.1).isNone) = fields :=
    fun fields => List.filter_eq_self.mpr fun f _ => rfl
  rwa [hall, hall'] at h

section Answer

variable {sha1 : Option (Bytes → Bytes)} {key subprotocol : Bytes}

/-- The fields of the answer are valid. -/
lemma validField_of_acceptFields (hsub : subprotocol = [] ∨ validHeaderName subprotocol = true) :
    ∀ f ∈ acceptFields sha1 key subprotocol, validField f = true := by
  intro f hf
  rw [acceptFields] at hf
  rcases List.mem_append.mp hf with hf | hf
  · simp only [List.mem_cons, List.not_mem_nil, or_false] at hf
    rcases hf with rfl | rfl | rfl
    · decide
    · decide
    · have hname : validHeaderName (bytes "Sec-WebSocket-Accept") = true := by decide
      rw [validField, (websocketAccept_spec sha1 key).2, hname]
      rfl
  · split_ifs at hf with hne
    · cases hf
    · have hname : validHeaderName (bytes "Sec-WebSocket-Protocol") = true := by decide
      rw [List.mem_singleton.mp hf, validField,
        validHeaderValue_of_name (hsub.resolve_left hne), hname]
      rfl

/-- Their reader sees them as they are. -/
lemma map_trimField_acceptFields
    (hsub : subprotocol = [] ∨ validHeaderName subprotocol = true) :
    (acceptFields sha1 key subprotocol).map trimField = acceptFields sha1 key subprotocol := by
  have htrim : trimOws subprotocol = subprotocol := by
    rcases hsub with rfl | hname
    · rfl
    · refine trimOws_eq_self fun c hc => ?_
      rw [validHeaderName, Bool.and_eq_true, List.all_eq_true] at hname
      have htoken := hname.2 c hc
      by_contra hows
      rw [Bool.not_eq_false, isOws, Bool.or_eq_true, beq_iff_eq, beq_iff_eq] at hows
      rcases hows with rfl | rfl <;> exact absurd htoken (by decide)
  rw [acceptFields, List.map_append]
  congr 1
  · simp only [List.map_cons, List.map_nil, trimField, (websocketAccept_spec sha1 key).1]
    rfl
  · split_ifs
    · rfl
    · rw [List.map_singleton, trimField, htrim]

/-- The client gets past the answer of the server, and accepts it. -/
lemma readUpgrade_of_answer {requested : List Bytes} {answer rest : Bytes} {decoder : Decoder}
    {options : HttpReadOptions} {input : Input}
    (hanswer : serializeHead (bytes "HTTP/1.1 101 Switching Protocols")
      (acceptFields sha1 key subprotocol) [] [] = .ok answer)
    (hsub : subprotocol = [] ∨ validHeaderName subprotocol = true ∧ subprotocol ∈ requested)
    (hcallback : options.onResponseHead = none) (hsize : answer.length ≤ options.maxHeaderSize)
    (havail : input.available = answer ++ rest) :
    ∃ after, readUpgrade sha1 decoder options key requested input = (.ok subprotocol, after) ∧
      after.available = rest := by
  have hsub' : subprotocol = [] ∨ validHeaderName subprotocol = true := hsub.imp id And.left
  obtain ⟨-, -, -, -, hlines⟩ := (serializeHead_eq_ok).mp hanswer
  rw [mergeFields_nil] at hlines
  have hvalid : ∀ f ∈ acceptFields sha1 key subprotocol, validField f = true :=
    validField_of_acceptFields hsub'
  have hfields := fieldLines_of_validFields hvalid
  -- the answer announces no body, so the reader stops behind its empty line
  have hnone : Announces (acceptFields sha1 key subprotocol) .none := by
    constructor <;> rw [acceptFields, Headers.getAll_append] <;> split_ifs <;> rfl
  obtain ⟨hframing, -, -⟩ := headOf_of_announces hnone (fun n hn => nomatch hn)
    (bytes "HTTP/1.1 101 Switching Protocols")
  rw [map_trimField_acceptFields hsub'] at hfields hframing
  have hline : StatusLine (bytes "HTTP/1.1 101 Switching Protocols") 11 101 :=
    ⟨⟨bytes "101", bytes "Switching Protocols", rfl, rfl, by decide, by decide⟩, .inr rfl, by decide⟩
  rw [hlines, List.append_assoc] at havail
  rw [hlines, List.length_append, crlf_length] at hsize
  obtain ⟨middle, hmiddle, hstep⟩ := @readResponse_of_head decoder (bytes "GET") _ _ _ _ _ _ _ _
    havail hsize (by decide) hfields hframing hline
  rw [responseOfHead_noBody middle hcallback (by decide) (by decide)] at hstep
  have hread : readResponse decoder (bytes "GET") options input = _ :=
    Loop.run_of_leave (responseStep_decreases decoder (bytes "GET") options) hstep
  -- what is left is the client's own check of the fields it has read
  refine ⟨middle, ?_, hmiddle⟩
  rw [readUpgrade, hread]
  dsimp only
  have haccept : findHeader (acceptFields sha1 key subprotocol) (bytes "Sec-WebSocket-Accept") =
      some (websocketAccept sha1 key) := rfl
  have hupgrade : hasToken (acceptFields sha1 key subprotocol) (bytes "Upgrade")
      (bytes "websocket") = true := rfl
  have hconnection : hasToken (acceptFields sha1 key subprotocol) (bytes "Connection")
      (bytes "upgrade") = true := rfl
  have haccepts : ((acceptFields sha1 key subprotocol).getAll
      (bytes "Sec-WebSocket-Accept")).length = 1 := by
    rw [acceptFields, Headers.getAll_append]
    split_ifs <;> rfl
  have hprotocols : (acceptFields sha1 key subprotocol).getAll (bytes "Sec-WebSocket-Protocol") =
      if subprotocol = [] then [] else [subprotocol] := by
    rw [acceptFields, Headers.getAll_append]
    split_ifs <;> rfl
  have hselected : (findHeader (acceptFields sha1 key subprotocol)
      (bytes "Sec-WebSocket-Protocol")).getD [] = subprotocol := by
    rw [Headers.findHeader_eq_head?, hprotocols]
    split_ifs with hempty
    · exact hempty.symm
    · rfl
  have hone : ¬ 1 < ((acceptFields sha1 key subprotocol).getAll
      (bytes "Sec-WebSocket-Protocol")).length := by
    rw [hprotocols]
    split_ifs <;> simp
  have hchecked : acceptUpgrade sha1 key requested
      { status := 101, version := 11, headers := acceptFields sha1 key subprotocol,
        keepAlive := keepAlive 11 (headOf (bytes "HTTP/1.1 101 Switching Protocols")
          (acceptFields sha1 key subprotocol)) } = .ok subprotocol := by
    rw [acceptUpgrade]
    dsimp only
    rw [if_neg (by
      simp only [hupgrade, hconnection, haccepts, hone, haccept, Option.getD_some, not_or,
        not_not]
      simp), hselected, if_neg]
    rintro ⟨hne, hbad⟩
    obtain ⟨hname, hmem⟩ := hsub.resolve_left hne
    rcases hbad with hbad | hbad
    · rw [hname] at hbad
      cases hbad
    · rw [List.contains_iff_mem.mpr hmem] at hbad
      cases hbad
  exact Prod.ext hchecked rfl

end Answer

/-! ### Both sides -/

/-- Both sides of the opening handshake agree.  What the client writes on a reliable transport is
read by the server as an upgrade, whatever follows, with the subprotocols that the client requests.
Whatever the server selects, it answers, and the client that reads the answer accepts it and has the
same subprotocol as the server: none, or one that was requested.  Nothing of what follows the request
and the answer is lost. -/
theorem websocket_handshake_agrees (sha1 : Option (Bytes → Bytes)) (random : Bytes)
    (url : ParsedUrl) (headers : Headers) (request : Request) (output output' serverOutput : Output)
    (decoder : Decoder) (options : HttpReadOptions) (input : Input) (path rest : Bytes)
    (hrandom : random.length = 16)
    (hrequest : upgradeRequest url headers (base64Text random) = .ok request)
    (hreliable : output.Reliable)
    (hwrite : writeRequest request url.target none output = (none, output'))
    (htarget : url.target.head? = some slash) (hpath : urlDecode (rawPath url.target) = .ok path)
    (hblank : trimOws url.authority ≠ []) (hcomma : comma ∉ url.authority)
    (hexpect : headers.contains (bytes "Expect") = false)
    (hcoding : headers.contains (bytes "Content-Encoding") = false) (hbuf : options.Buffered)
    (hhead : ∀ head, serializeRequest request url.target = .ok head →
      head.length ≤ options.maxHeaderSize)
    (havail : output.bytes ++ input.available = output'.bytes ++ rest) :
    ∃ received after,
      readRequest decoder options input serverOutput = (.ok received, after, serverOutput) ∧
      after.available = rest ∧ isWebsocketUpgrade received = true ∧
      subprotocols received.headers = subprotocols headers ∧
      ∀ selector, ∃ answer,
        websocketServerHandshake sha1 received (selectSubprotocol selector received) = .ok answer ∧
        ∀ (clientDecoder : Decoder) (clientOptions : HttpReadOptions) (clientInput : Input) frames,
          clientOptions.onResponseHead = none → answer.length ≤ clientOptions.maxHeaderSize →
          clientInput.available = answer ++ frames →
          ∃ clientAfter,
            readUpgrade sha1 clientDecoder clientOptions (base64Text random) (subprotocols headers)
              clientInput = (.ok (selectSubprotocol selector received), clientAfter) ∧
            clientAfter.available = frames := by
  obtain ⟨hmethod, hbody, hstream, hhost, hupgrade, hconnection, hversion, hkey, hother⟩ :=
    upgradeRequest_spec hrequest
  have hexpect' : request.headers.contains (bytes "Expect") = false := by
    rw [Headers.contains_eq_false_iff] at hexpect ⊢
    rw [hother _ (by decide), hexpect]
  have hcoding' : request.headers.contains (bytes "Content-Encoding") = false := by
    rw [Headers.contains_eq_false_iff] at hcoding ⊢
    rw [hother _ (by decide), hcoding]
  obtain ⟨received, after, hread, hmethod', hfields, hrest⟩ :=
    @readRequest_of_bodiless request url.target url.authority path rest output output' decoder
      options input serverOutput ⟨hbody, hstream⟩ hreliable hwrite htarget hpath hhost hblank hcomma
      hexpect' hcoding' hbuf hhead havail
  -- The fields that the server reads.
  have hread' : ∀ name, writerSets request name = false →
      received.headers.getAll name = (request.headers.getAll name).map trimOws := fun name hname => by
    rw [hfields, getAll_map_trimField, getAll_written hname]
  have hkept : ∀ name, (∀ set ∈ [bytes "Content-Length", bytes "Transfer-Encoding",
      bytes "Connection", bytes "User-Agent"], iequals name set = false) →
      received.headers.getAll name = (request.headers.getAll name).map trimOws := fun name hname =>
    hread' name (writerSets_eq_false request hname)
  have hconnection' : received.headers.getAll (bytes "Connection") = [bytes "Upgrade"] := by
    have hsets : writerSets request (bytes "Connection") = false := by
      have hfound : (findHeader request.headers (bytes "Connection")).isNone = false := by
        rw [Headers.findHeader_eq_head?, hconnection]
        rfl
      rw [writerSets, hfound]
      rfl
    rw [hread' _ hsets, hconnection]
    rfl
  have hkey' : received.headers.getAll (bytes "Sec-WebSocket-Key") = [base64Text random] := by
    rw [hkept _ (by decide), hkey, List.map_singleton, (base64Text_spec random).2.1]
  have hprotocols : subprotocols received.headers = subprotocols headers := by
    have hsame : subprotocols received.headers = subprotocols (request.headers.map trimField) := by
      rw [subprotocols, subprotocols, hkept _ (by decide), getAll_map_trimField]
    rw [hsame, subprotocols_trimField, subprotocols, subprotocols, hother _ (by decide)]
  refine ⟨received, after, hread, hrest, ?_, hprotocols, fun selector => ?_⟩
  · refine isWebsocketUpgrade_iff.mpr ⟨?_, ?_, ?_, ?_, ?_⟩
    · rw [hmethod', hmethod]
      decide
    · rw [hasToken_eq_any, hconnection']
      decide
    · rw [hasToken_eq_any, hkept _ (by decide), hupgrade]
      decide
    · rw [hkept _ (by decide), hversion]
      rfl
    · rw [hkey']
      rfl
  · have hselected := selectSubprotocol_spec selector received
    rw [hprotocols] at hselected
    have hfound : (findHeader received.headers (bytes "Sec-WebSocket-Key")).getD [] =
        base64Text random := by
      rw [Headers.findHeader_eq_head?, hkey']
      rfl
    have hvalid : ∀ f ∈ acceptFields sha1 (base64Text random) (selectSubprotocol selector received),
        validField f = true := validField_of_acceptFields (hselected.imp id And.left)
    have hstart : cr ∉ bytes "HTTP/1.1 101 Switching Protocols" ∧
        lf ∉ bytes "HTTP/1.1 101 Switching Protocols" := by decide
    have hserialized : serializeHead (bytes "HTTP/1.1 101 Switching Protocols") _ [] [] = .ok _ :=
      serializeHead_eq_ok.mpr ⟨hstart, Nat.zero_le _, hvalid, by simp, rfl⟩
    refine ⟨_, ?_, fun clientDecoder clientOptions clientInput frames hcallback hsize hinput =>
      readUpgrade_of_answer hserialized hselected hcallback hsize hinput⟩
    rw [websocketServerHandshake, hfound, (base64Text_spec random).1]
    dsimp only
    rw [if_neg (not_not.mpr hrandom)]
    exact hserialized

/-- The key of sixteen zero bytes, with its SHA-1 digest. -/
def zeroKeyDigest : Bytes :=
  [0x20, 0x25, 0xfe, 0x62, 0xab, 0xfa, 0xea, 0x4c, 0x60, 0x33, 0x41, 0x5c, 0x59, 0xa2, 0xd6, 0x94, 0x52, 0xf0, 0x4c, 0x02]

/-- What a client with this key writes. -/
def chatRequest : Request where
  method := bytes "GET"
  target := bytes "/c"
  headers := [(bytes "Sec-WebSocket-Protocol", bytes "a ,chat"), (bytes "Host", bytes "h"),
    (bytes "Upgrade", bytes "websocket"), (bytes "Connection", bytes "Upgrade"),
    (bytes "Sec-WebSocket-Version", bytes "13"),
    (bytes "Sec-WebSocket-Key", bytes "AAAAAAAAAAAAAAAAAAAAAA==")]

/-- A client that requests two subprotocols, and a server that prefers the second one. -/
theorem websocket_handshake_agrees_chat :
    ∃ received after answer clientAfter,
      readRequest .disabled (bufferedOptions 512 0)
        ⟨bytes "GET /c HTTP/1.1\r\nSec-WebSocket-Protocol: a ,chat\r\nHost: h\r\n" ++
            bytes "Upgrade: websocket\r\nConnection: Upgrade\r\nSec-WebSocket-Version: 13\r\n" ++
            bytes "Sec-WebSocket-Key: AAAAAAAAAAAAAAAAAAAAAA==\r\nContent-Length: 0\r\n" ++
            bytes "User-Agent: chhttp/0.4\r\n\r\n",
          [.data [0x81, 0x80]]⟩ {} = (.ok received, after, {}) ∧
      websocketServerHandshake (some fun _ => zeroKeyDigest) received
        (selectSubprotocol (some fun _ => bytes "chat") received) = .ok answer ∧
      readUpgrade (some fun _ => zeroKeyDigest) .disabled (bufferedOptions answer.length 0)
        (base64Text (List.replicate 16 0)) [bytes "a", bytes "chat"] ⟨answer ++ [0x82], []⟩ =
          (.ok (selectSubprotocol (some fun _ => bytes "chat") received), clientAfter) ∧
      clientAfter.available = [0x82] := by
  let url : ParsedUrl :=
    { scheme := bytes "ws", host := bytes "h", port := 80, target := bytes "/c", secure := false }
  let headers : Headers := [(bytes "Sec-WebSocket-Protocol", bytes "a ,chat")]
  obtain ⟨received, after, hread, -, -, -, hanswer⟩ :=
    websocket_handshake_agrees (some fun _ => zeroKeyDigest) (List.replicate 16 0) url headers
      chatRequest {} (writeRequest chatRequest (bytes "/c") none {}).2 {} .disabled
      (bufferedOptions 512 0)
      ⟨bytes "GET /c HTTP/1.1\r\nSec-WebSocket-Protocol: a ,chat\r\nHost: h\r\n" ++
            bytes "Upgrade: websocket\r\nConnection: Upgrade\r\nSec-WebSocket-Version: 13\r\n" ++
            bytes "Sec-WebSocket-Key: AAAAAAAAAAAAAAAAAAAAAA==\r\nContent-Length: 0\r\n" ++
            bytes "User-Agent: chhttp/0.4\r\n\r\n",
          [.data [0x81, 0x80]]⟩
      (bytes "/c") [0x81, 0x80] rfl rfl ⟨rfl, rfl, fun _ => rfl⟩ rfl rfl rfl (by decide) (by decide)
      (by decide) (by decide) (bufferedOptions_buffered _ _)
      (fun head h => by cases h; decide +kernel) (by decide +kernel)
  obtain ⟨answer, hserver, hclient⟩ := hanswer (some fun _ => bytes "chat")
  obtain ⟨clientAfter, hupgrade, hrest⟩ := hclient .disabled (bufferedOptions answer.length 0)
    ⟨answer ++ [0x82], []⟩ [0x82] rfl (Nat.le_refl _) (by simp [Source.available, arriving])
  exact ⟨received, after, answer, clientAfter, hread, hserver, hupgrade, hrest⟩

end WebSocket

end Chhttp
