import Chhttp.Protocol.Response
import Chhttp.Protocol.Sent
import Chhttp.Protocol.Written

/-!
# Responses survive the wire

The server decides with `omitsBody` whether a response has a body, the client with
`responseHasNoBody`.  The two differ for successful `CONNECT` requests, and a buffered response is
read back exactly when this does not matter (`readResponse_writeResponse`).
-/

namespace Chhttp

open ListSearch Fragment

/-! ### Status lines and connection fields -/

/-- Statuses are written with three digits. -/
lemma length_toChars_status {n : ℕ} (h : 100 ≤ n) (h' : n ≤ 999) : (toChars 10 n).length = 3 := by
  have hne : n ≠ 0 := by omega
  have hupper : (Nat.digits 10 n).length ≤ 3 := by
    rw [Nat.digits_length_le_iff (by norm_num)]
    omega
  have hlower : 2 < (Nat.digits 10 n).length := by
    rw [Nat.lt_digits_length_iff (by norm_num)]
    omega
  rw [toChars, Numeral.digits, if_neg hne, List.length_map, List.length_reverse]
  omega

/-- The start line of a response is its status line. -/
lemma statusLine_of_response {response : Response} {n : ℕ}
    (hversion : response.version = 10 ∨ response.version = 11) (hstatus : response.status = n)
    (hlow : 100 ≤ n) (hhigh : n ≤ 999) :
    StatusLine (responseStartLine response) response.version n := by
  refine ⟨⟨toChars 10 n, statusReason response.status, ?_, length_toChars_status hlow hhigh, ?_,
    fromChars_toChars (by norm_num) (by norm_num) (by omega)⟩, hversion, hlow⟩
  · rw [responseStartLine, hstatus, Int.toNat_natCast]
    rcases hversion with hv | hv <;> rw [hv] <;> rfl
  · intro hmem
    exact absurd (mem_toChars_ten hmem).1 (by decide)

/-- The tokens of a field are the tokens of its values. -/
lemma hasToken_eq_any (headers : Headers) (name token : Bytes) :
    hasToken headers name token =
      (headers.getAll name).any fun value => headerValueHasToken value token := by
  induction headers with
  | nil => rfl
  | cons f headers ih =>
    obtain ⟨key, value⟩ := f
    rw [hasToken] at ih
    rw [hasToken, List.any_cons, ih, Headers.getAll_cons]
    cases hname : iequals key name <;> simp [hname]

/-- The reader finds the persistence that the Connection field announces. -/
lemma keepAlive_of_connection {fields : Headers} {keep : Bool}
    (h : fields.getAll (bytes "Connection") = [if keep then bytes "keep-alive" else bytes "close"])
    (version : ℕ) (start : Bytes) :
    keepAlive version (headOf start (fields.map trimField)) = keep := by
  have hclose : (headOf start (fields.map trimField)).connectionClose = !keep := by
    show hasToken (fields.map trimField) (bytes "Connection") (bytes "close") = !keep
    rw [hasToken_eq_any, getAll_map_trimField, h]
    cases keep <;> decide
  have hkeep : (headOf start (fields.map trimField)).connectionKeepAlive = keep := by
    show hasToken (fields.map trimField) (bytes "Connection") (bytes "keep-alive") = keep
    rw [hasToken_eq_any, getAll_map_trimField, h]
    cases keep <;> decide
  rw [keepAlive, hclose, hkeep]
  cases keep <;> simp

/-! ### Responses -/

/-- The body of a response as its client should see it. -/
def expectedBody (method : Bytes) (response : Response) : Bytes :=
  if iequals method (bytes "HEAD") ∨ response.status = 204 ∨ response.status = 205 ∨
      response.status = 304 then []
  else response.body

/-- The bytes of a response are read back, in all cuts and whatever follows: the same status, body
and persistence, and nothing of what follows. -/
def ReadBack (decoder : Decoder) (options : HttpReadOptions) (request : Request)
    (response : Response) (written : Bytes) : Prop :=
  ∀ input rest, input.available = written ++ rest →
    ∃ received after,
      readResponse decoder request.method options input = (.ok received, after) ∧
      received.status = response.status ∧
      received.body = expectedBody request.method response ∧
      received.keepAlive = (request.keepAlive && response.keepAlive) ∧ after.available = rest

/-- A successful `CONNECT` request that is answered with a body, where reader and writer differ.
The writer announces the body, and the reader stops behind the head, where the tunnel would begin.
-/
def TunnelWithBody (request : Request) (response : Response) : Prop :=
  iequals request.method (bytes "CONNECT") = true ∧ response.status < 300 ∧
    response.status ≠ 204 ∧ response.status ≠ 205 ∧ response.body ≠ []

/-- The body that the server sends is the expected one. -/
lemma expectedBody_eq {method : Bytes} {response : Response} (h : 200 ≤ response.status) :
    expectedBody method response =
      if omitsBody method response.status then [] else response.body := by
  have homit : omitsBody method response.status = true ↔
      iequals method (bytes "HEAD") = true ∨ response.status = 204 ∨ response.status = 205 ∨
        response.status = 304 := by
    have hfinal : ¬ (100 ≤ response.status ∧ response.status < 200) := by omega
    simp only [omitsBody, statusHasNoBody, Bool.or_eq_true, Bool.and_eq_true, decide_eq_true_eq,
      beq_iff_eq]
    tauto
  rw [expectedBody]
  by_cases hcase : omitsBody method response.status = true
  · rw [if_pos hcase, if_pos (homit.mp hcase)]
  · rw [if_neg hcase, if_neg (fun h => hcase (homit.mpr h))]

/-- Reader and writer agree about the body but for the `CONNECT` rule. -/
lemma responseHasNoBody_eq {method : Bytes} {status : ℤ} {n : ℕ} (hn : status = n) :
    responseHasNoBody method n = (omitsBody method status ||
      (iequals method (bytes "CONNECT") && decide (200 ≤ status) && decide (status < 300))) := by
  subst hn
  have h200 : decide (200 ≤ (n : ℤ)) = decide (200 ≤ n) := by
    rw [decide_eq_decide]
    omega
  have h300 : decide ((n : ℤ) < 300) = decide (n < 300) := by
    rw [decide_eq_decide]
    omega
  rw [responseHasNoBody, omitsBody, h200, h300]
  generalize iequals method (bytes "HEAD") = a
  generalize (iequals method (bytes "CONNECT") && decide (200 ≤ n) && decide (n < 300)) = b
  generalize statusHasNoBody (n : ℤ) = c
  cases a <;> cases b <;> cases c <;> rfl

/-- A buffered response announces no more than its body. -/
lemma length_le_of_responseFraming {status : ℤ} {n m : ℕ}
    (h : (responseFraming status { contentLength := some n }).length? = some m) : m ≤ n := by
  unfold responseFraming at h
  by_cases hnone : (100 ≤ status ∧ status < 200) ∨ status = 204
  · rw [if_pos hnone] at h
    cases h
  · rw [if_neg hnone] at h
    by_cases hreset : status = 205
    · rw [if_pos hreset] at h
      cases h
      exact Nat.zero_le n
    · rw [if_neg hreset] at h
      cases h
      exact le_rfl

/-- A response that has a body announces its length. -/
lemma responseFraming_of_body {method : Bytes} {status : ℤ} (h : omitsBody method status = false)
    (n : ℕ) : responseFraming status { contentLength := some n } = .length n := by
  simp only [omitsBody, statusHasNoBody, Bool.or_eq_false_iff, Bool.and_eq_false_iff,
    decide_eq_false_iff_not, beq_eq_false_iff_ne] at h
  rw [responseFraming, if_neg (by omega), if_neg (by omega)]
  rfl

/-- Such an answer is one that has a body of its own, which the reader does not look for. -/
lemma tunnelWithBody_iff {request : Request} {response : Response} {n : ℕ}
    (hn : response.status = n) (hstatus : 200 ≤ response.status) :
    TunnelWithBody request response ↔ responseHasNoBody request.method n = true ∧
      expectedBody request.method response ≠ [] := by
  rw [TunnelWithBody, responseHasNoBody_eq hn, expectedBody_eq hstatus]
  cases homit : omitsBody request.method response.status with
  | true =>
    refine iff_of_false ?_ fun h => h.2 rfl
    rintro ⟨hconnect, hhigh, h204, h205, -⟩
    have hhead : iequals request.method (bytes "HEAD") = false := by
      rw [iequals_congr hconnect]
      decide
    simp only [omitsBody, hhead, statusHasNoBody, Bool.false_or, Bool.or_eq_true,
      Bool.and_eq_true, decide_eq_true_eq, beq_iff_eq] at homit
    omega
  | false =>
    simp only [omitsBody, statusHasNoBody, Bool.or_eq_false_iff, beq_eq_false_iff_ne] at homit
    rw [Bool.false_or, Bool.and_eq_true, Bool.and_eq_true, decide_eq_true_eq, decide_eq_true_eq,
      if_neg Bool.false_ne_true]
    constructor
    · rintro ⟨hconnect, hhigh, -, -, hbody⟩
      exact ⟨⟨⟨hconnect, hstatus⟩, hhigh⟩, hbody⟩
    · rintro ⟨⟨⟨hconnect, -⟩, hhigh⟩, hbody⟩
      exact ⟨hconnect, hhigh, homit.2.1.1.2, homit.2.1.2, hbody⟩

/-- The fields of a buffered response as they are written. -/
def writtenFields (request : Request) (response : Response) : Headers :=
  mergeFields (responseOverrides request response { contentLength := some response.body.length })
    (framingOmitted response.status { contentLength := some response.body.length }) response.headers

/-- The reader gets past the head that the server has written, and finds its fields. -/
lemma responseStep_of_writtenHead {request : Request} {response : Response}
    {output output' : Output} {written : Bytes} {n : ℕ} (decoder : Decoder)
    {options : HttpReadOptions} (hreliable : output.Reliable)
    (hwrite : writeResponse request response output = (none, output'))
    (hwritten : output'.bytes = output.bytes ++ written) (hn : response.status = n)
    (hstatus : 200 ≤ response.status) (hlength : response.body.length < 2 ^ 64)
    (hhead : ∀ head, buildResponseHead request response
      { contentLength := some response.body.length } = .ok head →
        head.length ≤ options.maxHeaderSize) :
    ∃ parsed : ParsedHead, parsed.headers = (writtenFields request response).map trimField ∧
      keepAlive response.version parsed = (request.keepAlive && response.keepAlive) ∧
      (omitsBody request.method response.status = false →
        parsed.chunked = false ∧ parsed.contentLength = some response.body.length) ∧
      ∀ input rest, input.available = written ++ rest →
        ∃ middle, middle.available = expectedBody request.method response ++ rest ∧
          responseStep decoder request.method options input =
            responseOfHead decoder request.method options parsed response.version n middle := by
  obtain ⟨head, hbuild, hbytes⟩ := written_of_writeResponse hreliable hwrite
  obtain ⟨hversion, hlow, hhigh, hmerged⟩ := buildResponseHead_eq_ok hbuild
  obtain ⟨-, -, hheaders, hoverrides, hlines⟩ := (serializeHead_eq_ok).mp hmerged
  let framing : BodyFraming := { contentLength := some response.body.length }
  have hvalid : ∀ f ∈ writtenFields request response, validField f = true := by
    intro f hf
    rcases mem_mergeFields hf with hf | hf
    · exact hheaders f hf
    · exact hoverrides f hf
  have hmax := hhead head hbuild
  rw [hlines, List.length_append, crlf_length] at hmax
  have hlimit : ∀ m, (responseFraming response.status framing).length? = some m →
      m < uint64Limit := by
    intro m hm
    have := length_le_of_responseFraming hm
    simp only [uint64Limit]
    omega
  obtain ⟨hframing, hheadLength, hheadChunked⟩ := headOf_of_announces
    (announces_response request response framing) hlimit (responseStartLine response)
  refine ⟨headOf (responseStartLine response) ((writtenFields request response).map trimField), rfl,
    keepAlive_of_connection (getAll_connection_response request response framing) _ _,
    fun homits => ?_, fun input rest havail => ?_⟩
  · rw [responseFraming_of_body homits response.body.length] at hheadLength hheadChunked
    exact ⟨hheadChunked, hheadLength⟩
  · have hsplit : written = headBytes (responseStartLine response)
        ((writtenFields request response).map fieldLine) ++
          (crlf ++ expectedBody request.method response) := by
      rw [hwritten, hlines] at hbytes
      rw [expectedBody_eq hstatus]
      simpa [writtenFields] using hbytes
    rw [hsplit, List.append_assoc, List.append_assoc] at havail
    exact readResponse_of_head havail hmax
      (validHeaderValue_responseStartLine response) (fieldLines_of_validFields hvalid) hframing
      (statusLine_of_response hversion hn (by omega) (by omega))

/-- The reader gets past the head that the server has written, and finds in it what the server
announced. -/
lemma responseStep_of_writeResponse {request : Request} {response : Response}
    {output output' : Output} {written : Bytes} {n : ℕ} (decoder : Decoder)
    {options : HttpReadOptions} (hreliable : output.Reliable)
    (hwrite : writeResponse request response output = (none, output'))
    (hwritten : output'.bytes = output.bytes ++ written) (hn : response.status = n)
    (hstatus : 200 ≤ response.status) (hlength : response.body.length < 2 ^ 64)
    (hhead : ∀ head, buildResponseHead request response
      { contentLength := some response.body.length } = .ok head →
        head.length ≤ options.maxHeaderSize) :
    ∃ parsed : ParsedHead,
      keepAlive response.version parsed = (request.keepAlive && response.keepAlive) ∧
      (omitsBody request.method response.status = false →
        parsed.chunked = false ∧ parsed.contentLength = some response.body.length) ∧
      ∀ input rest, input.available = written ++ rest →
        ∃ middle, middle.available = expectedBody request.method response ++ rest ∧
          responseStep decoder request.method options input =
            responseOfHead decoder request.method options parsed response.version n middle := by
  obtain ⟨parsed, -, hparsed⟩ := responseStep_of_writtenHead decoder hreliable hwrite hwritten hn
    hstatus hlength hhead
  exact ⟨parsed, hparsed⟩

/-- Responses survive the wire.  Server writer and client reader agree on a buffered response
exactly when it is not the answer to a successful `CONNECT` request with a body of its own. -/
theorem readResponse_writeResponse (request : Request) (response : Response)
    (output output' : Output) (decoder : Decoder) (options : HttpReadOptions) (written : Bytes)
    (hreliable : output.Reliable)
    (hwrite : writeResponse request response output = (none, output'))
    (hwritten : output'.bytes = output.bytes ++ written) (hstatus : 200 ≤ response.status)
    (hlength : response.body.length < 2 ^ 64) (hbuf : options.Buffered)
    (hcallback : options.onResponseHead = none) (hplain : options.autoDecompress = false)
    (hhead : ∀ head, buildResponseHead request response
      { contentLength := some response.body.length } = .ok head →
        head.length ≤ options.maxHeaderSize)
    (hbody : response.body.length ≤ options.maxBodySize) :
    ReadBack decoder options request response written ↔ ¬ TunnelWithBody request response := by
  obtain ⟨n, hn⟩ := Int.eq_ofNat_of_zero_le (by omega : 0 ≤ response.status)
  obtain ⟨parsed, hkeep, hparsed, hread⟩ := responseStep_of_writeResponse decoder hreliable hwrite
    hwritten hn hstatus hlength hhead
  have hfinal : isInformational n = false := by
    simp only [isInformational, Bool.and_eq_false_iff, decide_eq_false_iff_not]
    omega
  rw [tunnelWithBody_iff hn hstatus]
  by_cases hnone : responseHasNoBody request.method n = true
  · -- the reader stops after the head, so it sees an empty body
    have hstop : ∀ input rest, input.available = written ++ rest →
        ∃ received after, readResponse decoder request.method options input =
            (.ok received, after) ∧ received.status = response.status ∧ received.body = [] ∧
          received.keepAlive = (request.keepAlive && response.keepAlive) ∧
          after.available = expectedBody request.method response ++ rest := by
      intro input rest havail
      obtain ⟨middle, hmiddle, hstep⟩ := hread input rest havail
      rw [responseOfHead_noBody middle hcallback hfinal hnone] at hstep
      exact ⟨_, middle, Loop.run_of_leave _ hstep, hn.symm, rfl, hkeep, hmiddle⟩
    by_cases hempty : expectedBody request.method response = []
    · refine iff_of_true (fun input rest havail => ?_) fun h => h.2 hempty
      obtain ⟨received, after, hr, hs, hb, hk, hafter⟩ := hstop input rest havail
      exact ⟨received, after, hr, hs, by rw [hb, hempty], hk, by rw [hafter, hempty]; rfl⟩
    · refine iff_of_false (fun hback => ?_) (not_not.mpr ⟨hnone, hempty⟩)
      have havail : (⟨written, []⟩ : Input).available = written ++ [] := by
        simp [Source.available, arriving]
      obtain ⟨received, after, hr, -, hb, -, -⟩ := hback ⟨written, []⟩ [] havail
      obtain ⟨received', after', hr', -, hb', -, -⟩ := hstop ⟨written, []⟩ [] havail
      rw [hr] at hr'
      cases hr'
      exact hempty (hb.symm.trans hb')
  · -- both sides agree that there is a body, and that it has the announced length
    refine iff_of_true (fun input rest havail => ?_) fun h => hnone h.1
    rw [Bool.not_eq_true] at hnone
    obtain ⟨middle, hmiddle, hstep⟩ := hread input rest havail
    have homits := hnone
    rw [responseHasNoBody_eq hn, Bool.or_eq_false_iff] at homits
    obtain ⟨hchunked, hcontentLength⟩ := hparsed homits.1
    rw [expectedBody_eq hstatus, homits.1] at hmiddle
    obtain ⟨after, hafter, hleave⟩ := @responseOfHead_body decoder _ _ hbuf hplain _
      response.version _ _ _ _ hcallback hfinal hnone hchunked hcontentLength hmiddle hbody
    rw [hleave] at hstep
    refine ⟨_, after, Loop.run_of_leave _ hstep, hn.symm, ?_, hkeep, hafter⟩
    rw [expectedBody_eq hstatus, homits.1]
    rfl

/-- A response with a body of two bytes. -/
def greeting : Response := { body := bytes "hi" }

/-- The answer to a GET request is read back, the same answer to a CONNECT request is not. -/
theorem readResponse_writeResponse_get :
    ReadBack .disabled (bufferedOptions 256 16) {} greeting (writeResponse {} greeting {}).2.bytes ∧
      ¬ ReadBack .disabled (bufferedOptions 256 16) { method := bytes "CONNECT" } greeting
        (writeResponse { method := bytes "CONNECT" } greeting {}).2.bytes := by
  have hget := readResponse_writeResponse {} greeting {} _ .disabled (bufferedOptions 256 16) _
    ⟨rfl, rfl, fun _ => rfl⟩ rfl rfl (by decide) (by decide) (bufferedOptions_buffered _ _) rfl rfl
    (fun head h => by cases h; decide +kernel) (by decide)
  have hconnect := readResponse_writeResponse { method := bytes "CONNECT" } greeting {} _ .disabled
    (bufferedOptions 256 16) _ ⟨rfl, rfl, fun _ => rfl⟩ rfl rfl (by decide) (by decide)
    (bufferedOptions_buffered _ _) rfl rfl (fun head h => by cases h; decide +kernel) (by decide)
  exact ⟨hget.mpr fun h => absurd h.1 (by decide),
    fun hback => hconnect.mp hback ⟨by decide, by decide, by decide, by decide, by decide⟩⟩

/-- The answer to a CONNECT request is read without the body that was written.  The writer frames a
body for any request, and the reader expects none behind a successful answer to CONNECT. -/
theorem readResponse_writeResponse_connect :
    ¬ ∀ (request : Request) (response : Response) (output output' : Output) (decoder : Decoder)
      (options : HttpReadOptions) (written : Bytes), output.Reliable →
      writeResponse request response output = (none, output') →
      output'.bytes = output.bytes ++ written → 200 ≤ response.status →
      response.body.length < 2 ^ 64 → options.Buffered → options.onResponseHead = none →
      options.autoDecompress = false →
      (∀ head, buildResponseHead request response
        { contentLength := some response.body.length } = .ok head →
          head.length ≤ options.maxHeaderSize) →
      response.body.length ≤ options.maxBodySize →
      ReadBack decoder options request response written := by
  intro h
  have hback := h { method := bytes "CONNECT" } greeting {} _ .disabled (bufferedOptions 256 16) _
    ⟨rfl, rfl, fun _ => rfl⟩ rfl rfl (by decide) (by decide) (bufferedOptions_buffered _ _) rfl rfl
    (fun head h => by cases h; decide +kernel) (by decide)
  let written := (writeResponse { method := bytes "CONNECT" } greeting {}).2.bytes
  obtain ⟨received, after, hread, -, hbody, -, -⟩ :=
    hback ⟨written, []⟩ [] (by simp [Source.available, arriving, written]; rfl)
  have hempty : ((readResponse .disabled (bytes "CONNECT") (bufferedOptions 256 16)
      ⟨written, []⟩).1.map Response.body) = .ok [] := rfl
  rw [hread] at hempty
  cases hempty.symm.trans (congrArg Except.ok hbody)

end Chhttp
