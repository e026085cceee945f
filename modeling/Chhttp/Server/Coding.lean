import Chhttp.Common.Encoding
import Chhttp.Protocol.Coding
import Chhttp.Protocol.ResponseRoundTrip
import Chhttp.Server.Reply

/-!
# Compressed responses

The server compresses a response with a coding that the client accepts, and the client removes it.
For libraries that decode what they encode, the client sees the response as the handler built it:
its status, its body and its fields, but for those that describe the transfer
(`readResponse_sendResponse`).
-/

namespace Chhttp

open StreamingDecoder

/-! ### The coding of a response -/

/-- A loop that selects has selected one of the names. -/
lemma Encoding.select_mem (wildcardQuality : ℤ) (candidates : List (Bytes × ℤ)) :
    (Encoding.select wildcardQuality candidates).2 = [] ∨
      ∃ candidate ∈ candidates, (Encoding.select wildcardQuality candidates).2 = candidate.1 := by
  induction candidates using List.reverseRecOn with
  | nil => exact .inl rfl
  | append_singleton candidates candidate ih =>
    have hkeep : (Encoding.select wildcardQuality candidates).2 = [] ∨
        ∃ c ∈ candidates ++ [candidate], (Encoding.select wildcardQuality candidates).2 = c.1 :=
      ih.imp_right fun ⟨c, hc, heq⟩ => ⟨c, List.mem_append_left _ hc, heq⟩
    rw [Encoding.select, List.foldl_append, List.foldl_cons, List.foldl_nil]
    dsimp only
    split_ifs with hbetter
    · exact .inr ⟨candidate, by simp, rfl⟩
    · exact hkeep
    · exact .inr ⟨candidate, by simp, rfl⟩
    · exact hkeep

/-- The coding that is selected is supported. -/
lemma Encoding.selectEncoding_mem {accept : Bytes} (h : Encoding.selectEncoding accept ≠ []) :
    Encoding.selectEncoding accept ∈ Encoding.supported := by
  unfold Encoding.selectEncoding at h ⊢
  dsimp only at h ⊢
  generalize Loop.run _ _ _ _ = qualities at h ⊢
  obtain ⟨candidate, hcandidate, heq⟩ := (Encoding.select_mem _ _).resolve_left h
  rw [heq]
  exact (List.of_mem_zip hcandidate).1

/-- A supported coding as a field value. -/
lemma Encoding.supported_value {encoding : Bytes} (h : encoding ∈ Encoding.supported) :
    trimOws encoding = encoding ∧ encoding.isEmpty = false ∧
      iequals encoding (bytes "identity") = false := by
  have hall : ∀ encoding ∈ Encoding.supported, trimOws encoding = encoding ∧
      encoding.isEmpty = false ∧ iequals encoding (bytes "identity") = false := by decide
  exact hall encoding h

section Compress

variable {options : ServerOptions} {request : Request} {response : Response}

/-- A response without a body is not compressed. -/
lemma responseEncoding_of_omits (h : omitsBody request.method response.status = true) :
    responseEncoding options request response = [] := by
  rw [omitsBody, Bool.or_eq_true] at h
  unfold responseEncoding
  rcases h with h | h <;> rw [h] <;> simp

/-- A field that does not describe a content coding. -/
def DescribesNoCoding (name : Bytes) : Prop :=
  iequals (bytes "Content-Encoding") name = false ∧ iequals (bytes "Vary") name = false

/-- Compression changes the body and the fields that describe it, or nothing.  In the first case the
response is the very same one. -/
lemma compressResponse_cases (options : ServerOptions) (request : Request) (response : Response) :
    compressResponse options request response = response ∨
    ∃ encoding code, responseEncoding options request response = encoding ∧ encoding ≠ [] ∧
      options.compressor.compress response.body encoding = some code ∧
      (compressResponse options request response).body = code ∧
      (compressResponse options request response).status = response.status ∧
      (compressResponse options request response).version = response.version ∧
      (compressResponse options request response).headers.getAll (bytes "Content-Encoding") =
        [encoding] ∧
      ∀ name, DescribesNoCoding name →
        (compressResponse options request response).headers.getAll name =
          response.headers.getAll name := by
  unfold compressResponse
  dsimp only
  by_cases hempty : (responseEncoding options request response).isEmpty = true
  · rw [if_pos hempty]
    exact .inl rfl
  · rw [if_neg hempty]
    generalize hencoding : responseEncoding options request response = encoding at hempty ⊢
    cases hcompress : options.compressor.compress response.body encoding with
    | none => exact .inl rfl
    | some code =>
      have hvary : ∀ (headers : Headers) (b : Bool) (name : Bytes),
          iequals (bytes "Vary") name = false →
          (if b = true then headers.add (bytes "Vary") (bytes "Accept-Encoding")
            else headers).getAll name = headers.getAll name := by
        intro headers b name hname
        split_ifs
        · rw [Headers.add, Headers.getAll_append, Headers.getAll_singleton,
            if_neg (by rw [hname]; exact Bool.false_ne_true), List.append_nil]
        · rfl
      refine .inr ⟨encoding, code, rfl, fun hnil => hempty (by rw [hnil]; rfl), hcompress, rfl, rfl,
        rfl, ?_, fun name hname => ?_⟩
      · rw [hvary _ _ _ (by decide), Headers.getAll_set_self]
      · rw [hvary _ _ _ hname.2, Headers.getAll_set_of_ne _ hname.1]

end Compress

/-! ### The fields of a response -/

/-- A field that the server does not write itself. -/
def PassedOn (name : Bytes) : Prop :=
  iequals name (bytes "Server") = false ∧ iequals name (bytes "Connection") = false ∧
    iequals name (bytes "Content-Length") = false ∧ iequals name (bytes "Transfer-Encoding") = false

/-- Such fields are written as they are. -/
lemma getAll_writtenFields (request : Request) (response : Response) {name : Bytes}
    (h : PassedOn name) :
    (writtenFields request response).getAll name = response.headers.getAll name := by
  obtain ⟨hserver, hconnection, hlength, htransfer⟩ := h
  have hnone : overrideIndex (responseOverrides request response
      { contentLength := some response.body.length }) name = none := by
    rw [overrideIndex, List.findIdx?_eq_none_iff]
    refine forall_mem_responseOverrides hserver (fun _ => hconnection) fun o ho => ?_
    unfold framingOverrides at ho
    split_ifs at ho
    · cases ho
    · rw [List.mem_singleton.mp ho]
      exact hlength
    · rw [List.mem_singleton.mp ho]
      exact htransfer
    · dsimp only at ho
      rw [List.mem_singleton.mp ho]
      exact hlength
  have homit : isOmitted (framingOmitted response.status
      { contentLength := some response.body.length }) name = false := by
    unfold framingOmitted isOmitted
    split_ifs <;> simp [hlength, htransfer]
  rw [writtenFields, getAll_mergeFields (distinct_responseOverrides _ _ _), hnone]
  dsimp only
  rw [if_neg (by rw [homit]; exact Bool.false_ne_true)]

/-! ### The client -/

section Client

variable {decoder : Decoder} {method : Bytes} {options : HttpReadOptions} {head : ParsedHead}
  {version status n : ℕ} {input after : Input} {body rest : Bytes} {headers : Headers}

/-- A body without a content coding is read as it is. -/
lemma readResponseBody_plain (hbuf : options.Buffered)
    (hcoding : contentCoding options head.headers = none) (hchunked : head.chunked = false)
    (hlength : head.contentLength = some body.length) (hlimit : body.length ≤ options.maxBodySize)
    (havail : input.available = body ++ rest) :
    ∃ after, readResponseBody decoder options false head input = (.ok (body, head.headers), after) ∧
      after.available = rest := by
  obtain ⟨r, hr, hok, hheaders, hrest⟩ :=
    readBody_of_bodyFrame hbuf (.fixed hchunked hlength) havail hlimit fun _ => rfl
  refine ⟨r.input, ?_, hrest⟩
  unfold readResponseBody
  rw [hcoding]
  dsimp only
  rw [hr, hok, hheaders, List.append_nil]
  rfl

/-- A final response with a framed body ends with this body. -/
lemma responseOfHead_of_readResponseBody (hcallback : options.onResponseHead = none)
    (hfinal : isInformational status = false) (hbody : responseHasNoBody method status = false)
    (hlength : head.contentLength = some n)
    (hread : readResponseBody decoder options false head input = (.ok (body, headers), after)) :
    responseOfHead decoder method options head version status input =
      .leave (.ok { status, version, headers, body, keepAlive := keepAlive version head }, after) := by
  simp [responseOfHead, responseHeadError, hcallback, hfinal, hbody, hlength, hread]

/-- The fields of a decoded response. -/
lemma getAll_decodedHeaders (hbuf : options.Buffered) (headers : Headers) (body : Bytes) :
    (decodedHeaders options headers body).contains (bytes "Content-Encoding") = false ∧
      ∀ name, iequals (bytes "Content-Encoding") name = false →
        iequals (bytes "Content-Length") name = false →
        (decodedHeaders options headers body).getAll name = headers.getAll name := by
  have heq : decodedHeaders options headers body =
      (headers.erase (bytes "Content-Encoding")).set (bytes "Content-Length")
        (toChars 10 body.length) := by
    unfold decodedHeaders
    rw [hbuf.onData, hbuf.onDataAsync]
    rfl
  rw [heq, Headers.contains_eq_false_iff]
  refine ⟨?_, fun name hencoding hlength => ?_⟩
  · rw [Headers.getAll_set_of_ne _ (by decide), Headers.getAll_erase_self]
  · rw [Headers.getAll_set_of_ne _ hlength, Headers.getAll_erase_of_ne hencoding]

end Client

/-! ### Server and client -/

/-- The compression libraries of server and client fit together: a library decodes its streams, and
what the server compresses is a stream of the coding that it selected. -/
structure Compressor.FitsCodecs (compressor : Compressor) (codecs : ∀ kind, Option (Codec kind))
    (Stream : DecoderKind → Bytes → Bytes → Prop)
    (pending : ∀ kind, List (CodecCall kind) → Bytes → Bytes → Prop) : Prop where
  selects : compressor.selectEncoding = Encoding.selectEncoding
  decodes : ∀ kind codec, codecs kind = some codec → codec.Decodes (Stream kind) (pending kind)
  compresses : ∀ body encoding code, compressor.compress body encoding = some code →
    ∃ kind codec, decoderKind encoding = some kind ∧ codecs kind = some codec ∧ Stream kind code body

/-- What the client reads is what the handler answered: the status, the body and the persistence, and
the fields that do not describe the transfer. -/
def ReadAsBuilt (decoder : Decoder) (client : HttpReadOptions) (request : Request)
    (response : Response) (written : Bytes) : Prop :=
  ∀ input rest, input.available = written ++ rest →
    ∃ received after, readResponse decoder request.method client input = (.ok received, after) ∧
      received.status = response.status ∧
      received.body = expectedBody request.method response ∧
      received.keepAlive = (request.keepAlive && response.keepAlive) ∧
      received.headers.contains (bytes "Content-Encoding") = false ∧
      (∀ name, PassedOn name → DescribesNoCoding name →
        received.headers.getAll name = (response.headers.getAll name).map trimOws) ∧
      after.available = rest

/-- A reliable transport takes a response whose head can be built. -/
lemma writeResponse_reliable {request : Request} {response : Response} {output : Output} {head : Bytes}
    (h : output.Reliable) (hbuild : buildResponseHead request response
      { contentLength := some response.body.length } = .ok head) :
    ∃ output' written, writeResponse request response output = (none, output') ∧ output'.Reliable ∧
      output'.bytes = output.bytes ++ written := by
  have hdone : (writeResponse request response output).1 = none ∧
      (writeResponse request response output).2.Reliable := by
    unfold writeResponse writeResponseHead
    dsimp only
    rw [hbuild]
    dsimp only
    have hhead : output.write head = (none, (output.write head).2) := Prod.ext (h.write head).1 rfl
    split_ifs
    · exact ⟨(h.write _).1, (h.write _).2.1⟩
    · rw [hhead]
      exact ⟨rfl, (h.write head).2.1⟩
    · rw [hhead]
      exact writeBlocks_reliable id "Body write timed out" response.body (h.write head).2.1
  obtain ⟨head', -, hbytes⟩ := written_of_writeResponse h
    (Prod.ext hdone.1 rfl : writeResponse request response output = (none, _))
  exact ⟨_, _, Prod.ext hdone.1 rfl, hdone.2, hbytes⟩

section Reading

variable {request : Request} {response : Response} {output output' : Output} {client : HttpReadOptions}
  {written : Bytes}

/-- What is written as it is, and announces no coding, is read as it was built. -/
lemma readAsBuilt_of_plain (decoder : Decoder) (hreliable : output.Reliable)
    (hwrite : writeResponse request response output = (none, output'))
    (hwritten : output'.bytes = output.bytes ++ written) (hstatus : 200 ≤ response.status)
    (hconnect : iequals request.method (bytes "CONNECT") = false)
    (hplain : response.headers.contains (bytes "Content-Encoding") = false)
    (hbuf : client.Buffered) (hcallback : client.onResponseHead = none)
    (hbody : response.body.length ≤ client.maxBodySize) (hmax : client.maxBodySize < 2 ^ 64)
    (hhead : ∀ head, buildResponseHead request response
      { contentLength := some response.body.length } = .ok head → head.length ≤ client.maxHeaderSize) :
    ReadAsBuilt decoder client request response written := by
  intro input rest havail
  obtain ⟨n, hn⟩ := Int.eq_ofNat_of_zero_le (by omega : 0 ≤ response.status)
  have hfinal : isInformational n = false := by
    simp only [isInformational, Bool.and_eq_false_iff, decide_eq_false_iff_not]
    omega
  obtain ⟨parsed, hparsed, hpersist, hframed, hread⟩ := responseStep_of_writtenHead decoder hreliable
    hwrite hwritten hn hstatus (by omega) hhead
  obtain ⟨middle, hmiddle, hstep⟩ := hread input rest havail
  have hnobody : responseHasNoBody request.method n = omitsBody request.method response.status := by
    rw [responseHasNoBody_eq hn, hconnect, Bool.false_and, Bool.false_and, Bool.or_false]
  have hfields : ∀ name, PassedOn name →
      parsed.headers.getAll name = (response.headers.getAll name).map trimOws := fun name hname => by
    rw [hparsed, getAll_map_trimField, getAll_writtenFields request response hname]
  have hnone : parsed.headers.contains (bytes "Content-Encoding") = false := by
    rw [Headers.contains_eq_false_iff] at hplain ⊢
    rw [hfields _ (by unfold PassedOn; decide), hplain, List.map_nil]
  by_cases homits : omitsBody request.method response.status = true
  · rw [responseOfHead_noBody middle hcallback hfinal (hnobody.trans homits)] at hstep
    rw [expectedBody_eq hstatus, if_pos homits, List.nil_append] at hmiddle
    refine ⟨_, middle, Loop.run_of_leave _ hstep, hn.symm, ?_, hpersist, hnone,
      fun name hname _ => hfields name hname, hmiddle⟩
    rw [expectedBody_eq hstatus, if_pos homits]
  · rw [Bool.not_eq_true] at homits
    obtain ⟨hchunked, hlength⟩ := hframed homits
    rw [expectedBody_eq hstatus, homits, if_neg Bool.false_ne_true] at hmiddle
    have hcoding : contentCoding client parsed.headers = none := by
      rw [Headers.contains_eq_false_iff] at hnone
      rw [contentCoding, Headers.findHeader_eq_head?, hnone]
      split_ifs <;> rfl
    obtain ⟨after, hbodyRead, hrest⟩ := @readResponseBody_plain decoder client parsed middle
      response.body rest hbuf hcoding hchunked hlength hbody hmiddle
    have hlast := hstep.trans (responseOfHead_of_readResponseBody hcallback hfinal
      (hnobody.trans homits) hlength hbodyRead)
    refine ⟨_, after, Loop.run_of_leave _ hlast, hn.symm, ?_, hpersist, hnone,
      fun name hname _ => hfields name hname, hrest⟩
    rw [expectedBody_eq hstatus, homits, if_neg Bool.false_ne_true]

/-- What is written, compressed or not, is read as the handler built it. -/
lemma readAsBuilt_of_written {compressor : Compressor} {codecs : ∀ kind, Option (Codec kind)}
    {Stream : DecoderKind → Bytes → Bytes → Prop}
    {pending : ∀ kind, List (CodecCall kind) → Bytes → Bytes → Prop}
    (hfits : compressor.FitsCodecs codecs Stream pending) {options : ServerOptions}
    (hcompressor : options.compressor = compressor) (hreliable : output.Reliable)
    (hwrite : writeResponse request (compressResponse options request response) output =
      (none, output'))
    (hwritten : output'.bytes = output.bytes ++ written) (hstatus : 200 ≤ response.status)
    (hconnect : iequals request.method (bytes "CONNECT") = false)
    (hplain : response.headers.contains (bytes "Content-Encoding") = false)
    (hbuf : client.Buffered) (hcallback : client.onResponseHead = none)
    (hauto : client.autoDecompress = true) (hbody : response.body.length ≤ client.maxBodySize)
    (hcode : (compressResponse options request response).body.length ≤ client.maxBodySize)
    (hmax : client.maxBodySize < 2 ^ 64)
    (hhead : ∀ head, buildResponseHead request (compressResponse options request response)
      { contentLength := some (compressResponse options request response).body.length } = .ok head →
        head.length ≤ client.maxHeaderSize) :
    ReadAsBuilt (Decoder.ofCodecs codecs) client request response written := by
  have hkeep := keepAlive_compressResponse options request response
  rcases compressResponse_cases options request response with
    hsame | ⟨encoding, code, hencoding, hne, hcompress, hsentBody, hsentStatus, -, hfield, hothers⟩
  · rw [hsame] at hwrite hhead
    exact readAsBuilt_of_plain _ hreliable hwrite hwritten hstatus hconnect hplain hbuf hcallback hbody
      hmax hhead
  -- the body is a stream of the selected coding
  intro input rest havail
  generalize compressResponse options request response = sent at *
  subst hsentBody
  obtain ⟨n, hn⟩ := Int.eq_ofNat_of_zero_le (by omega : 0 ≤ sent.status)
  have hfinal : isInformational n = false := by
    simp only [isInformational, Bool.and_eq_false_iff, decide_eq_false_iff_not]
    omega
  have homits : omitsBody request.method response.status = false := by
    by_contra homits
    rw [Bool.not_eq_false] at homits
    exact hne (hencoding.symm.trans (responseEncoding_of_omits homits))
  have hsentBody : expectedBody request.method sent = sent.body := by
    rw [expectedBody_eq (by omega), hsentStatus, homits, if_neg Bool.false_ne_true]
  have hnobody : responseHasNoBody request.method n = false := by
    rw [responseHasNoBody_eq hn, hconnect, hsentStatus, homits]
    rfl
  obtain ⟨parsed, hparsed, hpersist, hframed, hread⟩ := responseStep_of_writtenHead
    (Decoder.ofCodecs codecs) hreliable hwrite hwritten hn (by omega) (by omega) hhead
  obtain ⟨hchunked, hlength⟩ := hframed (by rw [hsentStatus]; exact homits)
  obtain ⟨middle, hmiddle, hstep⟩ := hread input rest havail
  rw [hsentBody] at hmiddle
  rw [hkeep] at hpersist
  have hfields : ∀ name, PassedOn name →
      parsed.headers.getAll name = (sent.headers.getAll name).map trimOws := fun name hname => by
    rw [hparsed, getAll_map_trimField, getAll_writtenFields request sent hname]
  rw [hcompressor] at hcompress
  obtain ⟨kind, codec, hkind, hcodec, hcompressed⟩ := hfits.compresses _ _ _ hcompress
  have hselected : encoding ∈ Encoding.supported := by
    have hselect : encoding = Encoding.selectEncoding
        ((findHeader request.headers (bytes "Accept-Encoding")).getD []) := by
      rw [← hencoding, ← hfits.selects, ← hcompressor, responseEncoding]
      refine if_pos ?_
      by_contra hnot
      exact hne (hencoding.symm.trans (if_neg hnot))
    rw [hselect] at hne ⊢
    exact Encoding.selectEncoding_mem hne
  obtain ⟨htrim, hnonempty, hidentity⟩ := Encoding.supported_value hselected
  have hcoding : contentCoding client parsed.headers = some encoding := by
    rw [contentCoding, hauto, if_pos rfl, Headers.findHeader_eq_head?,
      hfields _ (by unfold PassedOn; decide), hfield, List.map_singleton, List.head?_cons, htrim,
      Option.filter_some, hnonempty, hidentity]
    rfl
  have hdecodes := @Decoder.ofCodecs_decodes kind codec (Stream kind) (pending kind)
    [(sent.body, response.body)] codecs encoding client.maxBodySize hkind hcodec
    (hfits.decodes kind codec hcodec)
    (fun m hm => by rw [List.mem_singleton.mp hm]; exact hcompressed)
    (fun hmany => absurd hmany (Nat.lt_irrefl 1)) (List.cons_ne_nil _ _)
    (by simpa [texts] using hbody)
  have hone : codes [(sent.body, response.body)] = sent.body ∧
      texts [(sent.body, response.body)] = response.body := by simp [codes, texts]
  rw [hone.1, hone.2] at hdecodes
  obtain ⟨after, hbodyRead, hrest⟩ := @readResponseBody_decoded (Decoder.ofCodecs codecs) client
    encoding _ sent.body response.body rest parsed middle hbuf hdecodes hcoding hchunked hlength
    hcode hmiddle
  obtain ⟨hnone, hdecoded⟩ := getAll_decodedHeaders hbuf parsed.headers response.body
  have hlast := hstep.trans (responseOfHead_of_readResponseBody hcallback hfinal hnobody hlength
    hbodyRead)
  refine ⟨_, after, Loop.run_of_leave _ hlast, hn.symm.trans hsentStatus, ?_, hpersist, hnone,
    fun name hname hother => ?_, hrest⟩
  · rw [expectedBody_eq hstatus, homits, if_neg Bool.false_ne_true]
  · dsimp only
    rw [hdecoded name hother.1 (by rw [iequals_comm]; exact hname.2.2.1), hfields name hname,
      hothers name hother]

end Reading

end Chhttp
