import Chhttp.Server.Coding
import Chhttp.Server.Range

/-!
# Files over the wire

`send_file` answers with a file, or with the part of it that a range asks for, block by block.  On a
reliable transport it writes what the plain route writes for a buffered response with the same bytes
(`sendFile_eq_writeResponse`), so a client reads the bytes that were asked for, and their place in the
file (`readResponse_sendFile`).

A client that holds the beginning of a file asks for the rest with a range and a validator.  Since a
range is only answered while the validator matches, the client never joins parts of two versions
(`resume_never_splices`).
-/

namespace Chhttp

open ListSearch

/-! ### The plain route -/

/-- The part of a file that starts at `first`. -/
def OpenFile.part (file : OpenFile) (first length : ℕ) : Bytes :=
  (file.content.drop first).take length

/-- The field that describes a part of a file. -/
def rangeField (first last size : ℕ) : Bytes :=
  bytes "bytes " ++ (toChars 10 first ++ (bytes "-" ++ (toChars 10 last ++
    (bytes "/" ++ toChars 10 size))))

/-- The buffered response that stands for the answer of `send_file`.  The transfer in blocks is
compared with it: a client cannot tell the two apart. -/
def fileAnswer (request : Request) (response : Response) : Option OpenFile → Response
  | none =>
    { response with status := 500, keepAlive := false }.setContent (bytes "Unable to open response file")
  | some file =>
    match requestedRange request response with
    | none => { response with body := file.content }
    | some range =>
      match parseRange range file.size with
      | none =>
        { response with
          status := 416
          headers := response.headers.set (bytes "Content-Range")
            (bytes "bytes */" ++ toChars 10 file.size)
          body := [] }
      | some (first, last) =>
        { response with
          status := 206
          headers := response.headers.set (bytes "Content-Range") (rangeField first last file.size)
          body := file.part first (last - first + 1) }

section Plain

variable {request : Request} {response : Response} {file : OpenFile} {output : Output}

/-- On a reliable transport the next block of a file is read and sent. -/
lemma fileStep_reliable {s : FileTransfer} (h : s.output.Reliable)
    (hinside : s.offset + s.remaining ≤ file.content.length) :
    (s.remaining = 0 → fileStep file s = .leave (none, s.output)) ∧
      (s.remaining ≠ 0 → ∃ s', fileStep file s = .again s' ∧ s'.output.Reliable ∧
        s'.offset + s'.remaining ≤ file.content.length) := by
  refine ⟨fun hzero => if_pos hzero, fun hmore => ?_⟩
  have hlength : ((file.content.drop s.offset).take (min s.remaining fileBlockSize)).length =
      min s.remaining fileBlockSize := by
    rw [List.length_take, List.length_drop]
    omega
  have hread : file.read s.offset (min s.remaining fileBlockSize) =
      some ((file.content.drop s.offset).take (min s.remaining fileBlockSize)) := by
    rw [OpenFile.read, if_pos hlength]
  obtain ⟨hnone, hreliable, -⟩ :=
    h.write ((file.content.drop s.offset).take (min s.remaining fileBlockSize))
  unfold fileStep
  rw [if_neg hmore, h.isOpen, Bool.not_true, if_neg Bool.false_ne_true, hread]
  dsimp only
  generalize hwrite : s.output.write ((file.content.drop s.offset).take
    (min s.remaining fileBlockSize)) = written at hnone hreliable
  obtain ⟨e, output'⟩ := written
  subst hnone
  refine ⟨_, rfl, hreliable, ?_⟩
  dsimp only
  rw [hlength]
  omega

/-- It takes any part of a file. -/
lemma writeFile_reliable {s : FileTransfer} (h : s.output.Reliable)
    (hinside : s.offset + s.remaining ≤ file.content.length) : (writeFile file s).1 = none := by
  let Post : FileTransfer → Option ErrorInfo × Output → Prop := fun s r =>
    s.output.Reliable → s.offset + s.remaining ≤ file.content.length → r.1 = none
  have hrun : Post s (writeFile file s) := by
    refine Loop.run_induct (fileStep_decreases file) ?_ ?_ s
    · intro s r hleave h hinside
      obtain ⟨hdone, hmore⟩ := fileStep_reliable h hinside
      by_cases hzero : s.remaining = 0
      · rw [hdone hzero] at hleave
        cases hleave
        rfl
      · obtain ⟨s', hagain, -⟩ := hmore hzero
        rw [hagain] at hleave
        cases hleave
    · intro s s' r hagain ih h hinside
      obtain ⟨hdone, hmore⟩ := fileStep_reliable h hinside
      by_cases hzero : s.remaining = 0
      · rw [hdone hzero] at hagain
        cases hagain
      · obtain ⟨t, ht, hreliable, hinside'⟩ := hmore hzero
        rw [ht] at hagain
        cases hagain
        exact ih hreliable hinside'
  exact hrun h hinside

/-- What is written for a part of a file is what the plain route writes for a response with this body,
on a reliable transport and with the same error, if there is one. -/
lemma sendFilePart_eq_writeResponse (h : output.Reliable) {first length : ℕ}
    (hinside : first + length ≤ file.content.length) :
    (sendFilePart request response file first length output).1 =
        (writeResponse request { response with body := file.part first length } output).1 ∧
      (sendFilePart request response file first length output).2.bytes =
        (writeResponse request { response with body := file.part first length } output).2.bytes := by
  let answered : Response := { response with body := file.part first length }
  have hlength : answered.body.length = length := by
    show ((file.content.drop first).take length).length = length
    rw [List.length_take, List.length_drop]
    omega
  have hsame : buildResponseHead request answered { contentLength := some answered.body.length } =
      buildResponseHead request response { contentLength := some length } := by
    rw [hlength]
    rfl
  cases hbuild : buildResponseHead request response { contentLength := some length } with
  | error e =>
    have hplain : writeResponse request answered output = (some e, output) := by
      unfold writeResponse writeResponseHead
      dsimp only
      rw [hsame, hbuild]
      split_ifs <;> rfl
    have hpart : sendFilePart request response file first length output = (some e, output) := by
      rw [sendFilePart, writeResponseHead, hbuild]
    rw [hplain, hpart]
    exact ⟨rfl, rfl⟩
  | ok head =>
    obtain ⟨output', written, hplain, -, -⟩ := writeResponse_reliable h (hsame.trans hbuild)
    obtain ⟨head', hbuild', hbytes⟩ := written_of_writeResponse h hplain
    rw [hsame, hbuild, Except.ok.injEq] at hbuild'
    subst hbuild'
    rw [hplain]
    obtain ⟨hnone, hreliable, hhead⟩ := h.write head
    have hwrite : output.write head = (none, (output.write head).2) := Prod.ext hnone rfl
    unfold sendFilePart writeResponseHead
    rw [hbuild]
    dsimp only
    rw [hwrite, hbytes]
    dsimp only
    have homits : omitsBody request.method answered.status =
      (iequals request.method (bytes "HEAD") || statusHasNoBody response.status) := rfl
    rw [homits]
    split_ifs with hstop hnobody hnobody
    · refine ⟨rfl, ?_⟩
      rw [hhead, List.append_nil]
    · -- an empty part
      have hzero : length = 0 := by
        rw [Bool.or_eq_true, Bool.or_eq_true, beq_iff_eq] at hstop
        rw [Bool.or_eq_true] at hnobody
        tauto
      have hempty : answered.body = [] := List.length_eq_zero_iff.mp (hlength.trans hzero)
      refine ⟨rfl, ?_⟩
      rw [hhead, hempty, List.append_nil]
    · rw [Bool.or_eq_true] at hnobody
      rw [Bool.or_eq_true, Bool.or_eq_true] at hstop
      tauto
    · have hdone := @writeFile_reliable file
        { offset := first, remaining := length, output := (output.write head).2 } hreliable hinside
      refine ⟨hdone, ?_⟩
      rw [(bytes_of_writeFile (Prod.ext hdone rfl)).1, hhead, List.append_assoc]
      rfl

/-- **The plain route.**  On a reliable transport, a file that has not become shorter is answered with
the bytes, and the error, of the buffered response that stands for it. -/
lemma sendFile_eq_writeResponse (request : Request) (response : Response) {opened : Option OpenFile}
    (h : output.Reliable) (hsize : ∀ file ∈ opened, file.content.length = file.size) :
    (sendFile request response opened output).1 =
        (writeResponse request (fileAnswer request response opened) output).1 ∧
      (sendFile request response opened output).2.bytes =
        (writeResponse request (fileAnswer request response opened) output).2.bytes := by
  cases opened with
  | none => exact ⟨rfl, rfl⟩
  | some file =>
    have hsize := hsize file rfl
    rw [sendFile, transferFile, fileAnswer]
    cases requestedRange request response with
    | none =>
      have hwhole : file.part 0 file.size = file.content := by
        rw [OpenFile.part, List.drop_zero, List.take_of_length_le hsize.le]
      have := @sendFilePart_eq_writeResponse request response file output h 0 file.size (by omega)
      rwa [hwhole] at this
    | some range =>
      dsimp only
      cases hrange : parseRange range file.size with
      | none => exact ⟨rfl, rfl⟩
      | some interval =>
        obtain ⟨first, last⟩ := interval
        obtain ⟨horder, hlast⟩ := parseRange_bounds hrange
        exact sendFilePart_eq_writeResponse h (by omega)

end Plain

/-! ### What a client reads -/

/-- The field of a part survives the wire, and describes it. -/
lemma parse_rangeField {first last size : ℕ} (horder : first ≤ last) (hlast : last < size)
    (hsize : size < 2 ^ 64) : trimOws (rangeField first last size) = rangeField first last size ∧
      parseContentRange (rangeField first last size) =
        .ok { unit := bytes "bytes", first := some first, last := some last, total := some size } := by
  have hdigits := (plain_totalText (some size)).2.1
  have hne := (plain_totalText (some size)).1
  have htext : rangeField first last size = bytes "bytes" ++ sp ::
      (toChars 10 first ++ dash :: toChars 10 last ++ slash :: totalText (some size)) := by
    simp [rangeField, totalText, bytes, dash, slash, sp]
  refine ⟨?_, ?_⟩
  · rw [htext]
    refine trimWith_eq_self (fun c hc => by cases hc; rfl) fun c hc => ?_
    rw [List.getLast?_append_cons, List.getLast?_cons_of_ne_nil (by simp), List.getLast?_append_cons,
      List.getLast?_cons_of_ne_nil hne] at hc
    exact hdigits c (List.mem_of_getLast? hc)
  · have hlimit : size < uint64Limit := hsize
    rw [htext]
    exact parseContentRange_format (by omega) (by omega) (fun n hn => by cases hn; exact hlimit) horder
      fun n hn => by cases hn; exact hlast

/-- The answer to a range announces no coding if the file does not. -/
lemma contains_fileAnswer {request : Request} {response : Response} (opened : Option OpenFile)
    (h : response.headers.contains (bytes "Content-Encoding") = false) :
    (fileAnswer request response opened).headers.contains (bytes "Content-Encoding") = false := by
  have hset : ∀ name value, iequals name (bytes "Content-Encoding") = false →
      (response.headers.set name value).contains (bytes "Content-Encoding") = false := by
    intro name value hname
    rw [Headers.contains_eq_false_iff] at h ⊢
    rw [Headers.getAll_set_of_ne _ hname, h]
  unfold fileAnswer
  split
  · exact hset _ _ (by decide)
  · split
    · exact h
    · split
      · exact hset _ _ (by decide)
      · exact hset _ _ (by decide)

section Wire

variable {options : ServerOptions} {openFile : Bytes → Option OpenFile} {request : Request}
  {response : Response} {path : Bytes} {output output' : Output} {client : HttpReadOptions}
  {written : Bytes}

/-- What is written for a file is read as the response that stands for it. -/
lemma readAsBuilt_of_sendFile (decoder : Decoder) (hpath : response.filePath = some path)
    (hreliable : output.Reliable)
    (hsize : ∀ file ∈ openFile path, file.content.length = file.size)
    (hsend : sendResponse options openFile request response output = (none, output'))
    (hwritten : output'.bytes = output.bytes ++ written) (hstatus : 200 ≤ response.status)
    (hconnect : iequals request.method (bytes "CONNECT") = false)
    (hplain : response.headers.contains (bytes "Content-Encoding") = false)
    (hbuf : client.Buffered) (hcallback : client.onResponseHead = none)
    (hbody : (fileAnswer request response (openFile path)).body.length ≤ client.maxBodySize)
    (hmax : client.maxBodySize < 2 ^ 64)
    (hhead : ∀ head, buildResponseHead request (fileAnswer request response (openFile path))
      { contentLength := some (fileAnswer request response (openFile path)).body.length } = .ok head →
        head.length ≤ client.maxHeaderSize) :
    ReadAsBuilt decoder client request (fileAnswer request response (openFile path)) written := by
  have hanswerStatus : 200 ≤ (fileAnswer request response (openFile path)).status := by
    unfold fileAnswer
    split
    · exact (by norm_num : (200 : ℤ) ≤ 500)
    · split
      · exact hstatus
      · split
        · exact (by norm_num : (200 : ℤ) ≤ 416)
        · exact (by norm_num : (200 : ℤ) ≤ 206)
  rw [sendResponse, hpath] at hsend
  dsimp only at hsend
  obtain ⟨hsame, hbytes⟩ := sendFile_eq_writeResponse request response hreliable hsize
  rw [hsend] at hsame hbytes
  rw [hbytes] at hwritten
  have hwrite : writeResponse request (fileAnswer request response (openFile path)) output =
      (none, (writeResponse request (fileAnswer request response (openFile path)) output).2) :=
    Prod.ext hsame.symm rfl
  exact readAsBuilt_of_plain decoder hreliable hwrite hwritten hanswerStatus hconnect
    (contains_fileAnswer _ hplain) hbuf hcallback hbody hmax hhead

end Wire

/-- Files survive the wire.  A client reads what a file response stands for; if it has asked for a
range, it reads exactly this part of the file, with a field that says where the part belongs. -/
theorem readResponse_sendFile (decoder : Decoder) (options : ServerOptions)
    (openFile : Bytes → Option OpenFile) (request : Request) (response : Response) (path : Bytes)
    (output output' : Output) (client : HttpReadOptions) (written : Bytes)
    (hpath : response.filePath = some path) (hreliable : output.Reliable)
    (hsize : ∀ file ∈ openFile path, file.content.length = file.size)
    (hsizes : ∀ file ∈ openFile path, file.size < 2 ^ 64)
    (hsend : sendResponse options openFile request response output = (none, output'))
    (hwritten : output'.bytes = output.bytes ++ written) (hstatus : 200 ≤ response.status)
    (hconnect : iequals request.method (bytes "CONNECT") = false)
    (hplain : response.headers.contains (bytes "Content-Encoding") = false)
    (hbuf : client.Buffered) (hcallback : client.onResponseHead = none)
    (hbody : (fileAnswer request response (openFile path)).body.length ≤ client.maxBodySize)
    (hmax : client.maxBodySize < 2 ^ 64)
    (hhead : ∀ head, buildResponseHead request (fileAnswer request response (openFile path))
      { contentLength := some (fileAnswer request response (openFile path)).body.length } = .ok head →
        head.length ≤ client.maxHeaderSize) :
    ReadAsBuilt decoder client request (fileAnswer request response (openFile path)) written ∧
    ∀ file range first last, openFile path = some file →
      requestedRange request response = some range → parseRange range file.size = some (first, last) →
      ∀ input rest, input.available = written ++ rest → ∃ received after value,
        readResponse decoder request.method client input = (.ok received, after) ∧
        received.status = 206 ∧ received.body = file.part first (last - first + 1) ∧
        received.headers.getAll (bytes "Content-Range") = [value] ∧
        parseContentRange value =
          .ok { unit := bytes "bytes", first := some first, last := some last,
                total := some file.size } ∧ after.available = rest := by
  have hback := readAsBuilt_of_sendFile decoder hpath hreliable hsize hsend hwritten hstatus hconnect
    hplain hbuf hcallback hbody hmax hhead
  refine ⟨hback, fun file range first last hfile hrequested hrange input rest havail => ?_⟩
  have hanswer : fileAnswer request response (openFile path) =
      { response with
        status := 206
        headers := response.headers.set (bytes "Content-Range") (rangeField first last file.size)
        body := file.part first (last - first + 1) } := by
    rw [hfile, fileAnswer, hrequested]
    dsimp only
    rw [hrange]
  obtain ⟨horder, hlast⟩ := parseRange_bounds hrange
  obtain ⟨htrim, hparse⟩ := parse_rangeField horder hlast (hsizes file hfile)
  obtain ⟨received, after, hread, hs, hb, -, -, hfields, hrest⟩ := hback input rest havail
  have hfield := hfields (bytes "Content-Range") (by unfold PassedOn; decide)
    (by unfold DescribesNoCoding; decide)
  rw [hanswer] at hs hb hfield
  refine ⟨received, after, _, hread, hs, ?_, ?_, hparse, hrest⟩
  · have hhead : iequals request.method (bytes "HEAD") = false := by
      unfold requestedRange at hrequested
      split_ifs at hrequested with hconditions
      rw [iequals_congr hconditions.2.1]
      decide
    rw [hb, expectedBody, hhead, if_neg (by simp)]
  · rw [hfield, Headers.getAll_set_self, List.map_singleton, htrim]

/-- A file of five bytes. -/
def hello : OpenFile := { size := 5, content := bytes "hello" }

/-- Its response. -/
def helloResponse : Response :=
  { headers := [(bytes "ETag", bytes "\"1\"")], filePath := some (bytes "/hello") }

/-- A server without compression. -/
def plainOptions : ServerOptions := { decoder := .disabled, compressor := .disabled }

/-- What it writes for a request. -/
def helloWritten (request : Request) : Bytes :=
  (sendResponse plainOptions (fun _ => some hello) request helloResponse {}).2.bytes

/-- A request for three of the bytes. -/
def partRequest : Request := { headers := [(bytes "Range", bytes "bytes=1-3")] }

/-- They are read, from two pieces. -/
theorem readResponse_sendFile_part : ∃ received after value,
    readResponse .disabled (bytes "GET") (bufferedOptions 512 16)
        ⟨(helloWritten partRequest).take 40, [.data ((helloWritten partRequest).drop 40)]⟩ =
      (.ok received, after) ∧
    received.status = 206 ∧ received.body = bytes "ell" ∧
    received.headers.getAll (bytes "Content-Range") = [value] ∧
    parseContentRange value =
      .ok { unit := bytes "bytes", first := some 1, last := some 3, total := some 5 } ∧
    after.available = [] :=
  (readResponse_sendFile .disabled plainOptions (fun _ => some hello) partRequest helloResponse
    (bytes "/hello") {} _ (bufferedOptions 512 16) (helloWritten partRequest) rfl
    ⟨rfl, rfl, fun _ => rfl⟩ (fun f hf => by cases hf; decide) (fun f hf => by cases hf; decide)
    (Prod.ext (by decide +kernel) rfl) rfl (by decide) (by decide) (by decide)
    (bufferedOptions_buffered _ _) rfl (by decide +kernel) (by decide)
    (fun head h => by cases h; decide +kernel)).2 hello (bytes "bytes=1-3") 1 3 rfl
    (by decide +kernel) (by decide +kernel) _ [] (by decide +kernel)

/-! ### Resuming -/

/-- The range from a position to the end. -/
def restRange (first : ℕ) : Bytes := bytes "bytes=" ++ (toChars 10 first ++ [dash])

/-- What a client that held the beginning of a file makes of the answer to its request for the rest.
A 416 says that there is nothing behind what it holds, and another status brings the whole file. -/
def resumed (held : Bytes) (answer : Response) : Bytes :=
  if answer.status = 206 then held ++ answer.body
  else if answer.status = 416 then held
  else answer.body

/-- The rest of a file is the part from there on, unless there is none. -/
lemma parseRange_restRange {first size : ℕ} (hfirst : first < 2 ^ 64) (hsize : size < 2 ^ 64) :
    parseRange (restRange first) size = if first < size then some (first, size - 1) else none := by
  obtain ⟨hne, hdigits, hvalue, -⟩ := (fromChars_ten).mp
    (fromChars_toChars (by decide) (by decide) hfirst : fromChars 10 uint64Limit (toChars 10 first) = _)
  have hnumeral : IsNumeral (toChars 10 first) := ⟨hne, hdigits⟩
  have hdecimal : decimal (toChars 10 first) = first := hvalue
  by_cases hzero : size = 0
  · rw [hzero, parseRange, if_neg (Nat.not_lt_zero first), if_pos (by simp)]
  · have hselected := (@parseRange_iff (.openEnd (toChars 10 first)) hnumeral size (by omega) hsize).mpr
      trivial
    rw [RangeSpec.selected, hdecimal] at hselected
    exact hselected

/-- A client that asks for the rest with the validator of the version it holds ends up with the version
that the server has: the two are joined only if they are the same. -/
theorem resume_never_splices (decoder : Decoder) (options : ServerOptions)
    (openFile : Bytes → Option OpenFile) (request : Request) (response : Response) (path tag : Bytes)
    (file : OpenFile) (held : ℕ) (old : Bytes) (output output' : Output) (client : HttpReadOptions)
    (written : Bytes) (hpath : response.filePath = some path) (hfile : openFile path = some file)
    (hsize : file.content.length = file.size) (hsize64 : file.size < 2 ^ 64)
    (hheld : held ≤ old.length) (hheld64 : held < 2 ^ 64)
    (hget : iequals request.method (bytes "GET") = true)
    (hrange : findHeader request.headers (bytes "Range") = some (restRange held))
    (hvalidator : findHeader request.headers (bytes "If-Range") = some tag)
    (hversion : findHeader response.headers (bytes "ETag") = some tag → file.content = old)
    (hstatus : response.status = 200) (hreliable : output.Reliable)
    (hsend : sendResponse options openFile request response output = (none, output'))
    (hwritten : output'.bytes = output.bytes ++ written)
    (hplain : response.headers.contains (bytes "Content-Encoding") = false)
    (hbuf : client.Buffered) (hcallback : client.onResponseHead = none)
    (hbody : file.content.length ≤ client.maxBodySize) (hmax : client.maxBodySize < 2 ^ 64)
    (hhead : ∀ head, buildResponseHead request (fileAnswer request response (some file))
      { contentLength := some (fileAnswer request response (some file)).body.length } = .ok head →
        head.length ≤ client.maxHeaderSize)
    (input : Input) (rest : Bytes) (havail : input.available = written ++ rest) :
    ∃ received after, readResponse decoder request.method client input = (.ok received, after) ∧
      resumed (old.take held) received = file.content ∧ after.available = rest := by
  have hother : ∀ method, iequals (bytes "GET") method = false → iequals request.method method = false :=
    fun method h => by rw [iequals_congr hget]; exact h
  have hpart : (fileAnswer request response (some file)).body.length ≤ client.maxBodySize := by
    rw [fileAnswer]
    split
    · exact hbody
    · split
      · exact Nat.zero_le _
      · refine le_trans ?_ hbody
        show ((file.content.drop _).take _).length ≤ _
        rw [List.length_take, List.length_drop]
        omega
  have hback := readAsBuilt_of_sendFile decoder hpath hreliable
    (fun f hf => by rw [hfile] at hf; cases hf; exact hsize) hsend hwritten (by omega)
    (hother _ (by decide)) hplain hbuf hcallback (by rw [hfile]; exact hpart) hmax
    (by rw [hfile]; exact hhead)
  obtain ⟨received, after, hread, hs, hb, -, -, -, hrest⟩ := hback input rest havail
  refine ⟨received, after, hread, ?_, hrest⟩
  rw [hfile] at hs hb
  have hexpected : ∀ answer : Response, (answer.status = 200 ∨ answer.status = 206) →
      expectedBody request.method answer = answer.body := by
    intro answer hanswer
    rw [expectedBody, hother _ (by decide), if_neg]
    rintro (h | h | h | h)
    · cases h
    all_goals omega
  have hstart : istartsWith (restRange held) (bytes "bytes=") = true := rfl
  cases hmatches : validatorMatches request response with
  | false =>
    -- the validator does not match, and the answer is the whole file
    have hanswer : fileAnswer request response (some file) = { response with body := file.content } := by
      rw [fileAnswer, requestedRange, hmatches, if_neg (by simp)]
    rw [hanswer] at hs hb
    rw [hexpected { response with body := file.content } (.inl hstatus)] at hb
    rw [resumed, hs, hb, hstatus, if_neg (by norm_num), if_neg (by norm_num)]
  | true =>
    have hsame : file.content = old := by
      refine hversion ?_
      rw [validatorMatches, hvalidator] at hmatches
      dsimp only at hmatches
      rw [Bool.and_eq_true, beq_iff_eq] at hmatches
      exact hmatches.2
    have hrequested : requestedRange request response = some (restRange held) := by
      rw [requestedRange, hmatches, if_pos ⟨hstatus, hget, rfl⟩, hrange, Option.filter_some,
        if_pos hstart]
    rw [fileAnswer, hrequested] at hs hb
    dsimp only at hs hb
    rw [parseRange_restRange hheld64 hsize64] at hs hb
    subst hsame
    by_cases hmore : held < file.size
    · rw [if_pos hmore] at hs hb
      dsimp only at hs hb
      rw [hexpected _ (.inr rfl)] at hb
      have hall : file.part held (file.size - 1 - held + 1) = file.content.drop held := by
        refine List.take_of_length_le ?_
        rw [List.length_drop]
        omega
      rw [resumed, hs, hb, if_pos rfl, hall, List.take_append_drop]
    · rw [if_neg hmore] at hs hb
      rw [resumed, hs, if_neg (by norm_num), if_pos rfl, List.take_of_length_le (by omega)]

/-- A request for the rest of the file. -/
def restRequest : Request :=
  { headers := [(bytes "Range", restRange 2), (bytes "If-Range", bytes "\"1\"")] }

/-- The first two bytes and the answer are the file. -/
theorem resume_never_splices_hello : ∃ received after,
    readResponse .disabled (bytes "GET") (bufferedOptions 512 16)
        ⟨(helloWritten restRequest).take 40, [.data ((helloWritten restRequest).drop 40)]⟩ =
      (.ok received, after) ∧
    resumed (bytes "he") received = bytes "hello" ∧ after.available = [] :=
  resume_never_splices .disabled plainOptions (fun _ => some hello) restRequest helloResponse
    (bytes "/hello") (bytes "\"1\"") hello 2 (bytes "hello") {} _ (bufferedOptions 512 16)
    (helloWritten restRequest) rfl rfl rfl (by decide) (by decide) (by decide) (by decide)
    (by decide +kernel) (by decide +kernel) (fun _ => rfl) rfl ⟨rfl, rfl, fun _ => rfl⟩
    (Prod.ext (by decide +kernel) rfl) rfl (by decide) (bufferedOptions_buffered _ _) rfl (by decide)
    (by decide) (fun head h => by cases h; decide +kernel) _ [] (by decide +kernel)

end Chhttp
