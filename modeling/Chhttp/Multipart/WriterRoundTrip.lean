import Chhttp.Multipart.Writer

/-!
# Written multipart bodies are read back

What `MultipartWriter::write` writes, and what a parser that is made from `content_type` makes of
it (`readsBack_write_iff`).  A valid boundary may begin with blanks, which the parser of the content
type trims; then it looks for other delimiters than those that were written
(`not_received_of_suffix`).  Otherwise a body is read back part by part (`form_writtenFrom`), as
long as no content has a delimiter inside.
-/

namespace Chhttp.Multipart

open ListSearch MultipartParser MultipartWriter

/-! ### What is written -/

/-- The content of a part, written to a writer that accepts everything.  A producer may write in any
pieces; the content is their concatenation. -/
def WriterPart.content (part : WriterPart) : Bytes :=
  match part.producer with
  | some producer => (producer.run accepting []).2
  | none => part.data

/-- What is written behind a boundary, when `parts` follow it. -/
def writtenFrom (boundary : Bytes) : List WriterPart → Bytes
  | [] => dashes ++ crlf
  | part :: parts =>
    crlf ++ (serializePartHead part.metadata ++
      (part.content ++ (crlf ++ (dashes ++ boundary) ++ writtenFrom boundary parts)))

/-- A write that succeeds. -/
lemma run_writeThen (data : Bytes) (next : Producer) (written : Bytes) :
    (writeThen data next).run accepting written = next.run accepting (written ++ data) := rfl

/-- What the loop writes, if it finishes. -/
lemma run_writeParts {boundary : Bytes} {parts : List WriterPart} {written body : Bytes}
    (h : (writeParts boundary parts).run accepting written = (none, body)) :
    body = written ++ (dashes ++ boundary ++ writtenFrom boundary parts) := by
  induction parts generalizing written with
  | nil =>
    cases h
    simp only [accepting, writtenFrom, List.append_assoc]
  | cons part parts ih =>
    have hbehind : ∀ content, part.content = content →
        (writeThen crlf (writeParts boundary parts)).run accepting
          (written ++ partPrefix boundary part ++ content) = (none, body) →
        body = written ++ (dashes ++ boundary ++ writtenFrom boundary (part :: parts)) := by
      rintro content rfl hrest
      rw [run_writeThen] at hrest
      rw [ih hrest, writtenFrom, partPrefix]
      simp only [List.append_assoc]
    rw [writeParts, run_writeThen] at h
    cases hproducer : part.producer with
    | none =>
      simp only [hproducer] at h
      have hcontent : part.content = part.data := by rw [WriterPart.content, hproducer]
      split_ifs at h with hempty
      · refine hbehind [] (hcontent.trans (List.isEmpty_iff.mp hempty)) ?_
        rw [List.append_nil]
        exact h
      · exact hbehind part.data hcontent h
    | some producer =>
      simp only [hproducer] at h
      rw [run_andThen, run_accepting] at h
      cases hthrown : (producer.run accepting []).1 with
      | some thrown =>
        rw [hthrown] at h
        cases h
      | none =>
        rw [hthrown] at h
        exact hbehind (producer.run accepting []).2 (by rw [WriterPart.content, hproducer]) h

/-- A part as a call adds it: its metadata is valid, and the size of a field is that of its data.  A
streamed part need not know its size. -/
structure Added (part : WriterPart) : Prop where
  metadata : ValidMetadata part.metadata
  size : part.producer = none → part.size = some part.data.length

/-- A call adds a part, and the boundary stays. -/
lemma add_spec {writer writer' : MultipartWriter} {addition : Addition}
    (h : writer.add addition = .ok writer') :
    writer'.boundary = writer.boundary ∧
      ∃ part, writer'.parts = writer.parts ++ [part] ∧ Added part := by
  cases addition with
  | field name value contentType =>
    rw [add, addField] at h
    dsimp only at h
    split at h
    · cases h
    · rename_i hvalid
      cases h
      exact ⟨rfl, _, rfl, validMetadata_of_validate hvalid, fun _ => rfl⟩
  | stream name filename contentType producer size headers =>
    rw [add, addStream] at h
    split_ifs at h with hempty
    dsimp only at h
    split at h
    · cases h
    · rename_i hvalid
      cases h
      refine ⟨rfl, _, rfl, validMetadata_of_validate hvalid, fun hnone => ?_⟩
      exact absurd (by rw [show producer = none from hnone]; rfl) hempty

/-- What the calls that add parts leave. -/
lemma foldlM_add {additions : List Addition} {writer writer' : MultipartWriter}
    (h : additions.foldlM add writer = .ok writer') (hparts : ∀ part ∈ writer.parts, Added part) :
    writer'.boundary = writer.boundary ∧ ∀ part ∈ writer'.parts, Added part := by
  induction additions generalizing writer with
  | nil =>
    cases h
    exact ⟨rfl, hparts⟩
  | cons addition additions ih =>
    rw [List.foldlM_cons] at h
    cases hadd : writer.add addition with
    | error thrown =>
      rw [hadd] at h
      cases h
    | ok next =>
      rw [hadd] at h
      obtain ⟨hboundary, part, hnext, hadded⟩ := add_spec hadd
      rw [← hboundary]
      refine ih h fun p hp => ?_
      rw [hnext, List.mem_append, List.mem_singleton] at hp
      rcases hp with hp | rfl
      · exact hparts p hp
      · exact hadded

/-! ### Boundaries -/

/-- The characters of a boundary mean nothing in a content type, and the only blank among them is
SP. -/
lemma boundaryCharacter_spec {ch : UInt8} (h : boundaryCharacter ch = true) :
    ch ≠ quotationMark ∧ ch ≠ semicolon ∧ ch ≠ cr ∧ ch ≠ lf ∧ (isSpace ch = true → ch = sp) := by
  have hall : ∀ c : UInt8, boundaryCharacter c = true →
      c ≠ quotationMark ∧ c ≠ semicolon ∧ c ≠ cr ∧ c ≠ lf ∧ (isSpace c = true → c = sp) := by
    decide +kernel
  exact hall ch h

/-- A valid boundary. -/
lemma validBoundary_iff {boundary : Bytes} :
    validBoundary boundary = true ↔ boundary ≠ [] ∧ boundary.length ≤ 70 ∧
      boundary.getLast? ≠ some sp ∧ ∀ ch ∈ boundary, boundaryCharacter ch = true := by
  rw [validBoundary]
  simp only [Bool.and_eq_true, Bool.not_eq_true', Bool.or_eq_false_iff, List.isEmpty_eq_false_iff,
    decide_eq_false_iff_not, not_lt, beq_eq_false_iff_ne, ne_eq, List.all_eq_true, and_assoc]

/-- The marker of a boundary stays within its line. -/
lemma cr_not_mem_marker {boundary : Bytes} (h : validBoundary boundary = true) :
    cr ∉ dashes ++ boundary := by
  obtain ⟨-, -, -, hall⟩ := (validBoundary_iff).mp h
  rw [List.mem_append, not_or]
  exact ⟨by decide, fun hmem => (boundaryCharacter_spec (hall _ hmem)).2.2.1 rfl⟩

/-- What remains of a boundary when it is trimmed.  A boundary may begin with a space, which the
content type does not keep. -/
lemma validBoundary_trim {boundary : Bytes} (h : validBoundary boundary = true) :
    validBoundary (trim boundary) = true ∧ (trim boundary).head? ≠ some sp ∧
      (boundary.head? ≠ some sp → trim boundary = boundary) := by
  induction boundary with
  | nil => cases h
  | cons ch rest ih =>
    obtain ⟨-, hlength, hlast, hall⟩ := (validBoundary_iff).mp h
    by_cases hsp : ch = sp
    · subst hsp
      have hne : rest ≠ [] := by
        rintro rfl
        exact hlast rfl
      have hrest : validBoundary rest = true := by
        refine (validBoundary_iff).mpr ⟨hne, by rw [List.length_cons] at hlength; omega, ?_,
          fun c hc => hall c (List.mem_cons_of_mem _ hc)⟩
        rwa [List.getLast?_cons_of_ne_nil hne] at hlast
      have htrim : trim (sp :: rest) = trim rest := trimWith_cons_of_pos rfl rest
      obtain ⟨hvalid, hhead, -⟩ := ih hrest
      rw [htrim]
      exact ⟨hvalid, hhead, fun hne => absurd rfl hne⟩
    · have htrim : trim (ch :: rest) = ch :: rest := by
        refine trim_eq_self ?_ fun c hc => ?_
        · rintro c ⟨⟩
          by_contra hspace
          rw [Bool.not_eq_false] at hspace
          exact hsp ((boundaryCharacter_spec (hall _ List.mem_cons_self)).2.2.2.2 hspace)
        · by_contra hspace
          rw [Bool.not_eq_false] at hspace
          have hc' := (boundaryCharacter_spec (hall c (List.mem_of_getLast? hc))).2.2.2.2 hspace
          rw [hc'] at hc
          exact hlast hc
      rw [htrim]
      refine ⟨h, fun hhead => hsp ?_, fun _ => rfl⟩
      rwa [List.head?_cons, Option.some.injEq] at hhead

/-- The boundary that is taken from the content type of a writer. -/
lemma multipartBoundary_contentType {writer : MultipartWriter}
    (h : validBoundary writer.boundary = true) :
    multipartBoundary writer.contentType = .ok (trim writer.boundary) := by
  obtain ⟨hne, -, hlast, hall⟩ := (validBoundary_iff).mp h
  obtain ⟨hvalid, -, -⟩ := validBoundary_trim h
  obtain ⟨-, -, -, hall'⟩ := (validBoundary_iff).mp hvalid
  have hmark : quotationMark ∉ bytes " boundary=" ++ writer.boundary := by
    rw [List.mem_append, not_or]
    exact ⟨by decide, fun hmem => (boundaryCharacter_spec (hall _ hmem)).1 rfl⟩
  have hsemicolon : semicolon ∉ bytes " boundary=" ++ writer.boundary := by
    rw [List.mem_append, not_or]
    exact ⟨by decide, fun hmem => (boundaryCharacter_spec (hall _ hmem)).2.1 rfl⟩
  have hparameter : trim (bytes " boundary=" ++ writer.boundary) =
      bytes "boundary=" ++ writer.boundary := by
    refine (trimWith_cons_of_pos (x := sp) rfl (bytes "boundary=" ++ writer.boundary)).trans
      (trim_eq_self ?_ fun c hc => ?_)
    · rintro ch ⟨⟩
      rfl
    · rw [List.getLast?_append_of_ne_nil _ hne] at hc
      by_contra hspace
      rw [Bool.not_eq_false] at hspace
      have hc' := (boundaryCharacter_spec (hall c (List.mem_of_getLast? hc))).2.2.2.2 hspace
      rw [hc'] at hc
      exact hlast hc
  have hsplit : splitParameters writer.contentType =
      [bytes "multipart/form-data", bytes "boundary=" ++ writer.boundary] := by
    have htext : writer.contentType = bytes "multipart/form-data" ++
        semicolon :: ((bytes " boundary=" ++ writer.boundary) ++ []) := by
      rw [MultipartWriter.contentType, List.append_nil]
      rfl
    rw [splitParameters, htext, splitParametersFrom_plain (by decide) (by decide),
      splitParametersFrom_semicolon, splitParametersFrom_plain hmark hsemicolon, List.nil_append,
      List.nil_append, splitParametersFrom, if_neg (by decide), hparameter]
    rfl
  have hassign : splitAssignment (bytes "boundary=" ++ writer.boundary) =
      some (bytes "boundary", writer.boundary) :=
    (@splitAssignment_append (bytes "boundary") (by decide) writer.boundary).trans
      (by rw [show trim (bytes "boundary") = bytes "boundary" by decide +kernel])
  have hdecode : decodeParameter writer.boundary = .ok (trim writer.boundary) := by
    rw [decodeParameter]
    refine if_pos fun hhead => ?_
    exact (boundaryCharacter_spec (hall' _ (List.mem_of_mem_head? hhead))).1 rfl
  rw [multipartBoundary, hsplit]
  simp only [iequals_refl, Bool.not_true, Bool.false_eq_true, if_false, boundaryParameter, hassign,
    if_true, hdecode, hvalid]

/-! ### Reading a written body -/

/-- The custom fields: those that the writer does not make itself. -/
def customFields (headers : Headers) : Headers := headers.filter fun field => !isPartField field.1

/-- A part is received as it was sent, with the values of its custom fields trimmed.  The names, the
content type and the content are as they were. -/
structure Received (sent : WriterPart) (received : MultipartPart) : Prop where
  name : received.name = sent.metadata.name
  filename : received.filename = sent.metadata.filename
  contentType : received.contentType = sent.metadata.contentType
  content : received.content = sent.content
  headers : customFields received.headers = (customFields sent.metadata.headers).map trimField

/-- The limits of the parser are not exceeded; the last four bytes of a head are not counted. -/
structure WithinLimits (options : MultipartParserOptions) (parts : List WriterPart) : Prop where
  count : parts.length ≤ options.maxParts
  head : ∀ part ∈ parts, (serializePartHead part.metadata).length ≤ options.maxHeaderSize + 4
  size : ∀ part ∈ parts, part.content.length ≤ options.maxPartSize
  total : (parts.map fun part => part.content.length).sum ≤ options.maxTotalSize

/-- The names of a part consist of characters of field values, and there is nothing to trim at its
content type. -/
structure Plain (part : MultipartPart) : Prop where
  name : validHeaderValue part.name = true
  filename : validHeaderValue part.filename = true
  contentType : trimOws part.contentType = part.contentType

/-- The custom fields of a part as the parser reads it. -/
lemma customFields_readBack (part : MultipartPart) :
    customFields (readBack part).headers = (customFields part.headers).map trimField := by
  have hown : ∀ headers : Headers,
      customFields (headers.map trimField) = (customFields headers).map trimField := by
    intro headers
    rw [customFields, customFields, List.filter_map]
    rfl
  have hdisposition : isPartField (bytes "Content-Disposition") = true := by decide
  have htype : isPartField (bytes "Content-Type") = true := by decide
  rw [readBack, hown, partFields, customFields,
    List.filter_cons_of_neg (by rw [hdisposition]; decide), List.filter_append]
  have hmade : (if part.contentType.isEmpty then ([] : Headers)
      else [(bytes "Content-Type", part.contentType)]).filter
        (fun field => !isPartField field.1) = [] := by
    split_ifs
    · rfl
    · exact List.filter_cons_of_neg (by rw [htype]; decide)
  rw [hmade, List.nil_append, List.filter_filter, customFields]
  simp only [Bool.and_self]

/-- What the parser reads of a part is the part exactly when there is nothing to trim at its content
type. -/
lemma received_readBack_iff {part : WriterPart} :
    Received part { readBack part.metadata with content := part.content } ↔
      trimOws part.metadata.contentType = part.metadata.contentType :=
  ⟨fun h => h.contentType, fun h => ⟨rfl, rfl, h, rfl, customFields_readBack part.metadata⟩⟩

/-- A content ends at the delimiter behind it. -/
lemma untilDelimiter_content {boundary content : Bytes} (hboundary : validBoundary boundary = true)
    (h : find (crlf ++ (dashes ++ boundary)) content = none) (parts : List WriterPart) :
    untilDelimiter (crlf ++ (dashes ++ boundary))
        (content ++ (crlf ++ (dashes ++ boundary) ++ writtenFrom boundary parts)) =
      some (content, writtenFrom boundary parts) := by
  have hcr : cr ∉ lf :: (dashes ++ boundary) := by
    rw [List.mem_cons, not_or]
    exact ⟨by decide, cr_not_mem_marker hboundary⟩
  have hfind := find_append_word hcr h (writtenFrom boundary parts)
  obtain ⟨-, -, hfirst⟩ := (find_eq_some_iff).mp hfind
  have hending : validEnding ((writtenFrom boundary parts).take 2) = true := by
    cases parts <;> rfl
  have hdelimits : delimits (crlf ++ (dashes ++ boundary))
      ((content ++ (crlf ++ (dashes ++ boundary) ++ writtenFrom boundary parts)).drop
        content.length) = true := by
    rw [List.drop_left, delimits, Bool.and_eq_true, List.isPrefixOf_iff_prefix, List.drop_left]
    exact ⟨List.prefix_append _ _, hending⟩
  rw [untilDelimiter_of_first (fun m hm => ?_) hdelimits, List.take_left, ← List.drop_drop,
    List.drop_left, List.drop_left]
  rw [delimits, Bool.and_eq_false_iff]
  left
  rw [← Bool.not_eq_true, List.isPrefixOf_iff_prefix]
  exact hfirst m hm

section Form

variable {options : MultipartParserOptions} {boundary : Bytes}

/-- The first part of a written form. -/
lemma form_writtenFrom_cons (hboundary : validBoundary boundary = true) {part : WriterPart}
    {parts : List WriterPart} {partIndex total : ℕ} (hvalid : ValidMetadata part.metadata)
    (hcontent : find (crlf ++ (dashes ++ boundary)) part.content = none)
    (hcount : partIndex < options.maxParts)
    (hhead : (serializePartHead part.metadata).length ≤ options.maxHeaderSize + 4)
    (hsize : part.content.length ≤ options.maxPartSize)
    (htotal : total + part.content.length ≤ options.maxTotalSize) :
    form options (crlf ++ (dashes ++ boundary)) partIndex total
        (writtenFrom boundary (part :: parts)) =
      if validHeaderValue (formData part.metadata) then
        (form options (crlf ++ (dashes ++ boundary)) (partIndex + 1) (total + part.content.length)
          (writtenFrom boundary parts)).map fun events =>
            { type := .partBegin, partIndex, part := readBack part.metadata } ::
              (dataEvents partIndex part.content ++
                { type := .partEnd, partIndex, part := readBack part.metadata } :: events)
      else none := by
  have hcrlf : ∀ w : Bytes, crlf.isPrefixOf (crlf ++ w) = true :=
    fun w => List.isPrefixOf_iff_prefix.mpr (List.prefix_append _ _)
  have hdashes : ∀ w : Bytes, ¬dashes.isPrefixOf (crlf ++ w) = true := by
    intro w h
    obtain ⟨t, ht⟩ := List.isPrefixOf_iff_prefix.mp h
    cases ht
  have hdrop : ∀ w : Bytes, (crlf ++ w).drop 2 = w := fun w => rfl
  rw [form_eq, writtenFrom, if_neg (hdashes _), if_pos (hcrlf _), hdrop, formHead,
    partHead_serializePartHead hvalid hhead]
  by_cases hnames : validHeaderValue (formData part.metadata) = true
  · rw [if_pos hnames, if_pos hnames, Option.bind_some, if_neg (by omega), formBody,
      untilDelimiter_content hboundary hcontent, Option.bind_some, if_neg (by simp; omega),
      Option.map_map]
    rfl
  · rw [if_neg hnames, if_neg hnames]
    rfl

/-- A written form is read back exactly when its parts are plain.  No content contains the
delimiter, which is what makes the writer's boundary a boundary. -/
theorem form_writtenFrom (hboundary : validBoundary boundary = true) {parts : List WriterPart}
    {partIndex total : ℕ} (hvalid : ∀ part ∈ parts, ValidMetadata part.metadata)
    (hcontent : ∀ part ∈ parts, find (crlf ++ (dashes ++ boundary)) part.content = none)
    (hcount : partIndex + parts.length ≤ options.maxParts)
    (hhead : ∀ part ∈ parts, (serializePartHead part.metadata).length ≤ options.maxHeaderSize + 4)
    (hsize : ∀ part ∈ parts, part.content.length ≤ options.maxPartSize)
    (htotal : total + (parts.map fun part => part.content.length).sum ≤ options.maxTotalSize) :
    (∃ events, form options (crlf ++ (dashes ++ boundary)) partIndex total
        (writtenFrom boundary parts) = some events ∧
      List.Forall₂ Received parts (collectParts none events)) ↔
      ∀ part ∈ parts, Plain part.metadata := by
  induction parts generalizing partIndex total with
  | nil =>
    refine ⟨fun _ part hpart => absurd hpart List.not_mem_nil, fun _ => ⟨[], ?_, .nil⟩⟩
    rw [form_eq, writtenFrom, if_pos (List.isPrefixOf_iff_prefix.mpr (List.prefix_append _ _))]
  | cons part parts ih =>
    rw [List.length_cons] at hcount
    rw [List.map_cons, List.sum_cons] at htotal
    have hvalid' := hvalid part List.mem_cons_self
    have hih := @ih (partIndex + 1) (total + part.content.length)
      (fun p hp => hvalid p (List.mem_cons_of_mem _ hp))
      (fun p hp => hcontent p (List.mem_cons_of_mem _ hp)) (by omega)
      (fun p hp => hhead p (List.mem_cons_of_mem _ hp))
      (fun p hp => hsize p (List.mem_cons_of_mem _ hp)) (by omega)
    have hnames := validHeaderValue_formData hvalid'.toWithoutLineEnds
    rw [form_writtenFrom_cons hboundary hvalid' (hcontent part List.mem_cons_self) (by omega)
      (hhead part List.mem_cons_self) (hsize part List.mem_cons_self) (by omega)]
    constructor
    · rintro ⟨events, hevents, hreceived⟩
      split_ifs at hevents with hplain
      obtain ⟨events', hform, rfl⟩ := Option.map_eq_some_iff.mp hevents
      rw [collectParts_part, List.forall₂_cons, received_readBack_iff] at hreceived
      rw [hnames, Bool.and_eq_true] at hplain
      intro p hp
      rcases List.mem_cons.mp hp with rfl | hp
      · exact ⟨hplain.1, hplain.2, hreceived.1⟩
      · exact hih.mp ⟨events', hform, hreceived.2⟩ p hp
    · intro hplain
      obtain ⟨hname, hfilename, htype⟩ := hplain part List.mem_cons_self
      obtain ⟨events, hform, hreceived⟩ :=
        hih.mpr fun p hp => hplain p (List.mem_cons_of_mem _ hp)
      rw [if_pos (by rw [hnames, hname, hfilename]; rfl), hform, Option.map_some]
      refine ⟨_, rfl, ?_⟩
      rw [collectParts_part]
      exact .cons (received_readBack_iff.mpr htype) hreceived

end Form

/-! ### Boundaries that begin with a blank -/

/-- A line end within lines is the end of one of them.  No line of a head has a CRLF within it, so a
delimiter that seems to start in a head starts a line. -/
lemma exists_line_of_crlf {lines : List Bytes} (h : ∀ line ∈ lines, LineText line)
    {rest before behind : Bytes} (heq : lineBytes lines ++ rest = before ++ (crlf ++ behind))
    (hfit : before.length + 2 ≤ (lineBytes lines).length) :
    ∃ u line v, lines = u ++ line :: v ∧ behind = lineBytes v ++ rest := by
  induction lines generalizing before with
  | nil =>
    rw [lineBytes_nil, List.length_nil] at hfit
    omega
  | cons line lines ih =>
    have hline := h line List.mem_cons_self
    rw [lineBytes_cons, List.append_assoc, List.append_assoc] at heq
    have hoccurs : crlf <+: (line ++ (crlf ++ (lineBytes lines ++ rest))).drop before.length := by
      rw [heq, List.drop_left]
      exact List.prefix_append _ _
    rcases Nat.lt_trichotomy before.length line.length with hlt | hlength | hlt
    · exact absurd hoccurs (not_crlf_prefix_of_lineText hline rfl hlt)
    · obtain ⟨-, hbehind⟩ := List.append_inj heq hlength.symm
      exact ⟨[], line, lines, rfl, (List.append_cancel_left hbehind).symm⟩
    · by_cases hinside : before.length = line.length + 1
      · have hend : crlf <+: (line ++ (crlf ++ (lineBytes lines ++ rest))).drop line.length := by
          rw [List.drop_left]
          exact List.prefix_append _ _
        rw [hinside] at hoccurs
        exact absurd hoccurs (crlf_prefix_step hend)
      · obtain ⟨before', rfl⟩ : line ++ crlf <+: before := by
          refine List.prefix_of_prefix_length_le ?_ (List.prefix_append before (crlf ++ behind)) ?_
          · rw [← heq, ← List.append_assoc]
            exact List.prefix_append _ _
          · rw [List.length_append, crlf_length]
            omega
        rw [List.append_assoc, List.append_assoc] at heq
        have heq' := List.append_cancel_left (List.append_cancel_left heq)
        have hfit' : before'.length + 2 ≤ (lineBytes lines).length := by
          simp only [lineBytes_cons, List.length_append, crlf_length] at hfit
          omega
        obtain ⟨u, found, v, rfl, hbehind⟩ :=
          ih (fun l hl => h l (List.mem_cons_of_mem _ hl)) heq' hfit'
        exact ⟨line :: u, found, v, rfl, hbehind⟩

/-- An empty line is no field. -/
lemma partHeadStep_crlf (w : Bytes) (n : ℕ) :
    partHeadStep ({}, (crlf ++ w).take (n + 2)) =
      .leave (.error (multipartError "Malformed multipart header")) := by
  have hline := find_crlf_of_lineText lineText_nil (w.take n)
  have htake : (crlf ++ w).take (n + 2) = [] ++ (crlf ++ w.take n) := by
    rw [Nat.add_comm, ← crlf_length, List.take_length_add_append, List.nil_append]
  simp only [partHeadStep, htake, hline, Option.getD_some, List.length_nil, List.take_zero]
  rfl

/-- A head that begins with an empty line is refused. -/
lemma partHead_crlf (options : MultipartParserOptions) (w : Bytes) :
    partHead options (crlf ++ w) = none := by
  rw [partHead]
  cases hfind : find crlfCrlf (crlf ++ w) with
  | none => rfl
  | some headEnd =>
    rw [Option.bind_some]
    obtain ⟨-, hoccurs, -⟩ := (find_eq_some_iff).mp hfind
    have hrefused : ∃ e, parsePartHead ((crlf ++ w).take headEnd) = .error e := by
      rcases headEnd with _ | _ | n
      · exact ⟨_, rfl⟩
      · obtain ⟨t, ht⟩ := hoccurs
        cases ht
      · refine ⟨multipartError "Malformed multipart header", ?_⟩
        rw [parsePartHead, Loop.run_of_leave _ (partHeadStep_crlf w n)]
    obtain ⟨e, he⟩ := hrefused
    rw [he, ite_self]

/-- Fields that are valid, and no content disposition. -/
def NoDisposition (fields : Headers) : Prop :=
  ∀ field ∈ fields, validField field = true ∧
    iequals field.1 (bytes "Content-Disposition") = false

/-- The lines of such fields are read. -/
lemma foldlM_noDisposition {fields : Headers} (h : NoDisposition fields) (part : MultipartPart) :
    ∃ contentType, (fields.map fieldLine).foldlM partHeadLine part =
      .ok { part with
        headers := part.headers ++ fields.map trimField
        contentType := contentType } := by
  induction fields generalizing part with
  | nil =>
    refine ⟨part.contentType, ?_⟩
    rw [List.map_nil, List.map_nil, List.append_nil]
    rfl
  | cons field fields ih =>
    obtain ⟨hvalid, hname⟩ := h field List.mem_cons_self
    rw [List.map_cons, List.foldlM_cons, partHeadLine_of_validField hvalid hname part]
    obtain ⟨contentType, hread⟩ := ih (fun f hf => h f (List.mem_cons_of_mem _ hf)) _
    refine ⟨contentType, hread.trans ?_⟩
    rw [List.map_cons, List.append_assoc, List.singleton_append]

/-- A head without a content disposition is refused. -/
lemma partHead_noDisposition {fields : Headers} (h : NoDisposition fields)
    (options : MultipartParserOptions) (w : Bytes) :
    partHead options (lineBytes (fields.map fieldLine) ++ (crlf ++ w)) = none := by
  cases hfields : fields with
  | nil => exact partHead_crlf options w
  | cons field fields' =>
    have htext : ∀ l ∈ fields.map fieldLine, LineText l ∧ l ≠ [] := by
      intro l hl
      obtain ⟨f, hf, rfl⟩ := List.mem_map.mp hl
      exact lineText_fieldLine (h f hf).1
    obtain ⟨contentType, hread⟩ := foldlM_noDisposition h {}
    have hnone : Headers.getAll (fields.map trimField) (bytes "Content-Disposition") = [] := by
      rw [getAll_map_trimField, Headers.getAll, List.filter_eq_nil_iff.mpr, List.map_nil,
        List.map_nil]
      intro f hf
      rw [(h f hf).2]
      decide
    rw [hfields, List.map_cons] at htext hread
    have hrefused : parsePartHead (joinLines (fieldLine field) (fields'.map fieldLine)) =
        .error (multipartError "Multipart part requires one Content-Disposition") := by
      rw [parsePartHead, run_partHeadStep_joinLines htext, hread]
      refine if_pos ?_
      rw [List.nil_append, ← hfields, hnone]
      decide
    rw [List.map_cons, partHead_lineBytes options htext, hrefused, ite_self]

/-- The lines of a part from its delimiter on. -/
def partLines (boundary : Bytes) (part : MultipartPart) : List Bytes :=
  [] :: (dashes ++ boundary) :: ((partFields part).map fieldLine ++ [[]])

/-- What is written from a delimiter on. -/
lemma writtenFrom_cons {part : WriterPart} (h : ValidMetadata part.metadata) (boundary : Bytes)
    (parts : List WriterPart) :
    crlf ++ (dashes ++ boundary) ++ writtenFrom boundary (part :: parts) =
      lineBytes (partLines boundary part.metadata) ++
        (part.content ++ (crlf ++ (dashes ++ boundary) ++ writtenFrom boundary parts)) := by
  rw [writtenFrom, serializePartHead_eq h.headers, partLines]
  simp only [lineBytes_cons, lineBytes_append, lineBytes_nil, List.nil_append, List.append_nil,
    List.append_assoc]

/-- The fields behind the content disposition are no content dispositions. -/
lemma noDisposition_tail {part : MultipartPart} (h : ValidMetadata part) :
    NoDisposition (partFields part).tail := by
  intro field hfield
  rw [partFields, List.tail_cons, List.mem_append] at hfield
  rcases hfield with hfield | hfield
  · split_ifs at hfield
    · cases hfield
    · rw [List.mem_singleton] at hfield
      rw [hfield, validField, validHeaderName_type, h.contentType]
      exact ⟨rfl, iequals_type_disposition⟩
  · obtain ⟨hvalid, hown⟩ := custom_of_mem h hfield
    rw [isPartField, Bool.or_eq_false_iff] at hown
    exact ⟨hvalid, hown.1⟩

/-- The lines before the content of a part are lines. -/
lemma lineText_partLines {boundary : Bytes} (hboundary : validBoundary boundary = true)
    {part : MultipartPart} (h : ValidMetadata part) :
    ∀ line ∈ partLines boundary part, LineText line := by
  intro line hline
  rw [partLines, List.mem_cons, List.mem_cons, List.mem_append, List.mem_singleton] at hline
  rcases hline with rfl | rfl | hline | rfl
  · exact lineText_nil
  · exact lineText_of_not_mem (cr_not_mem_marker hboundary)
  · exact (lineText_partFields h line hline).1
  · exact lineText_nil

/-- Behind a field that starts with dashes there is no head: the disposition is before it. -/
lemma partHead_behind_field {part : MultipartPart} (h : ValidMetadata part) {m v : List Bytes}
    {text : Bytes} (hm : (partFields part).map fieldLine ++ [[]] = m ++ (dashes ++ text) :: v)
    (options : MultipartParserOptions) (w : Bytes) : partHead options (lineBytes v ++ w) = none := by
  have hfields : partFields part =
      (bytes "Content-Disposition", formData part) :: (partFields part).tail := rfl
  cases m with
  | nil =>
    rw [hfields, List.map_cons, List.cons_append, List.nil_append, List.cons.injEq] at hm
    cases hm.1
  | cons first m =>
    rw [hfields, List.map_cons, List.cons_append, List.cons_append, List.cons.injEq] at hm
    rcases List.eq_nil_or_concat' v with rfl | ⟨v, last, rfl⟩
    · have hlast := (List.append_inj' hm.2 rfl).2
      cases hlast
    · rw [← List.cons_append, ← List.append_assoc] at hm
      obtain ⟨hlast, hempty⟩ := List.append_inj' hm.2 rfl
      obtain ⟨l₁, l₂, hl, -, hl₂⟩ := List.map_eq_append_iff.mp hlast
      obtain ⟨field, fields, rfl, -, rfl⟩ := List.map_eq_cons_iff.mp hl₂
      cases hempty
      rw [lineBytes_append, lineBytes_cons, lineBytes_nil, List.append_nil, List.nil_append,
        List.append_assoc]
      refine partHead_noDisposition (fun f hf => noDisposition_tail h f ?_) options w
      rw [hl]
      exact List.mem_append_right _ (List.mem_cons_of_mem _ hf)

section Blank

variable {boundary : Bytes} (hboundary : validBoundary boundary = true)
  (hblank : boundary.head? = some sp)

include hboundary hblank

/-- The trimmed boundary is another one. -/
lemma trim_ne_boundary : dashes ++ trim boundary ≠ dashes ++ boundary := by
  intro heq
  obtain ⟨-, hhead, -⟩ := validBoundary_trim hboundary
  rw [List.append_cancel_left heq] at hhead
  exact hhead hblank

/-- Behind the first of these lines, the trimmed marker can only be a field. -/
lemma marker_among_fields {part : MultipartPart} {u v : List Bytes} {line : Bytes}
    (hsplit : partLines boundary part = u ++ line :: (dashes ++ trim boundary) :: v) :
    ∃ m, (partFields part).map fieldLine ++ [[]] = m ++ (dashes ++ trim boundary) :: v := by
  rw [partLines] at hsplit
  cases u with
  | nil =>
    rw [List.nil_append, List.cons.injEq, List.cons.injEq] at hsplit
    exact absurd hsplit.2.1.symm (trim_ne_boundary hboundary hblank)
  | cons first u =>
    rw [List.cons_append, List.cons.injEq] at hsplit
    cases u with
    | nil =>
      rw [List.nil_append, List.cons.injEq] at hsplit
      exact ⟨[], hsplit.2.2⟩
    | cons second u =>
      rw [List.cons_append, List.cons.injEq] at hsplit
      exact ⟨u ++ [line], by rw [List.append_assoc]; exact hsplit.2.2⟩

/-- No line of a part but those of its custom fields can be the trimmed boundary, and behind such a
field there is no complete head. -/
lemma partHead_behind_line {part : MultipartPart} (h : ValidMetadata part)
    (options : MultipartParserOptions) {w before r : Bytes}
    (heq : lineBytes (partLines boundary part) ++ w =
      before ++ (crlf ++ ((dashes ++ trim boundary) ++ (crlf ++ r))))
    (hlength : w.length ≤ r.length) : partHead options r = none := by
  have htrimmed : LineText (dashes ++ trim boundary) :=
    lineText_of_not_mem (cr_not_mem_marker (validBoundary_trim hboundary).1)
  have hlines := lineText_partLines hboundary h
  have hfit : before.length + 2 ≤ (lineBytes (partLines boundary part)).length := by
    have hlengths := congrArg List.length heq
    simp only [List.length_append, crlf_length] at hlengths
    omega
  obtain ⟨u, line, v, hsplit, hbehind⟩ := exists_line_of_crlf hlines heq hfit
  cases v with
  | nil =>
    -- the rest would be too long
    have hlengths := congrArg List.length hbehind
    simp only [List.length_append, crlf_length, lineBytes_nil, List.length_nil] at hlengths
    omega
  | cons marker v =>
    have hmarker : LineText marker :=
      hlines marker (by rw [hsplit]; simp)
    have hbehind' : (dashes ++ trim boundary) ++ (crlf ++ r) =
        marker ++ (crlf ++ (lineBytes v ++ w)) := by
      rw [hbehind, lineBytes_cons]
      simp only [List.append_assoc]
    obtain ⟨rfl, rfl⟩ := line_append_inj htrimmed hmarker hbehind'
    obtain ⟨m, hm⟩ := marker_among_fields hboundary hblank hsplit
    exact partHead_behind_field h hm options w

/-- The closing delimiter is none for the parser.  It has a space in front of the boundary, and the
parser looks for the boundary without. -/
lemma not_marker_behind_parts {before rest : Bytes} :
    crlf ++ (dashes ++ boundary) ++ writtenFrom boundary [] ≠
      before ++ (crlf ++ (dashes ++ trim boundary) ++ rest) := by
  intro heq
  obtain ⟨hvalid, hhead, -⟩ := validBoundary_trim hboundary
  obtain ⟨hne, -⟩ := (validBoundary_iff).mp hvalid
  have hline : LineText (dashes ++ boundary ++ dashes) := by
    refine lineText_of_not_mem ?_
    rw [List.mem_append, not_or]
    exact ⟨cr_not_mem_marker hboundary, by decide⟩
  have heq' : lineBytes [[], dashes ++ boundary ++ dashes] ++ [] =
      before ++ (crlf ++ ((dashes ++ trim boundary) ++ rest)) := by
    rw [writtenFrom] at heq
    simp only [lineBytes_cons, lineBytes_nil, List.nil_append, List.append_nil,
      List.append_assoc] at heq ⊢
    exact heq
  have hfit : before.length + 2 ≤ (lineBytes [[], dashes ++ boundary ++ dashes]).length := by
    have hlengths := congrArg List.length heq'
    simp only [List.length_append, crlf_length, List.length_nil] at hlengths ⊢
    omega
  obtain ⟨u, line, v, hsplit, hbehind⟩ :=
    exists_line_of_crlf (by simpa using ⟨lineText_nil, hline⟩) heq' hfit
  obtain ⟨ch, text, htext⟩ := List.exists_cons_of_ne_nil hne
  obtain ⟨blank, blanks, hblanks⟩ := List.exists_cons_of_ne_nil ((validBoundary_iff).mp hboundary).1
  rw [htext, List.head?_cons] at hhead
  rw [hblanks, List.head?_cons] at hblank
  rw [htext] at hbehind
  cases u with
  | nil =>
    rw [List.nil_append, List.cons.injEq] at hsplit
    rw [← hsplit.2, hblanks, lineBytes_cons, lineBytes_nil] at hbehind
    have hthird := congrArg (fun w : Bytes => w[2]?) hbehind
    exact hhead (hthird.trans hblank)
  | cons first u =>
    rw [List.cons_append, List.cons.injEq] at hsplit
    cases u with
    | nil =>
      rw [List.nil_append, List.cons.injEq] at hsplit
      rw [← hsplit.2.2] at hbehind
      cases hbehind
    | cons second u =>
      have hlengths := congrArg List.length hsplit.2
      simp only [List.length_cons, List.length_append, List.length_nil] at hlengths
      omega

/-- From a delimiter on, the form that the parser sees is not the one that was written: every
content that it finds lies behind the one that was written. -/
theorem not_received_of_suffix {options : MultipartParserOptions} {parts : List WriterPart}
    (hvalid : ∀ part ∈ parts, ValidMetadata part.metadata) {w before rest : Bytes}
    (hsuffix : w <:+ crlf ++ (dashes ++ boundary) ++ writtenFrom boundary parts)
    (hcut : untilDelimiter (crlf ++ (dashes ++ trim boundary)) w = some (before, rest))
    {partIndex total : ℕ} {events : List MultipartEvent}
    (hform : form options (crlf ++ (dashes ++ trim boundary)) partIndex total rest = some events) :
    ¬List.Forall₂ Received parts (collectParts none events) := by
  induction parts generalizing w before rest partIndex total events with
  | nil =>
    -- the closing delimiter is no delimiter for the parser
    obtain ⟨-, -, hw⟩ := untilDelimiter_eq_some hcut
    obtain ⟨front, hfront⟩ := hsuffix
    rw [hw, ← List.append_assoc] at hfront
    exact absurd hfront.symm (not_marker_behind_parts hboundary hblank)
  | cons part parts ih =>
    intro hreceived
    obtain ⟨-, -, hw⟩ := untilDelimiter_eq_some hcut
    obtain ⟨front, hfront⟩ := hsuffix
    rcases form_eq_some options _ hform with ⟨-, rfl⟩ | ⟨r, read, body, content, rest', events', rfl,
      hhead, hcut', hform', rfl⟩
    · cases hreceived
    rw [collectParts_part, List.forall₂_cons] at hreceived
    obtain ⟨hfirst, hreceived⟩ := hreceived
    have hcontent : content = part.content := hfirst.content
    have hvalid' := hvalid part List.mem_cons_self
    rw [writtenFrom_cons hvalid'] at hfront
    obtain ⟨hdelimits, -, hsplit⟩ := untilDelimiter_eq_some hcut'
    rw [hw] at hfront
    have hshort : r.length < (part.content ++
        (crlf ++ (dashes ++ boundary) ++ writtenFrom boundary parts)).length := by
      by_contra hlong
      have heq := hfront.symm
      rw [← List.append_assoc front, List.append_assoc crlf] at heq
      rw [partHead_behind_line hboundary hblank hvalid' options heq (not_lt.mp hlong)] at hhead
      cases hhead
    have hless := length_of_partHead options hhead
    obtain ⟨headEnd, -, -, hbody⟩ := partHead_eq_some options hhead
    -- the next delimiter lies in what was written behind the content of the part
    have hsuffix : crlf ++ (dashes ++ trim boundary) ++ rest' <:+
        crlf ++ (dashes ++ boundary) ++ writtenFrom boundary parts := by
      refine List.suffix_of_suffix_length_le ?_
        ((List.suffix_append part.content _).trans
          (List.suffix_append (lineBytes (partLines boundary part.metadata)) _)) ?_
      · rw [← hfront]
        have hmarker : crlf ++ (dashes ++ trim boundary) ++ rest' <:+ r :=
          (hsplit ▸ List.suffix_append content _ : _ <:+ body).trans
            (hbody ▸ List.drop_suffix (headEnd + 4) r)
        exact hmarker.trans (((List.suffix_append crlf r).trans (List.suffix_append _ _)).trans
          ((List.suffix_append before _).trans (List.suffix_append front _)))
      · have hlengths := congrArg List.length hsplit
        rw [List.length_append, hcontent] at hlengths
        rw [List.length_append] at hshort
        omega
    have hcut : untilDelimiter (crlf ++ (dashes ++ trim boundary))
        (crlf ++ (dashes ++ trim boundary) ++ rest') = some ([], rest') := by
      rw [hsplit, List.drop_left] at hdelimits
      have hfirst := @untilDelimiter_of_first _ _ 0 (fun m hm => absurd hm (Nat.not_lt_zero m))
        hdelimits
      rwa [List.take_zero, Nat.zero_add, List.drop_left] at hfirst
    exact ih (fun p hp => hvalid p (List.mem_cons_of_mem _ hp)) hsuffix hcut hform' hreceived

end Blank

/-! ### Writers and parsers -/

/-- The parser that is made from the content type of a writer reads its parts back.  The chunks are
any cut of the body, so the round trip includes the transfer. -/
def ReadsBack (writer : MultipartWriter) (options : MultipartParserOptions) (chunks : List Bytes) :
    Prop :=
  ∃ events, (MultipartParser.create writer.contentType options).parse chunks = .ok events ∧
    List.Forall₂ Received writer.parts (collectParts none events)

/-- The parts are read back when they are the parts of the form. -/
lemma readsBack_iff {writer : MultipartWriter} (h : validBoundary writer.boundary = true)
    (options : MultipartParserOptions) (chunks : List Bytes) :
    ReadsBack writer options chunks ↔
      ∃ events, formEvents options (crlf ++ (dashes ++ trim writer.boundary)) chunks.flatten =
        some events ∧ List.Forall₂ Received writer.parts (collectParts none events) := by
  have hmeaning := parse_create writer.contentType options chunks
  simp only [multipartBoundary_contentType h] at hmeaning
  constructor
  · rintro ⟨events, hparse, hreceived⟩
    rw [hparse, Except.toOption, Option.map_some] at hmeaning
    obtain ⟨formed, hformed, hjoined⟩ := Option.map_eq_some_iff.mp hmeaning.symm
    refine ⟨formed, hformed, ?_⟩
    rwa [← collectParts_joinData none formed, hjoined, collectParts_joinData]
  · rintro ⟨formed, hformed, hreceived⟩
    rw [hformed, Option.map_some] at hmeaning
    obtain ⟨events, hparse, hjoined⟩ := Option.map_eq_some_iff.mp hmeaning
    cases hresult : (MultipartParser.create writer.contentType options).parse chunks with
    | error e =>
      rw [hresult] at hparse
      cases hparse
    | ok events' =>
      rw [hresult, Except.toOption, Option.some.injEq] at hparse
      refine ⟨events', hresult, ?_⟩
      rwa [hparse, ← collectParts_joinData none events, hjoined, collectParts_joinData]

/-- What a writer has written is read back, however it is cut, exactly when its boundary does not
begin with a blank, the names of its parts consist of characters of field values, and there is
nothing to trim at their content types. -/
theorem readsBack_write_iff {random boundary : Bytes} {additions : List Addition}
    {writer : MultipartWriter} {body : Bytes} {options : MultipartParserOptions}
    {chunks : List Bytes} (hboundary : validBoundary boundary = true)
    (hadded : additions.foldlM add (MultipartWriter.create random boundary) = .ok writer)
    (hwritten : writer.write.run accepting [] = (none, body)) (hchunks : chunks.flatten = body)
    (hcontent : ∀ part ∈ writer.parts, find (crlf ++ (dashes ++ boundary)) part.content = none)
    (hlimits : WithinLimits options writer.parts) :
    ReadsBack writer options chunks ↔
      boundary.head? ≠ some sp ∧ ∀ part ∈ writer.parts, Plain part.metadata := by
  obtain ⟨hsame, hparts⟩ := foldlM_add hadded fun part hpart => absurd hpart List.not_mem_nil
  have hvalid := fun part hpart => (hparts part hpart).metadata
  have hcreated : writer.boundary = boundary := by
    rw [hsame, MultipartWriter.create]
    exact if_pos hboundary
  have hbody := run_writeParts hwritten
  rw [List.nil_append, hcreated] at hbody
  rw [readsBack_iff (by rw [hcreated]; exact hboundary), hchunks, hbody, hcreated, formEvents]
  obtain ⟨-, -, hplain⟩ := validBoundary_trim hboundary
  by_cases hblank : boundary.head? = some sp
  · refine iff_of_false ?_ fun h => h.1 hblank
    rintro ⟨events, hform, hreceived⟩
    obtain ⟨⟨preamble, rest⟩, hcut, hform⟩ := Option.bind_eq_some_iff.mp hform
    split_ifs at hform
    exact not_received_of_suffix hboundary hblank hvalid
      (by rw [List.append_assoc]; exact List.suffix_refl _) hcut hform hreceived
  · have hcut := @untilDelimiter_content boundary [] hboundary rfl writer.parts
    rw [List.nil_append, List.append_assoc] at hcut
    rw [hplain hblank, hcut]
    simp only [Option.bind_some, List.length_nil, Nat.not_lt_zero, if_false]
    rw [form_writtenFrom hboundary hvalid hcontent (by rw [Nat.zero_add]; exact hlimits.count)
      hlimits.head hlimits.size (by rw [Nat.zero_add]; exact hlimits.total)]
    exact (and_iff_right hblank).symm

/-- A writer with a field and a streamed file. -/
def formWriter : MultipartWriter :=
  { boundary := bytes "b"
    parts := [
      { metadata := { name := bytes "x" }, size := some 1, data := bytes "a" },
      { metadata :=
          { name := bytes "f"
            filename := bytes "a\"b"
            contentType := bytes "text/plain"
            headers := [(bytes "X-Y", bytes " z")] }
        producer := some (.write (bytes "d") fun _ => .finished) }] }

/-- A field and a streamed file, read back byte by byte. -/
theorem readsBack_write_of_form :
    ReadsBack formWriter {} ((formWriter.write.run accepting []).2.map fun c => [c]) := by
  have hadded : [Addition.field (bytes "x") (bytes "a") [],
      .stream (bytes "f") (bytes "a\"b") (bytes "text/plain")
        (some (.write (bytes "d") fun _ => .finished)) none [(bytes "X-Y", bytes " z")]].foldlM add
      (MultipartWriter.create [] (bytes "b")) = .ok formWriter := rfl
  have hchunks : ((formWriter.write.run accepting []).2.map fun c => [c]).flatten =
      (formWriter.write.run accepting []).2 := by decide +kernel
  have hcontent : ∀ part ∈ formWriter.parts,
      find (crlf ++ (dashes ++ bytes "b")) part.content = none := by decide +kernel
  have hlimits : WithinLimits {} formWriter.parts :=
    ⟨by decide, by decide +kernel, by decide +kernel, by decide +kernel⟩
  refine (readsBack_write_iff (by decide) hadded rfl hchunks hcontent hlimits).mpr
    ⟨by decide, List.forall_mem_cons.mpr ⟨?_, List.forall_mem_singleton.mpr ?_⟩⟩
  · exact ⟨by decide, by decide, by decide⟩
  · exact ⟨by decide +kernel, by decide +kernel, by decide +kernel⟩

/-- A boundary that begins with a blank. -/
theorem not_readsBack_write :
    ¬ ∀ (random boundary : Bytes) (additions : List Addition) (writer : MultipartWriter)
      (body : Bytes) (options : MultipartParserOptions) (chunks : List Bytes),
      validBoundary boundary = true →
      additions.foldlM add (MultipartWriter.create random boundary) = .ok writer →
      writer.write.run accepting [] = (none, body) → chunks.flatten = body →
      (∀ part ∈ writer.parts, find (crlf ++ (dashes ++ boundary)) part.content = none) →
      WithinLimits options writer.parts → ReadsBack writer options chunks := by
  intro h
  have hadded : [Addition.field (bytes "x") (bytes "a") []].foldlM add
      (MultipartWriter.create [] (bytes " b")) =
        .ok { boundary := bytes " b", parts :=
          [{ metadata := { name := bytes "x" }, size := some 1, data := bytes "a" }] } := rfl
  obtain ⟨events, hparse, -⟩ := h [] (bytes " b") _ _ _ {} [_] (by decide) hadded rfl
    List.flatten_singleton (by decide +kernel)
    ⟨by decide, by decide +kernel, by decide +kernel, by decide +kernel⟩
  have hfailed : ((MultipartParser.create (bytes "multipart/form-data; boundary= b") {}).parse
      [bytes ("-- b\r\nContent-Disposition: form-data; name=\"x\"\r\n\r\na\r\n" ++
        "-- b--\r\n")]).isOk = false := by decide +kernel
  have hok := congrArg Except.isOk hparse
  exact Bool.false_ne_true (hfailed.symm.trans hok)

end Chhttp.Multipart
