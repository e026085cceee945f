import Chhttp.Multipart.Buffered
import Chhttp.Protocol.Written

/-!
# The multipart writer

`MultipartWriter` of `streaming_body.cpp`: the calls that add parts, the head of a part, and
`write`, which is a `Producer` like the producers of the parts that it runs.

The head of a part is read back by the incremental parser when its name and its file name consist of
characters of field values, and only then (`parsePartHead_written`).
-/

namespace Chhttp

/-! ### Coroutines -/

/-- `co_await first`, and then `second`. -/
def Producer.andThen : Producer → Producer → Producer
  | .finished, second => second
  | .threw thrown, _ => .threw thrown
  | .write data next, second => .write data fun written => (next written).andThen second
  | .flush next, second => .flush fun flushed => (next flushed).andThen second
  | .isOpen next, second => .isOpen fun isOpen => (next isOpen).andThen second

/-- A writer that accepts everything: its state is what has been written. -/
def accepting : SinkOps Bytes where
  write written data := (true, written ++ data)
  isOpen _ := true

/-- What was written before does not matter. -/
lemma run_accepting (producer : Producer) (written : Bytes) :
    producer.run accepting written =
      ((producer.run accepting []).1, written ++ (producer.run accepting []).2) := by
  induction producer generalizing written with
  | finished => rw [Producer.run, Producer.run, List.append_nil]
  | threw thrown => rw [Producer.run, Producer.run, List.append_nil]
  | write data next ih =>
    rw [Producer.run, Producer.run]
    simp only [accepting, List.nil_append] at ih ⊢
    rw [ih true (written ++ data), ih true data, List.append_assoc]
  | flush next ih => exact ih true written
  | isOpen next ih => exact ih true written

/-- The second coroutine runs when the first one has finished. -/
lemma run_andThen {σ : Type} (ops : SinkOps σ) (first second : Producer) (s : σ) :
    (first.andThen second).run ops s =
      match first.run ops s with
      | (some thrown, t) => (some thrown, t)
      | (none, t) => second.run ops t := by
  induction first generalizing s with
  | finished => rfl
  | threw thrown => rfl
  | write data next ih => exact ih _ _
  | flush next ih => exact ih _ _
  | isOpen next ih => exact ih _ _

namespace Multipart

open ListSearch MultipartParser

/-! ### The source -/

/-- `quote_parameter`. -/
def quoteParameter : Bytes → Bytes
  | [] => []
  | ch :: rest =>
    if ch = cr ∨ ch = lf then quoteParameter rest
    else if ch = backslash ∨ ch = quotationMark then backslash :: ch :: quoteParameter rest
    else ch :: quoteParameter rest

/-- `validate_part_metadata`. -/
def validatePartMetadata (part : MultipartPart) : Except Thrown Unit :=
  if part.name.isEmpty ∨ cr ∈ part.name ∨ lf ∈ part.name then
    .error (.exception "Multipart part name is invalid")
  else if cr ∈ part.filename ∨ lf ∈ part.filename then
    .error (.exception "Multipart filename is invalid")
  else if ¬part.contentType.isEmpty ∧ ¬validHeaderValue part.contentType then
    .error (.exception "Multipart content type is invalid")
  else if part.headers.any fun field => !validHeaderName field.1 || !validHeaderValue field.2 then
    .error (.exception "Multipart custom header is invalid")
  else .ok ()

/-- The fields that the writer makes itself. -/
def isPartField (name : Bytes) : Bool :=
  iequals name (bytes "Content-Disposition") || iequals name (bytes "Content-Type")

/-- A content type is no content disposition. -/
lemma iequals_type_disposition :
    iequals (bytes "Content-Type") (bytes "Content-Disposition") = false := by decide

/-- A content disposition is no content type. -/
lemma iequals_disposition_type :
    iequals (bytes "Content-Disposition") (bytes "Content-Type") = false := by decide

/-- The name of the content type is valid. -/
lemma validHeaderName_type : validHeaderName (bytes "Content-Type") = true := by decide

/-- `serialize_part_head`. -/
def serializePartHead (part : MultipartPart) : Bytes :=
  bytes "Content-Disposition: form-data; name=\"" ++ quoteParameter part.name ++ bytes "\"" ++
    (if part.filename.isEmpty then []
      else bytes "; filename=\"" ++ quoteParameter part.filename ++ bytes "\"") ++ crlf ++
    (if part.contentType.isEmpty then [] else bytes "Content-Type: " ++ part.contentType ++ crlf) ++
    part.headers.flatMap (fun field =>
      if isPartField field.1 then []
      else if validHeaderName field.1 && validHeaderValue field.2 then
        field.1 ++ bytes ": " ++ field.2 ++ crlf
      else []) ++ crlf

/-- `MultipartWriter::Impl::Part`.  A part has its data, or a producer that writes them when the
body is sent. -/
structure WriterPart where
  metadata : MultipartPart
  producer : Option Producer := none
  size : Option ℕ := none
  data : Bytes := []

/-- `MultipartWriter`: the boundary, and the parts in the order in which they were added. -/
structure MultipartWriter where
  boundary : Bytes
  parts : List WriterPart := []

namespace MultipartWriter

/-- The constructor, where `random` is what `random_boundary` returns. -/
def create (random boundary : Bytes) : MultipartWriter :=
  { boundary := if validBoundary boundary then boundary else random }

/-- `add_field`. -/
def addField (writer : MultipartWriter) (name value contentType : Bytes) :
    Except Thrown MultipartWriter :=
  let metadata : MultipartPart := { name := name, contentType := contentType }
  match validatePartMetadata metadata with
  | .error thrown => .error thrown
  | .ok () =>
    let part : WriterPart := { metadata, size := some value.length, data := value }
    .ok { writer with parts := writer.parts ++ [part] }

/-- `add_stream`. -/
def addStream (writer : MultipartWriter) (name filename contentType : Bytes)
    (producer : Option Producer) (size : Option ℕ) (headers : Headers) :
    Except Thrown MultipartWriter :=
  if producer.isNone then .error (.exception "Multipart producer is empty")
  else
    let metadata : MultipartPart :=
      { name := name, filename := filename, contentType := contentType, headers := headers }
    match validatePartMetadata metadata with
    | .error thrown => .error thrown
    | .ok () =>
      let part : WriterPart := { metadata, producer, size }
      .ok { writer with parts := writer.parts ++ [part] }

/-- A call that adds a part. -/
inductive Addition where
  | field (name value contentType : Bytes)
  | stream (name filename contentType : Bytes) (producer : Option Producer) (size : Option ℕ)
      (headers : Headers)

/-- The effect of a call. -/
def add (writer : MultipartWriter) : Addition → Except Thrown MultipartWriter
  | .field name value contentType => writer.addField name value contentType
  | .stream name filename contentType producer size headers =>
    writer.addStream name filename contentType producer size headers

/-- `content_type`. -/
def contentType (writer : MultipartWriter) : Bytes :=
  bytes "multipart/form-data; boundary=" ++ writer.boundary

/-- `MultipartWriter::Impl::prefix`. -/
def partPrefix (boundary : Bytes) (part : WriterPart) : Bytes :=
  dashes ++ boundary ++ crlf ++ serializePartHead part.metadata

/-- A write behind which the coroutine returns unless it succeeded. -/
def writeThen (data : Bytes) (next : Producer) : Producer :=
  .write data fun succeeded => if succeeded then next else .finished

/-- The loop of `write`, and the closing delimiter. -/
def writeParts (boundary : Bytes) : List WriterPart → Producer
  | [] => .write (dashes ++ boundary ++ dashes ++ crlf) fun _ => .finished
  | part :: parts =>
    let behind := writeThen crlf (writeParts boundary parts)
    writeThen (partPrefix boundary part) <|
      match part.producer with
      | some producer =>
        producer.andThen (.isOpen fun isOpen => if isOpen then behind else .finished)
      | none => if part.data.isEmpty then behind else writeThen part.data behind

/-- `write`. -/
def write (writer : MultipartWriter) : Producer := writeParts writer.boundary writer.parts

end MultipartWriter

/-! ### Quoting -/

/-- A text between quotation marks. -/
def quoted (text : Bytes) : Bytes := quotationMark :: (quoteParameter text ++ [quotationMark])

/-- A byte that is no backslash is taken as it is. -/
lemma unescape_cons {ch : UInt8} (h : ch ≠ backslash) (rest : Bytes) :
    unescape (ch :: rest) = ch :: unescape rest := by
  cases rest with
  | nil => rfl
  | cons next rest => rw [unescape, if_neg h]

/-- Quoting keeps every text without line ends. -/
lemma unescape_quoteParameter {text : Bytes} (hcr : cr ∉ text) (hlf : lf ∉ text) :
    unescape (quoteParameter text) = text := by
  induction text with
  | nil => rfl
  | cons ch rest ih =>
    obtain ⟨hcr', hcr⟩ := not_or.mp (mt List.mem_cons.mpr hcr)
    obtain ⟨hlf', hlf⟩ := not_or.mp (mt List.mem_cons.mpr hlf)
    rw [quoteParameter, if_neg (by rintro (rfl | rfl) <;> contradiction)]
    by_cases hescaped : ch = backslash ∨ ch = quotationMark
    · rw [if_pos hescaped, unescape, if_pos rfl, ih hcr hlf]
    · rw [if_neg hescaped, unescape_cons fun h => hescaped (.inl h), ih hcr hlf]

/-- Text that is not quoted and has no semicolon belongs to the current parameter. -/
lemma splitParametersFrom_plain {text : Bytes} (hmark : quotationMark ∉ text)
    (hsemicolon : semicolon ∉ text) (piece rest : Bytes) :
    splitParametersFrom piece false false (text ++ rest) =
      splitParametersFrom (piece ++ text) false false rest := by
  induction text generalizing piece with
  | nil => rw [List.nil_append, List.append_nil]
  | cons ch text ih =>
    obtain ⟨hmark', hmark⟩ := not_or.mp (mt List.mem_cons.mpr hmark)
    obtain ⟨hsemicolon', hsemicolon⟩ := not_or.mp (mt List.mem_cons.mpr hsemicolon)
    have hch : (ch == quotationMark) = false := beq_false_of_ne (Ne.symm hmark')
    have hch' : (ch == semicolon) = false := beq_false_of_ne (Ne.symm hsemicolon')
    rw [List.cons_append, splitParametersFrom]
    simp only [hch, hch', Bool.false_and, Bool.false_eq_true, if_false]
    rw [ih hmark hsemicolon, List.append_assoc, List.singleton_append]

/-- Quoted text belongs to the current parameter, too. -/
lemma splitParametersFrom_quoteParameter (text piece rest : Bytes) :
    splitParametersFrom piece true false (quoteParameter text ++ rest) =
      splitParametersFrom (piece ++ quoteParameter text) true false rest := by
  induction text generalizing piece with
  | nil => rw [quoteParameter, List.nil_append, List.append_nil]
  | cons ch text ih =>
    rw [quoteParameter]
    by_cases hend : ch = cr ∨ ch = lf
    · rw [if_pos hend, ih]
    rw [if_neg hend]
    by_cases hescaped : ch = backslash ∨ ch = quotationMark
    · -- the backslash takes the byte behind it with it
      rw [if_pos hescaped, List.cons_append, List.cons_append, splitParametersFrom]
      simp only [Bool.false_eq_true, if_false, beq_self_eq_true, Bool.and_self, if_true]
      rw [splitParametersFrom, if_pos rfl, ih]
      simp only [List.append_assoc, List.cons_append, List.nil_append]
    · obtain ⟨hslash, hmark⟩ := not_or.mp hescaped
      have hch : (ch == backslash) = false := beq_false_of_ne hslash
      have hch' : (ch == quotationMark) = false := beq_false_of_ne hmark
      rw [if_neg hescaped, List.cons_append, splitParametersFrom]
      simp only [hch, hch', Bool.and_false, Bool.false_eq_true, if_false, Bool.not_true]
      rw [ih]
      simp only [List.append_assoc, List.cons_append, List.nil_append]

/-- A quoted text within a parameter. -/
lemma splitParametersFrom_quoted (text piece rest : Bytes) :
    splitParametersFrom piece false false (quoted text ++ rest) =
      splitParametersFrom (piece ++ quoted text) false false rest := by
  have hmark : (quotationMark == semicolon) = false := rfl
  have hmark' : (quotationMark == backslash) = false := rfl
  rw [quoted, List.cons_append, List.append_assoc, splitParametersFrom]
  simp only [Bool.false_eq_true, if_false, Bool.false_and, beq_self_eq_true, if_true, hmark,
    Bool.not_false]
  rw [splitParametersFrom_quoteParameter, List.singleton_append, splitParametersFrom]
  simp only [Bool.false_eq_true, if_false, hmark', Bool.and_false, beq_self_eq_true, if_true, hmark,
    Bool.not_true, Bool.false_and]
  simp only [List.append_assoc, List.cons_append, List.nil_append]

/-- Nothing is trimmed from a text that begins and ends with other bytes than blanks. -/
lemma trim_eq_self {text : Bytes} (hhead : ∀ ch ∈ text.head?, isSpace ch = false)
    (hlast : ∀ ch ∈ text.getLast?, isSpace ch = false) : trim text = text :=
  trimWith_eq_self hhead hlast

/-- A quoted text ends with a quotation mark. -/
lemma getLast?_append_quoted (text piece : Bytes) :
    (piece ++ quoted text).getLast? = some quotationMark := by
  rw [quoted, List.getLast?_append_cons, ← List.cons_append, List.getLast?_concat]

/-- A quoted text is decoded to the text. -/
lemma decodeParameter_quoted {text : Bytes} (hcr : cr ∉ text) (hlf : lf ∉ text) :
    decodeParameter (quoted text) = .ok text := by
  have hlast := getLast?_append_quoted text []
  rw [List.nil_append] at hlast
  have htrim : trim (quoted text) = quoted text := by
    refine trim_eq_self ?_ ?_
    · rintro ch ⟨⟩
      rfl
    · rw [hlast]
      rintro ch ⟨⟩
      rfl
  have hlength : ¬((quoted text).length < 2 ∨ (quoted text).getLast? ≠ some quotationMark) := by
    rw [hlast, quoted, List.length_cons, List.length_append, List.length_singleton]
    rintro (h | h)
    · omega
    · exact h rfl
  have hinner : (quoted text).tail.dropLast = quoteParameter text := by
    rw [quoted, List.tail_cons, List.dropLast_concat]
  have hhead : ¬(quoted text).head? ≠ some quotationMark := not_not.mpr rfl
  rw [decodeParameter]
  simp only [htrim]
  rw [if_neg hhead, if_neg hlength, hinner, unescape_quoteParameter hcr hlf]

/-- An assignment is split at its sign. -/
lemma splitAssignment_append {key : Bytes} (h : equalSign ∉ key) (value : Bytes) :
    splitAssignment (key ++ equalSign :: value) = some (trim key, value) := by
  rw [splitAssignment, find_singleton_append h, Option.map_some, List.take_left,
    ← List.drop_drop, List.drop_left]
  rfl

/-! ### Content dispositions -/

/-- The value of the content disposition of a part. -/
def formData (part : MultipartPart) : Bytes :=
  bytes "form-data; name=" ++ quoted part.name ++
    (if part.filename.isEmpty then [] else bytes "; filename=" ++ quoted part.filename)

/-- A semicolon ends a parameter. -/
lemma splitParametersFrom_semicolon (piece rest : Bytes) :
    splitParametersFrom piece false false (semicolon :: rest) =
      trim piece :: splitParametersFrom [] false false rest := by
  have hmark : (semicolon == quotationMark) = false := rfl
  rw [splitParametersFrom]
  simp only [Bool.false_eq_true, if_false, Bool.false_and, hmark, beq_self_eq_true, Bool.not_false,
    Bool.and_self, if_true]

/-- A blank before a parameter is trimmed. -/
lemma trim_parameter {key : Bytes} (hkey : key.head?.map isSpace = some false) (text : Bytes) :
    trim (sp :: (key ++ quoted text)) = key ++ quoted text := by
  refine (trimWith_cons_of_pos rfl _).trans (trim_eq_self ?_ ?_)
  · obtain ⟨ch, hch, hspace⟩ := Option.map_eq_some_iff.mp hkey
    rw [List.head?_append, hch]
    rintro c ⟨⟩
    exact hspace
  · rw [getLast?_append_quoted]
    rintro ch ⟨⟩
    rfl

/-- The parameters of a content disposition. -/
lemma splitParameters_formData (part : MultipartPart) :
    splitParameters (formData part) =
      bytes "form-data" :: (bytes "name=" ++ quoted part.name) ::
        (if part.filename.isEmpty then [] else [bytes "filename=" ++ quoted part.filename]) := by
  have hname : trim (bytes " name=" ++ quoted part.name) = bytes "name=" ++ quoted part.name :=
    @trim_parameter (bytes "name=") (by decide +kernel) part.name
  have hfilename : trim (bytes " filename=" ++ quoted part.filename) =
      bytes "filename=" ++ quoted part.filename :=
    @trim_parameter (bytes "filename=") (by decide +kernel) part.filename
  have hform : formData part = bytes "form-data" ++ semicolon :: (bytes " name=" ++
      (quoted part.name ++ (if part.filename.isEmpty then []
        else semicolon :: (bytes " filename=" ++ (quoted part.filename ++ []))))) := by
    rw [formData, List.append_assoc, List.append_nil]
    rfl
  rw [splitParameters, hform, splitParametersFrom_plain (by decide) (by decide),
    splitParametersFrom_semicolon, splitParametersFrom_plain (by decide) (by decide),
    splitParametersFrom_quoted, List.nil_append, List.nil_append]
  split_ifs
  · rw [splitParametersFrom, if_neg (by decide), hname]
    rfl
  · rw [splitParametersFrom_semicolon, splitParametersFrom_plain (by decide) (by decide),
      splitParametersFrom_quoted, List.nil_append, splitParametersFrom, if_neg (by decide), hname,
      hfilename]
    rfl

/-- The name is read back. -/
lemma dispositionParameter_name {text : Bytes} (hcr : cr ∉ text) (hlf : lf ∉ text)
    (part : MultipartPart) :
    dispositionParameter part (bytes "name=" ++ quoted text) = .ok { part with name := text } := by
  have hsplit : splitAssignment (bytes "name=" ++ quoted text) =
      some (bytes "name", quoted text) :=
    (@splitAssignment_append (bytes "name") (by decide) (quoted text)).trans
      (by rw [show trim (bytes "name") = bytes "name" by decide +kernel])
  have hname : iequals (bytes "name") (bytes "filename") = false := by decide
  simp only [dispositionParameter, hsplit, decodeParameter_quoted hcr hlf, iequals_refl, if_true,
    hname, Bool.false_eq_true, if_false]

/-- The file name is read back. -/
lemma dispositionParameter_filename {text : Bytes} (hcr : cr ∉ text) (hlf : lf ∉ text)
    (part : MultipartPart) :
    dispositionParameter part (bytes "filename=" ++ quoted text) =
      .ok { part with filename := text } := by
  have hsplit : splitAssignment (bytes "filename=" ++ quoted text) =
      some (bytes "filename", quoted text) :=
    (@splitAssignment_append (bytes "filename") (by decide) (quoted text)).trans
      (by rw [show trim (bytes "filename") = bytes "filename" by decide +kernel])
  have hname : iequals (bytes "filename") (bytes "name") = false := by decide
  simp only [dispositionParameter, hsplit, decodeParameter_quoted hcr hlf, iequals_refl, if_true,
    hname, Bool.false_eq_true, if_false]

/-- The metadata has no line ends.  Quotation marks and backslashes are allowed, for they are
escaped. -/
structure WithoutLineEnds (part : MultipartPart) : Prop where
  cr_name : cr ∉ part.name
  lf_name : lf ∉ part.name
  cr_filename : cr ∉ part.filename
  lf_filename : lf ∉ part.filename

/-- The content disposition is read back. -/
lemma contentDisposition_formData {written part : MultipartPart} (h : WithoutLineEnds written)
    (hfilename : part.filename = []) :
    contentDisposition part (formData written) =
      .ok { part with name := written.name, filename := written.filename } := by
  rw [contentDisposition, splitParameters_formData]
  simp only [iequals_refl, Bool.not_true, Bool.false_eq_true, if_false]
  rw [List.foldlM_cons, dispositionParameter_name h.cr_name h.lf_name]
  by_cases hempty : written.filename.isEmpty = true
  · rw [if_pos hempty, List.isEmpty_iff.mp hempty, ← hfilename]
    rfl
  · rw [if_neg hempty]
    have hread := dispositionParameter_filename h.cr_filename h.lf_filename
      { part with name := written.name }
    simp only [bind, Except.bind, List.foldlM_cons, hread, List.foldlM_nil]
    rfl

/-! ### Heads -/

/-- Lines with a line end between each two of them. -/
def joinLines (line : Bytes) (lines : List Bytes) : Bytes := line ++ lines.flatMap (crlf ++ ·)

/-- The first of several lines. -/
lemma joinLines_cons (line next : Bytes) (lines : List Bytes) :
    joinLines line (next :: lines) = line ++ (crlf ++ joinLines next lines) := by
  rw [joinLines, joinLines, List.flatMap_cons, List.append_assoc]

/-- A head without its last line end. -/
lemma joinLines_append_crlf (line : Bytes) (lines : List Bytes) :
    joinLines line lines ++ crlf = headBytes line lines := by
  induction lines generalizing line with
  | nil => rw [joinLines, headBytes, lineBytes, List.flatMap_nil, List.flatMap_nil]; simp
  | cons next lines ih =>
    rw [joinLines_cons, List.append_assoc, List.append_assoc, ih, headBytes, headBytes,
      lineBytes_cons]
    simp only [List.append_assoc]

/-- The lines of a head are read one after the other. -/
lemma run_partHeadStep_joinLines {line : Bytes} {lines : List Bytes}
    (h : ∀ l ∈ line :: lines, LineText l ∧ l ≠ []) (part : MultipartPart) :
    Loop.run partHeadStep (fun v => v.2.length) partHeadStep_decreases
      (part, joinLines line lines) = (line :: lines).foldlM partHeadLine part := by
  induction lines generalizing line part with
  | nil =>
    obtain ⟨hline, hne⟩ := h line List.mem_cons_self
    have htext : joinLines line [] = line := List.append_nil line
    have hempty : ¬line.isEmpty = true := mt List.isEmpty_iff.mp hne
    have hfind : find crlf line = none := hline
    rw [htext, List.foldlM_cons]
    cases hread : partHeadLine part line with
    | error e =>
      refine Loop.run_of_leave _ ?_
      simp only [partHeadStep, if_neg hempty, hfind, Option.getD_none, List.take_length, hread]
      rfl
    | ok next =>
      refine Loop.run_of_leave _ ?_
      simp only [partHeadStep, if_neg hempty, hfind, Option.getD_none, List.take_length, hread]
      rfl
  | cons next lines ih =>
    obtain ⟨hline, hne⟩ := h line List.mem_cons_self
    have hempty : ¬(line ++ (crlf ++ joinLines next lines)).isEmpty = true := by
      rw [List.isEmpty_iff, List.append_eq_nil_iff]
      exact fun hnil => hne hnil.1
    have hfind := find_crlf_of_lineText hline (joinLines next lines)
    rw [joinLines_cons, List.foldlM_cons]
    cases hread : partHeadLine part line with
    | error e =>
      refine Loop.run_of_leave _ ?_
      simp only [partHeadStep, if_neg hempty, hfind, Option.getD_some, List.take_left, hread]
      rfl
    | ok read =>
      have hagain : partHeadStep (part, line ++ (crlf ++ joinLines next lines)) =
          .again (read, joinLines next lines) := by
        simp only [partHeadStep, if_neg hempty, hfind, Option.getD_some, List.take_left, hread,
          drop_line]
      rw [Loop.run_of_again partHeadStep_decreases hagain]
      exact ih (fun l hl => h l (List.mem_cons_of_mem _ hl)) read

/-- No token character is a blank. -/
lemma isSpace_of_tokenCharacter {ch : UInt8} (h : tokenCharacter ch = true) :
    isSpace ch = false := by
  simp only [tokenCharacter, Bool.and_eq_true, decide_eq_true_eq] at h
  obtain ⟨⟨hlow, -⟩, -⟩ := h
  simp only [isSpace, sp, Bool.or_eq_false_iff, beq_eq_false_iff_ne, Bool.and_eq_false_iff,
    decide_eq_false_iff_not, ne_eq]
  refine ⟨?_, .inr ?_⟩
  · rintro rfl
    exact absurd hlow (by decide)
  · rw [UInt8.not_le]
    exact UInt8.lt_trans (by decide) hlow

/-- There is nothing to trim at a name. -/
lemma trim_of_validHeaderName {name : Bytes} (h : validHeaderName name = true) :
    trim name = name := by
  have hspace : ∀ ch ∈ name, isSpace ch = false := by
    rw [validHeaderName, Bool.and_eq_true] at h
    exact fun ch hch => isSpace_of_tokenCharacter (List.all_eq_true.mp h.2 ch hch)
  exact trim_eq_self (fun ch hch => hspace ch (List.mem_of_mem_head? hch))
    fun ch hch => hspace ch (List.mem_of_getLast? hch)

/-- In field values, the only blanks are SP and HTAB. -/
lemma trim_of_validHeaderValue {value : Bytes} (h : validHeaderValue value = true) :
    trim value = trimOws value := by
  refine trimWith_congr fun ch hch => ?_
  have hch := List.all_eq_true.mp h ch hch
  have hall : ∀ c : UInt8, fieldValueCharacter c = true → isSpace c = isOws c := by decide +kernel
  exact hall ch hch

/-- A written field line, as the incremental parser reads it. -/
lemma partHeadLine_fieldLine {field : Bytes × Bytes} (hname : validHeaderName field.1 = true)
    (hlf : lf ∉ field.2) (part : MultipartPart) :
    partHeadLine part (fieldLine field) =
      if !validHeaderValue (trim field.2) then .error (multipartError "Invalid multipart header")
      else
        let part := { part with headers := part.headers.add field.1 (trim field.2) }
        let part := if iequals field.1 (bytes "Content-Type") then
          { part with contentType := trim field.2 } else part
        if iequals field.1 (bytes "Content-Disposition") then contentDisposition part (trim field.2)
        else .ok part := by
  have hcolon : colon ∉ field.1 := colon_not_mem_of_validHeaderName hname
  have hline : fieldLine field = field.1 ++ colon :: (sp :: field.2) := rfl
  have hlf' : lf ∉ fieldLine field := by
    rw [hline, List.mem_append, List.mem_cons, List.mem_cons]
    rintro (hmem | hmem | hmem | hmem)
    · exact not_mem_of_validHeaderName hname (by decide) hmem
    · cases hmem
    · cases hmem
    · exact hlf hmem
  have hfind : find [colon] (fieldLine field) = some field.1.length := by
    rw [hline]
    exact find_singleton_append hcolon
  have hdrop : (fieldLine field).drop (field.1.length + 1) = sp :: field.2 := by
    rw [hline, ← List.drop_drop, List.drop_left]
    rfl
  have htake : (fieldLine field).take field.1.length = field.1 := by
    rw [hline, List.take_left]
  have hvalue : trim (sp :: field.2) = trim field.2 := trimWith_cons_of_pos rfl field.2
  rw [partHeadLine, if_neg hlf']
  simp only [hfind, htake, hdrop, hvalue, trim_of_validHeaderName hname, hname, Bool.not_true,
    Bool.false_or]

/-- The fields that the writer writes for a part. -/
def partFields (part : MultipartPart) : Headers :=
  (bytes "Content-Disposition", formData part) ::
    ((if part.contentType.isEmpty then [] else [(bytes "Content-Type", part.contentType)]) ++
      part.headers.filter fun field => !isPartField field.1)

/-- What `validate_part_metadata` accepts.  The check is on the name, the file name and the fields
as they were given, before anything is escaped. -/
structure ValidMetadata (part : MultipartPart) : Prop extends WithoutLineEnds part where
  name : part.name ≠ []
  contentType : validHeaderValue part.contentType = true
  headers : ∀ field ∈ part.headers, validField field = true

/-- Metadata that is accepted is valid. -/
lemma validMetadata_of_validate {part : MultipartPart} (h : validatePartMetadata part = .ok ()) :
    ValidMetadata part := by
  unfold validatePartMetadata at h
  split_ifs at h with hname hfilename htype hheaders
  obtain ⟨hempty, hcr, hlf⟩ : part.name ≠ [] ∧ cr ∉ part.name ∧ lf ∉ part.name := by
    simpa only [not_or, List.isEmpty_iff] using hname
  obtain ⟨hcr', hlf'⟩ := not_or.mp hfilename
  refine ⟨⟨hcr, hlf, hcr', hlf'⟩, hempty, ?_, fun field hfield => ?_⟩
  · by_cases htext : part.contentType.isEmpty = true
    · rw [List.isEmpty_iff.mp htext]
      rfl
    · exact not_not.mp fun hvalid => htype ⟨htext, hvalid⟩
  · rw [validField]
    by_contra hvalid
    refine hheaders (List.any_eq_true.mpr ⟨field, hfield, ?_⟩)
    rw [← Bool.not_and, Bool.not_eq_true']
    exact Bool.eq_false_of_not_eq_true hvalid

/-- The custom fields of a head. -/
lemma flatMap_headers {headers : Headers} (h : ∀ field ∈ headers, validField field = true) :
    (headers.flatMap fun field =>
      if isPartField field.1 then []
      else if validHeaderName field.1 && validHeaderValue field.2 then
        field.1 ++ bytes ": " ++ field.2 ++ crlf
      else []) =
      lineBytes ((headers.filter fun field => !isPartField field.1).map fieldLine) := by
  induction headers with
  | nil => rfl
  | cons field headers ih =>
    have hfield : (validHeaderName field.1 && validHeaderValue field.2) = true :=
      h field List.mem_cons_self
    rw [List.flatMap_cons, ih fun f hf => h f (List.mem_cons_of_mem _ hf), List.filter_cons]
    by_cases hown : isPartField field.1 = true
    · simp only [hown, if_true, Bool.not_true, Bool.false_eq_true, if_false, List.nil_append]
    · rw [Bool.not_eq_true] at hown
      simp only [hown, Bool.false_eq_true, if_false, hfield, if_true, Bool.not_false, List.map_cons,
        lineBytes_cons, fieldLine, List.append_assoc]

/-- A written head is the lines of its fields, and a line end. -/
lemma serializePartHead_eq {part : MultipartPart}
    (h : ∀ field ∈ part.headers, validField field = true) :
    serializePartHead part = lineBytes ((partFields part).map fieldLine) ++ crlf := by
  have hname : bytes "Content-Disposition: form-data; name=\"" = bytes "Content-Disposition" ++
      bytes ": " ++ bytes "form-data; name=" ++ [quotationMark] := rfl
  have hfilename : bytes "; filename=\"" = bytes "; filename=" ++ [quotationMark] := rfl
  have htype : bytes "Content-Type: " = bytes "Content-Type" ++ bytes ": " := rfl
  have hmark : bytes "\"" = [quotationMark] := rfl
  rw [serializePartHead, flatMap_headers h, partFields, List.map_cons, lineBytes_cons,
    List.map_append, lineBytes_append, fieldLine, formData, hname, hfilename, htype, hmark, quoted,
    quoted]
  split_ifs <;>
    simp only [List.append_assoc, List.map_nil, lineBytes_nil, List.nil_append, List.map_cons,
      lineBytes_cons, fieldLine, List.cons_append, List.append_nil]

/-- Quoting adds no bytes but backslashes. -/
lemma validHeaderValue_quoteParameter {text : Bytes} (hcr : cr ∉ text) (hlf : lf ∉ text) :
    validHeaderValue (quoteParameter text) = validHeaderValue text := by
  induction text with
  | nil => rfl
  | cons ch rest ih =>
    obtain ⟨hcr', hcr⟩ := not_or.mp (mt List.mem_cons.mpr hcr)
    obtain ⟨hlf', hlf⟩ := not_or.mp (mt List.mem_cons.mpr hlf)
    have hslash : fieldValueCharacter backslash = true := rfl
    have ih := ih hcr hlf
    rw [validHeaderValue, validHeaderValue] at ih ⊢
    rw [quoteParameter, if_neg (by rintro (rfl | rfl) <;> contradiction)]
    split_ifs
    · rw [List.all_cons, List.all_cons, List.all_cons, ih, hslash, Bool.true_and]
    · rw [List.all_cons, List.all_cons, ih]

/-- The content disposition is a valid field value when the names are. -/
lemma validHeaderValue_formData {part : MultipartPart} (h : WithoutLineEnds part) :
    validHeaderValue (formData part) =
      (validHeaderValue part.name && validHeaderValue part.filename) := by
  have hform : (bytes "form-data; name=").all fieldValueCharacter = true := by decide +kernel
  have hfilename : (bytes "; filename=").all fieldValueCharacter = true := by decide +kernel
  have hmark : fieldValueCharacter quotationMark = true := rfl
  have hquoted : ∀ text : Bytes, cr ∉ text → lf ∉ text →
      (quoted text).all fieldValueCharacter = validHeaderValue text := by
    intro text hcr hlf
    rw [quoted, List.all_cons, List.all_append, List.all_cons, List.all_nil, hmark, Bool.true_and,
      Bool.and_true, Bool.and_true]
    exact validHeaderValue_quoteParameter hcr hlf
  rw [validHeaderValue, formData, List.all_append, List.all_append, hform, Bool.true_and,
    hquoted _ h.cr_name h.lf_name]
  split_ifs with hempty
  · rw [List.isEmpty_iff.mp hempty]
    rfl
  · rw [List.all_append, hfilename, Bool.true_and, hquoted _ h.cr_filename h.lf_filename]

/-- A part as the parser reads it, without its content. -/
def readBack (part : MultipartPart) : MultipartPart :=
  { name := part.name
    filename := part.filename
    contentType := trimOws part.contentType
    headers := (partFields part).map trimField }

/-- The line of a valid field. -/
lemma partHeadLine_of_validField {field : Bytes × Bytes} (h : validField field = true)
    (hdisposition : iequals field.1 (bytes "Content-Disposition") = false) (part : MultipartPart) :
    partHeadLine part (fieldLine field) =
      .ok { part with
        headers := part.headers ++ [trimField field]
        contentType := if iequals field.1 (bytes "Content-Type") then trimOws field.2
          else part.contentType } := by
  rw [validField, Bool.and_eq_true] at h
  have hlf : lf ∉ field.2 := not_mem_of_validHeaderValue h.2 (by decide)
  have htrimmed : validHeaderValue (trimOws field.2) = true :=
    List.all_eq_true.mpr fun c hc => List.all_eq_true.mp h.2 c (mem_of_mem_trimWith hc)
  rw [partHeadLine_fieldLine h.1 hlf, trim_of_validHeaderValue h.2]
  simp only [htrimmed, Bool.not_true, Bool.false_eq_true, if_false, hdisposition]
  split_ifs <;> rfl

/-- Custom fields are read back. -/
lemma foldlM_partHeadLine {fields : Headers}
    (h : ∀ field ∈ fields, validField field = true ∧ isPartField field.1 = false)
    (part : MultipartPart) :
    (fields.map fieldLine).foldlM partHeadLine part =
      .ok { part with headers := part.headers ++ fields.map trimField } := by
  induction fields generalizing part with
  | nil => rw [List.map_nil, List.map_nil, List.append_nil]; rfl
  | cons field fields ih =>
    obtain ⟨hvalid, hown⟩ := h field List.mem_cons_self
    rw [isPartField, Bool.or_eq_false_iff] at hown
    have hread := partHeadLine_of_validField hvalid hown.1 part
    simp only [hown.2, Bool.false_eq_true, if_false] at hread
    rw [List.map_cons, List.foldlM_cons, hread]
    refine (ih (fun f hf => h f (List.mem_cons_of_mem _ hf)) _).trans ?_
    rw [List.map_cons, List.append_assoc, List.singleton_append]

/-- The custom fields of a part are valid, and not those that the writer makes. -/
lemma custom_of_mem {part : MultipartPart} (h : ValidMetadata part) {field : Bytes × Bytes}
    (hfield : field ∈ part.headers.filter fun field => !isPartField field.1) :
    validField field = true ∧ isPartField field.1 = false := by
  obtain ⟨hmem, hown⟩ := List.mem_filter.mp hfield
  exact ⟨h.headers field hmem, by rwa [Bool.not_eq_true'] at hown⟩

/-- A head has one content disposition. -/
lemma getAll_partFields (part : MultipartPart) :
    ((partFields part).getAll (bytes "Content-Disposition")).length = 1 ∧
      ((partFields part).getAll (bytes "Content-Type")).length ≤ 1 := by
  have hnone : ∀ name, (name = bytes "Content-Disposition" ∨ name = bytes "Content-Type") →
      Headers.getAll (part.headers.filter fun field => !isPartField field.1) name = [] := by
    rintro name hname
    rw [Headers.getAll, List.filter_filter, List.filter_eq_nil_iff.mpr, List.map_nil]
    intro field _
    rcases hname with rfl | rfl <;>
    · rw [isPartField]
      cases iequals field.1 (bytes "Content-Disposition") <;>
        cases iequals field.1 (bytes "Content-Type") <;> decide
  rw [partFields, Headers.getAll_cons, Headers.getAll_cons, Headers.getAll_append,
    Headers.getAll_append, hnone _ (.inl rfl), hnone _ (.inr rfl)]
  simp only [iequals_refl, if_true, iequals_disposition_type, Bool.false_eq_true, if_false,
    List.append_nil]
  split_ifs
  · exact ⟨rfl, Nat.zero_le _⟩
  · simp only [Headers.getAll_singleton, iequals_type_disposition, Bool.false_eq_true, if_false,
      iequals_refl, if_true]
    exact ⟨rfl, Nat.le_refl _⟩

/-- Quoting adds no other bytes than backslashes. -/
lemma mem_quoteParameter {text : Bytes} {c : UInt8} (h : c ∈ quoteParameter text) :
    c = backslash ∨ c ∈ text := by
  induction text with
  | nil => exact .inr h
  | cons ch rest ih =>
    rw [quoteParameter] at h
    split_ifs at h
    · exact (ih h).imp_right (List.mem_cons_of_mem _)
    · rcases List.mem_cons.mp h with rfl | h
      · exact .inl rfl
      rcases List.mem_cons.mp h with rfl | h
      · exact .inr List.mem_cons_self
      · exact (ih h).imp_right (List.mem_cons_of_mem _)
    · rcases List.mem_cons.mp h with rfl | h
      · exact .inr List.mem_cons_self
      · exact (ih h).imp_right (List.mem_cons_of_mem _)

/-- A byte of a content disposition that is in neither name is a byte of its frame. -/
lemma not_mem_formData {part : MultipartPart} {c : UInt8} (hname : c ∉ part.name)
    (hfilename : c ∉ part.filename)
    (hframe : c ∉ bytes "form-data; name=; filename=\\\"") : c ∉ formData part := by
  have hquoted : ∀ text : Bytes, c ∉ text → c ∉ quoted text := by
    intro text htext hmem
    rw [quoted, List.mem_cons, List.mem_append, List.mem_singleton] at hmem
    rcases hmem with rfl | hmem | rfl
    · exact hframe (by decide)
    · rcases mem_quoteParameter hmem with rfl | hmem
      · exact hframe (by decide)
      · exact htext hmem
    · exact hframe (by decide)
  have hsub : ∀ text : Bytes, text ⊆ bytes "form-data; name=; filename=\\\"" → c ∉ text :=
    fun text htext hmem => hframe (htext hmem)
  rw [formData, List.mem_append, List.mem_append, not_or, not_or]
  refine ⟨⟨hsub _ (by decide), hquoted _ hname⟩, ?_⟩
  split_ifs
  · exact List.not_mem_nil
  · rw [List.mem_append, not_or]
    exact ⟨hsub _ (by decide), hquoted _ hfilename⟩

/-- The lines of a written head are lines. -/
lemma lineText_partFields {part : MultipartPart} (h : ValidMetadata part) :
    ∀ line ∈ (partFields part).map fieldLine, LineText line ∧ line ≠ [] := by
  intro line hline
  obtain ⟨field, hfield, rfl⟩ := List.mem_map.mp hline
  rw [partFields, List.mem_cons, List.mem_append] at hfield
  rcases hfield with rfl | hfield | hfield
  · -- the names need not consist of characters of field values
    refine ⟨lineText_of_not_mem ?_, by simp [fieldLine, bytes]⟩
    rw [fieldLine, List.mem_append, List.mem_append, not_or, not_or]
    have hname : cr ∉ bytes "Content-Disposition" := by decide
    exact ⟨hname, by decide, not_mem_formData h.cr_name h.cr_filename (by decide)⟩
  · split_ifs at hfield
    · cases hfield
    · rw [List.mem_singleton] at hfield
      rw [hfield]
      exact lineText_fieldLine (by rw [validField, h.contentType, validHeaderName_type]; rfl)
  · exact lineText_fieldLine (custom_of_mem h hfield).1

/-- There is nothing to trim at a content disposition. -/
lemma trim_formData (part : MultipartPart) : trim (formData part) = formData part := by
  refine trim_eq_self ?_ ?_
  · rintro ch ⟨⟩
    rfl
  · have hlast : (formData part).getLast? = some quotationMark := by
      rw [formData]
      split_ifs
      · rw [List.append_nil, getLast?_append_quoted]
      · rw [← List.append_assoc, getLast?_append_quoted]
    rw [hlast]
    rintro ch ⟨⟩
    rfl

/-- The line of the content disposition. -/
lemma partHeadLine_formData {part : MultipartPart} (h : WithoutLineEnds part) :
    partHeadLine {} (fieldLine (bytes "Content-Disposition", formData part)) =
      if validHeaderValue (formData part) then
        .ok { name := part.name, filename := part.filename
              headers := [trimField (bytes "Content-Disposition", formData part)] }
      else .error (multipartError "Invalid multipart header") := by
  have hname : validHeaderName (bytes "Content-Disposition") = true := by decide
  have hlf := not_mem_formData h.lf_name h.lf_filename (by decide)
  rw [@partHeadLine_fieldLine (bytes "Content-Disposition", formData part) hname hlf,
    trim_formData]
  by_cases hvalid : validHeaderValue (formData part) = true
  · have htrim : trimOws (formData part) = formData part := by
      rw [← trim_of_validHeaderValue hvalid, trim_formData]
    simp only [hvalid, Bool.not_true, Bool.false_eq_true, if_false, iequals_disposition_type,
      iequals_refl, if_true]
    refine (contentDisposition_formData h rfl).trans ?_
    simp only [trimField, htrim]
    rfl
  · rw [if_neg hvalid, if_pos (by rw [Bool.eq_false_of_not_eq_true hvalid]; rfl)]

/-- The fields of a written head are read back. -/
lemma foldlM_partFields {part : MultipartPart} (h : ValidMetadata part) :
    ((partFields part).map fieldLine).foldlM partHeadLine {} =
      if validHeaderValue (formData part) then .ok (readBack part)
      else .error (multipartError "Invalid multipart header") := by
  rw [partFields, List.map_cons, List.foldlM_cons, partHeadLine_formData h.toWithoutLineEnds]
  by_cases hvalid : validHeaderValue (formData part) = true
  · have hcustom := fun part' => @foldlM_partHeadLine _ (fun _ => custom_of_mem h) part'
    rw [if_pos hvalid, if_pos hvalid]
    by_cases hempty : part.contentType.isEmpty = true
    · rw [if_pos hempty, List.nil_append]
      refine (hcustom _).trans ?_
      rw [readBack, partFields, if_pos hempty, List.isEmpty_iff.mp hempty]
      rfl
    · have hfield : validField (bytes "Content-Type", part.contentType) = true := by
        rw [validField, validHeaderName_type, h.contentType]
        rfl
      have htype := fun part' =>
        partHeadLine_of_validField hfield iequals_type_disposition part'
      simp only [iequals_refl, if_true] at htype
      rw [if_neg hempty, List.singleton_append, List.map_cons]
      simp only [bind, Except.bind, List.foldlM_cons, htype]
      refine (hcustom _).trans ?_
      rw [readBack, partFields, if_neg hempty]
      rfl
  · rw [if_neg hvalid, if_neg hvalid]
    rfl

/-- A written head is read back when its names consist of characters of field values, and only
then. -/
theorem parsePartHead_written {part : MultipartPart} (h : ValidMetadata part) {line : Bytes}
    {lines : List Bytes} (hlines : (partFields part).map fieldLine = line :: lines) :
    parsePartHead (joinLines line lines) =
      if validHeaderValue (formData part) then .ok (readBack part)
      else .error (multipartError "Invalid multipart header") := by
  have htext : ∀ l ∈ line :: lines, LineText l ∧ l ≠ [] := hlines ▸ lineText_partFields h
  rw [parsePartHead, run_partHeadStep_joinLines htext, ← hlines, foldlM_partFields h]
  by_cases hvalid : validHeaderValue (formData part) = true
  · obtain ⟨hdisposition, htype⟩ := getAll_partFields part
    rw [if_pos hvalid]
    simp only [readBack, getAll_map_trimField, List.length_map]
    rw [if_neg (not_not.mpr hdisposition), if_neg (Nat.not_lt.mpr htype)]
  · rw [if_neg hvalid]

/-- The lines of a head, and what is behind it. -/
lemma partHead_lineBytes (options : MultipartParserOptions) {line : Bytes} {lines : List Bytes}
    (h : ∀ l ∈ line :: lines, LineText l ∧ l ≠ []) (rest : Bytes) :
    partHead options (lineBytes (line :: lines) ++ (crlf ++ rest)) =
      if options.maxHeaderSize < (joinLines line lines).length then none
      else
        match parsePartHead (joinLines line lines) with
        | .error _ => none
        | .ok part => some (part, rest) := by
  have hjoin := joinLines_append_crlf line lines
  have hlines : lineBytes (line :: lines) = headBytes line lines := by
    rw [lineBytes_cons, headBytes, List.append_assoc]
  have hfind : find crlfCrlf (headBytes line lines ++ (crlf ++ rest)) =
      some (joinLines line lines).length := by
    rw [find_headBytes (h line List.mem_cons_self).1
      (fun l hl => (h l (List.mem_cons_of_mem _ hl)).1)
      (fun l hl => (h l (List.mem_cons_of_mem _ hl)).2), ← hjoin, List.length_append, crlf_length,
      Nat.add_sub_cancel]
  have hwhole : headBytes line lines ++ (crlf ++ rest) =
      joinLines line lines ++ (crlfCrlf ++ rest) := by
    rw [← hjoin, List.append_assoc]
    rfl
  rw [hlines, partHead, hfind, Option.bind_some, hwhole, List.take_left, ← List.drop_drop,
    List.drop_left]
  rfl

/-- The head of a written part.  The parser reads it back, unless a name has bytes that are no field
value: these the writer lets through and the parser refuses. -/
theorem partHead_serializePartHead {options : MultipartParserOptions} {part : MultipartPart}
    (h : ValidMetadata part) (hlimit : (serializePartHead part).length ≤ options.maxHeaderSize + 4)
    (rest : Bytes) :
    partHead options (serializePartHead part ++ rest) =
      if validHeaderValue (formData part) then some (readBack part, rest) else none := by
  obtain ⟨line, lines, hlines⟩ : ∃ line lines, (partFields part).map fieldLine = line :: lines :=
    ⟨_, _, List.map_cons⟩
  have htext : ∀ l ∈ line :: lines, LineText l ∧ l ≠ [] := hlines ▸ lineText_partFields h
  have hhead : serializePartHead part = lineBytes (line :: lines) ++ crlf := by
    rw [serializePartHead_eq h.headers, hlines]
  have hlength : (serializePartHead part).length = (joinLines line lines).length + 4 := by
    rw [hhead, lineBytes_cons, ← List.append_assoc line, ← headBytes, ← joinLines_append_crlf,
      List.length_append, List.length_append, crlf_length]
  rw [hhead, List.append_assoc, partHead_lineBytes options htext, if_neg (by omega),
    parsePartHead_written h hlines]
  split_ifs <;> rfl

end Multipart

end Chhttp
