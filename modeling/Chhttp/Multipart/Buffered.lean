import Chhttp.Multipart.Fragments

/-!
# The buffered multipart parser

`parse_multipart` of `common.cpp`, which the server uses for buffered bodies.  It searches the body
for the marker `--boundary` wherever it stands, where the incremental parser looks for delimiters:
markers at the start of a line with a valid ending.

Whenever the incremental parser accepts a body whose first marker is a delimiter, the buffered one
returns the same parts exactly when behind every head the first marker at the start of a line is a
delimiter, too (`parseMultipart_eq_parts`).
-/

namespace Chhttp.Multipart

open ListSearch MultipartParser

/-! ### The source -/

/-- `split_header_parameters`, the text of which is that of `split_parameters`. -/
def splitHeaderParameters (value : Bytes) : List Bytes := splitParameters value

/-- `decode_header_parameter`, the text of which is that of `decode_parameter`. -/
def decodeHeaderParameter (value : Bytes) : Result Bytes := decodeParameter value

/-- `valid_multipart_boundary`, the text of which is that of `valid_boundary`. -/
def validMultipartBoundary (boundary : Bytes) : Bool := validBoundary boundary

/-- A parameter of a content disposition. -/
def formParameter (part : MultipartPart) (token : Bytes) : Result MultipartPart :=
  match splitAssignment token with
  | none => .ok part
  | some (key, value) =>
    match decodeHeaderParameter value with
    | .error e => .error e
    | .ok val =>
      let part := if iequals key (bytes "name") then { part with name := val } else part
      .ok (if iequals key (bytes "filename") then { part with filename := val } else part)

/-- A line of the head of a part. -/
def formHeaderLine (part : MultipartPart) (line : Bytes) : Result MultipartPart :=
  match find [colon] line with
  | none => .error (multipartError "Malformed multipart header")
  | some colonAt =>
    let name := trim (line.take colonAt)
    let value := trim (line.drop (colonAt + 1))
    if !validHeaderName name || !validHeaderValue value then
      .error (multipartError "Invalid multipart header")
    else
      let part := { part with headers := part.headers.add name value }
      let part :=
        if iequals name (bytes "Content-Type") then { part with contentType := value } else part
      if iequals name (bytes "Content-Disposition") then
        (splitHeaderParameters value).tail.foldlM formParameter part
      else .ok part

/-- One iteration of the loop over the lines of a head: the body from `line_start` on, and how far
`header_end` is from there. -/
def formHeaderStep :
    MultipartPart × Bytes × ℕ → Loop.Next (MultipartPart × Bytes × ℕ) (Result MultipartPart)
  | (part, input, headerEnd) =>
    if headerEnd = 0 then .leave (.ok part)
    else
      let lineEnd := find crlf input
      match formHeaderLine part (input.take (min (lineEnd.getD headerEnd) headerEnd)) with
      | .error e => .leave (.error e)
      | .ok part =>
        match lineEnd with
        | none => .leave (.ok part)
        | some lineEnd =>
          if headerEnd ≤ lineEnd then .leave (.ok part)
          else .again (part, input.drop (lineEnd + 2), headerEnd - (lineEnd + 2))

/-- Every iteration goes on. -/
lemma formHeaderStep_decreases : Loop.Decreases formHeaderStep fun v => v.2.2 := by
  rintro ⟨part, input, headerEnd⟩ ⟨part', input', headerEnd'⟩ h
  unfold formHeaderStep at h
  dsimp only at h ⊢
  by_cases hzero : headerEnd = 0
  · rw [if_pos hzero] at h
    cases h
  rw [if_neg hzero] at h
  split at h
  · cases h
  · split at h
    · cases h
    · split_ifs at h
      cases h
      omega

/-- The head of a part, which ends at `headerEnd`. -/
def formHeaders (input : Bytes) (headerEnd : ℕ) : Result MultipartPart :=
  Loop.run formHeaderStep (fun v => v.2.2) formHeaderStep_decreases ({}, input, headerEnd)

/-- One iteration of the loop of `parse_multipart`: the parts, and the body from `cursor` on. -/
def formStep (marker : Bytes) (maxParts : ℕ) : List MultipartPart × Bytes →
    Loop.Next (List MultipartPart × Bytes) (Result (List MultipartPart))
  | (parts, body) =>
    match find marker body with
    | none => .leave (.error (multipartError "Multipart body has no closing delimiter"))
    | some begin =>
      let rest := body.drop (begin + marker.length)
      if rest.take 2 = dashes then .leave (.ok parts)
      else if rest.take 2 ≠ crlf then
        .leave (.error (multipartError "Malformed multipart delimiter"))
      else
        let head := rest.drop 2
        match find crlfCrlf head with
        | none => .leave (.error (multipartError "Incomplete multipart headers"))
        | some headerEnd =>
          match formHeaders head headerEnd with
          | .error e => .leave (.error e)
          | .ok part =>
            let content := head.drop (headerEnd + 4)
            match find (crlf ++ marker) content with
            | none => .leave (.error (multipartError "Incomplete multipart body"))
            | some next =>
              let parts := parts ++ [{ part with content := content.take next }]
              if maxParts < parts.length then
                .leave (.error (multipartError "Too many multipart parts"))
              else .again (parts, content.drop (next + 2))

/-- An iteration behind which there is another one reads a part.  It finds the marker, the end of
the head and the next marker, in this order. -/
lemma formStep_again {marker : Bytes} {maxParts : ℕ} {parts parts' : List MultipartPart}
    {body body' : Bytes} (h : formStep marker maxParts (parts, body) = .again (parts', body')) :
    ∃ begin headerEnd next, find marker body = some begin ∧
      (body.drop (begin + marker.length)).take 2 = crlf ∧
      find crlfCrlf ((body.drop (begin + marker.length)).drop 2) = some headerEnd ∧
      find (crlf ++ marker)
        (((body.drop (begin + marker.length)).drop 2).drop (headerEnd + 4)) = some next ∧
      body' = (((body.drop (begin + marker.length)).drop 2).drop (headerEnd + 4)).drop
        (next + 2) := by
  unfold formStep at h
  dsimp only at h
  split at h
  · cases h
  rename_i begin hbegin
  by_cases hdashes : (body.drop (begin + marker.length)).take 2 = dashes
  · rw [if_pos hdashes] at h
    cases h
  rw [if_neg hdashes] at h
  by_cases hcrlf : (body.drop (begin + marker.length)).take 2 ≠ crlf
  · rw [if_pos hcrlf] at h
    cases h
  rw [if_neg hcrlf] at h
  split at h
  · cases h
  rename_i headerEnd hheader
  split at h
  · cases h
  split at h
  · cases h
  rename_i next hnext
  split_ifs at h
  cases h
  exact ⟨begin, headerEnd, next, hbegin, not_not.mp hcrlf, hheader, hnext, rfl⟩

/-- The last iteration, if it succeeds, is at the closing delimiter. -/
lemma formStep_leave {marker : Bytes} {maxParts : ℕ} {parts parts' : List MultipartPart}
    {body : Bytes} (h : formStep marker maxParts (parts, body) = .leave (.ok parts')) :
    ∃ begin, find marker body = some begin ∧
      (body.drop (begin + marker.length)).take 2 = dashes := by
  unfold formStep at h
  dsimp only at h
  split at h
  · cases h
  rename_i begin hbegin
  by_cases hdashes : (body.drop (begin + marker.length)).take 2 = dashes
  · exact ⟨begin, hbegin, hdashes⟩
  rw [if_neg hdashes] at h
  by_cases hcrlf : (body.drop (begin + marker.length)).take 2 ≠ crlf
  · rw [if_pos hcrlf] at h
    cases h
  rw [if_neg hcrlf] at h
  split at h
  · cases h
  split at h
  · cases h
  split at h
  · cases h
  split_ifs at h
  cases h

/-- Every iteration consumes a part. -/
lemma formStep_decreases (marker : Bytes) (maxParts : ℕ) :
    Loop.Decreases (formStep marker maxParts) fun v => v.2.length := by
  rintro ⟨parts, body⟩ ⟨parts', body'⟩ h
  obtain ⟨begin, headerEnd, next, -, -, hheader, -, rfl⟩ := formStep_again h
  have hfit := find_add_length_le hheader
  have hlength : crlfCrlf.length = 4 := rfl
  simp only [List.length_drop] at hfit ⊢
  omega

/-- The loop of `parse_multipart`. -/
def formParts (marker : Bytes) (maxParts : ℕ) (parts : List MultipartPart) (body : Bytes) :
    Result (List MultipartPart) :=
  Loop.run (formStep marker maxParts) (fun v => v.2.length) (formStep_decreases marker maxParts)
    (parts, body)

/-- `parse_multipart`: the whole body is searched for markers, without the states of the streaming
parser. -/
def parseMultipart (body contentType : Bytes) (maxParts : ℕ) : Result (List MultipartPart) :=
  match splitHeaderParameters contentType with
  | [] => .error (multipartError "Content-Type is not multipart/form-data")
  | first :: parameters =>
    if !iequals first (bytes "multipart/form-data") then
      .error (multipartError "Content-Type is not multipart/form-data")
    else
      match boundaryParameter parameters with
      | none => .error (multipartError "Missing multipart boundary")
      | some value =>
        match decodeHeaderParameter value with
        | .error e => .error e
        | .ok boundary =>
          if boundary.isEmpty then .error (multipartError "Missing multipart boundary")
          else if !validMultipartBoundary boundary then
            .error (multipartError "Invalid multipart boundary")
          else formParts (dashes ++ boundary) maxParts [] body

/-! ### Heads -/

/-- The parameters of a content disposition have the same effect in both parsers. -/
lemma formParameter_eq : formParameter = dispositionParameter := rfl

/-- A line that the incremental parser accepts has the same effect in the buffered one. -/
lemma formHeaderLine_of_partHeadLine {part part' : MultipartPart} {line : Bytes}
    (h : partHeadLine part line = .ok part') : formHeaderLine part line = .ok part' := by
  unfold partHeadLine at h
  unfold formHeaderLine
  by_cases hlf : lf ∈ line
  · rw [if_pos hlf] at h
    cases h
  rw [if_neg hlf] at h
  cases hcolon : find [colon] line with
  | none =>
    rw [hcolon] at h
    cases h
  | some colonAt =>
    simp only [hcolon] at h ⊢
    by_cases hvalid : (!validHeaderName (trim (line.take colonAt)) ||
        !validHeaderValue (trim (line.drop (colonAt + 1)))) = true
    · rw [if_pos hvalid] at h
      cases h
    rw [if_neg hvalid] at h ⊢
    by_cases hdisposition :
        iequals (trim (line.take colonAt)) (bytes "Content-Disposition") = true
    · rw [if_pos hdisposition] at h ⊢
      unfold contentDisposition at h
      rw [splitHeaderParameters]
      cases hsplit : splitParameters (trim (line.drop (colonAt + 1))) with
      | nil =>
        rw [hsplit] at h
        cases h
      | cons first parameters =>
        simp only [hsplit] at h
        by_cases hform : (!iequals first (bytes "form-data")) = true
        · rw [if_pos hform] at h
          cases h
        · rw [if_neg hform] at h
          rw [List.tail_cons, formParameter_eq]
          exact h
    · rw [if_neg hdisposition] at h ⊢
      exact h

/-- The first line end of a body in whose head there is none is the end of the head. -/
lemma find_crlf_of_take {w : Bytes} {n : ℕ} (hend : crlf <+: w.drop n)
    (h : find crlf (w.take n) = none) : find crlf w = some n := by
  have hcrlf : crlf.length = 2 := rfl
  have hn : n + 2 ≤ w.length := by
    have := hend.length_le
    rw [List.length_drop] at this
    omega
  refine (find_eq_some_iff).mpr ⟨by omega, hend, fun m hm hpre => ?_⟩
  by_cases hfit : m + 2 ≤ n
  · -- a line end inside the head
    refine (find_eq_none_iff).mp h m (by rw [List.length_take]; omega) ?_
    rw [← List.take_append_drop n w] at hpre
    exact prefix_drop_of_append (by rw [List.length_take]; exact le_min hfit (by omega)) hpre
  · -- the head does not end with a CR that the end of the head continues
    obtain rfl : n = m + 1 := by omega
    obtain ⟨t, ht⟩ := hpre
    rw [← List.drop_drop, ← ht] at hend
    obtain ⟨t', ht'⟩ := hend
    cases ht'

/-- The lines of a head that the incremental parser accepts have the same effect in the buffered
one. -/
lemma run_formHeaderStep {w : Bytes} {n : ℕ} {part part' : MultipartPart} (hn : n ≤ w.length)
    (hend : crlf <+: w.drop n)
    (h : Loop.run partHeadStep (fun v => v.2.length) partHeadStep_decreases (part, w.take n) =
      .ok part') :
    Loop.run formHeaderStep (fun v => v.2.2) formHeaderStep_decreases (part, w, n) = .ok part' := by
  refine Loop.run_induct partHeadStep_decreases
    (P := fun v r => ∀ (w : Bytes) (n : ℕ), n ≤ w.length → crlf <+: w.drop n → v.2 = w.take n →
      r = .ok part' → Loop.run formHeaderStep (fun v => v.2.2) formHeaderStep_decreases
        (v.1, w, n) = .ok part') ?_ ?_ (part, w.take n) w n hn hend rfl h
  · -- the last line
    rintro ⟨part, input⟩ r hstep w n hn hend rfl rfl
    refine Loop.run_of_leave formHeaderStep_decreases ?_
    rcases partHeadStep_leave hstep with ⟨hempty, rfl⟩ | ⟨hne, hfind, hline⟩
    · have hzero : n = 0 := by
        have hlength := congrArg List.length hempty
        rw [List.length_take, List.length_nil] at hlength
        omega
      exact if_pos hzero
    · have hpos : n ≠ 0 := by
        rintro rfl
        exact hne rfl
      simp only [formHeaderStep, if_neg hpos, find_crlf_of_take hend hfind, Option.getD_some,
        Nat.min_self, formHeaderLine_of_partHeadLine hline, if_pos (Nat.le_refl n)]
  · -- a line before others
    rintro ⟨part, input⟩ ⟨q, input'⟩ r hstep ih w n hn hend rfl hr
    obtain ⟨hne, k, hfind, hline, rfl⟩ := partHeadStep_again hstep
    have hpos : n ≠ 0 := by
      rintro rfl
      exact hne rfl
    have hk : k + 2 ≤ n := by
      have hfit := find_add_length_le hfind
      have hcrlf : crlf.length = 2 := rfl
      rw [List.length_take] at hfit
      omega
    have hfindw : find crlf w = some k := by
      rw [← List.take_append_drop n w]
      exact find_append_of_some hfind _
    rw [List.take_take] at hline
    have hagain : formHeaderStep (part, w, n) = .again (q, w.drop (k + 2), n - (k + 2)) := by
      simp only [formHeaderStep, if_neg hpos, hfindw, Option.getD_some,
        formHeaderLine_of_partHeadLine hline]
      rw [if_neg (by omega)]
    refine (Loop.run_of_again formHeaderStep_decreases hagain).trans ?_
    refine ih _ _ (by rw [List.length_drop]; omega) ?_ ?_ hr
    · rwa [List.drop_drop, Nat.add_sub_cancel' hk]
    · exact List.drop_take

/-- A head that the incremental parser accepts is read alike by the buffered one. -/
lemma formHeaders_of_parsePartHead {w : Bytes} {n : ℕ} {part : MultipartPart} (hn : n ≤ w.length)
    (hend : crlfCrlf <+: w.drop n) (h : parsePartHead (w.take n) = .ok part) :
    formHeaders w n = .ok part := by
  have hcrlf : crlf <+: w.drop n := (List.prefix_append crlf crlf).trans hend
  refine run_formHeaderStep hn hcrlf ?_
  unfold parsePartHead at h
  split at h
  · cases h
  · rename_i q hq
    split_ifs at h
    cases h
    exact hq

/-! ### The parts of a form -/

/-- The parts that events deliver, where `current` is the part that is being delivered.  The content
of a part is the concatenation of its pieces; a part without an end is dropped. -/
def collectParts : Option MultipartPart → List MultipartEvent → List MultipartPart
  | _, [] => []
  | current, e :: events =>
    match e.type with
    | .partBegin => collectParts (some { e.part with content := [] }) events
    | .partData =>
      collectParts (current.map fun part => { part with content := part.content ++ e.data }) events
    | .partEnd => current.toList ++ collectParts none events

/-- An event that is joined with the one behind it. -/
lemma collectParts_consEvent (current : Option MultipartPart) (e : MultipartEvent)
    (events : List MultipartEvent) :
    collectParts current (consEvent e events) = collectParts current (e :: events) := by
  cases events with
  | nil => rfl
  | cons f events =>
    rw [consEvent]
    split_ifs with h
    · obtain ⟨he, hf, -⟩ := h
      simp only [collectParts, he, hf, Option.map_map]
      congr 1
      cases current with
      | none => rfl
      | some part => simp
    · rfl

/-- The pieces in which content is delivered do not matter. -/
lemma collectParts_joinData (current : Option MultipartPart) (events : List MultipartEvent) :
    collectParts current (joinData events) = collectParts current events := by
  induction events generalizing current with
  | nil => rfl
  | cons e events ih =>
    have hcons : joinData (e :: events) = consEvent e (joinData events) := rfl
    rw [hcons, collectParts_consEvent, collectParts, collectParts]
    cases e.type <;> simp only [ih]

/-- The events of a part. -/
lemma collectParts_part (part : MultipartPart) (partIndex : ℕ) (content : Bytes)
    (events : List MultipartEvent) :
    collectParts none ({ type := .partBegin, partIndex, part } ::
        (dataEvents partIndex content ++ { type := .partEnd, partIndex, part } :: events)) =
      { part with content := content } :: collectParts none events := by
  rw [dataEvents]
  split_ifs with hempty
  · rw [List.isEmpty_iff.mp hempty]
    rfl
  · rfl

/-- Behind a delimiter come two dashes; or a head, behind which the first marker at the start of a
line is a delimiter again. -/
inductive Unmistakable (delimiter : Bytes) : Bytes → Prop
  | close {w : Bytes} (hdashes : dashes <+: w) : Unmistakable delimiter w
  | part {w : Bytes} {headEnd n : ℕ} (hcrlf : crlf <+: w)
      (hhead : find crlfCrlf (w.drop 2) = some headEnd)
      (hcontent : find delimiter ((w.drop 2).drop (headEnd + 4)) = some n)
      (hrest : Unmistakable delimiter
        (((w.drop 2).drop (headEnd + 4)).drop (n + delimiter.length))) :
      Unmistakable delimiter w

/-- What stands behind a delimiter begins with a valid ending. -/
lemma validEnding_of_unmistakable {delimiter w : Bytes} (h : Unmistakable delimiter w) :
    validEnding (w.take 2) = true := by
  cases h with
  | close hdashes =>
    obtain ⟨t, rfl⟩ := hdashes
    rfl
  | part hcrlf =>
    obtain ⟨t, rfl⟩ := hcrlf
    rfl

/-- A marker is found where it is. -/
lemma find_append_self (marker w : Bytes) : find marker (marker ++ w) = some 0 :=
  (find_eq_some_iff).mpr
    ⟨Nat.zero_le _, List.prefix_append _ _, fun m hm => absurd hm (Nat.not_lt_zero m)⟩

/-- The marker of a delimiter, and what is behind it. -/
lemma drop_of_find {marker content : Bytes} {n : ℕ} (h : find (crlf ++ marker) content = some n) :
    content.drop (n + 2) = marker ++ content.drop (n + (crlf ++ marker).length) := by
  obtain ⟨-, ⟨t, ht⟩, -⟩ := (find_eq_some_iff).mp h
  rw [← List.drop_drop, ← List.drop_drop, ← ht, List.drop_left, List.append_assoc]
  rfl

/-- The first marker of a body and what stands behind it decide about the first iteration. -/
lemma formParts_of_find {marker body : Bytes} {n : ℕ} (hfind : find marker body = some n)
    (maxParts : ℕ) (parts : List MultipartPart) :
    formParts marker maxParts parts body =
      formParts marker maxParts parts (marker ++ body.drop (n + marker.length)) := by
  have hstep : formStep marker maxParts (parts, body) =
      formStep marker maxParts (parts, marker ++ body.drop (n + marker.length)) := by
    simp only [formStep, hfind, find_append_self, Nat.zero_add, List.drop_left]
  rw [formParts, formParts, Loop.run_eq, Loop.run_eq (s := (parts, marker ++ _)), hstep]

/-- From a delimiter on, the buffered parser reads the parts of a form.  Where no content holds
anything that looks like a delimiter, the two searches meet the same places. -/
lemma formParts_of_unmistakable {options : MultipartParserOptions} {marker w : Bytes}
    (h : Unmistakable (crlf ++ marker) w) {partIndex total maxParts : ℕ}
    {events : List MultipartEvent}
    (hform : form options (crlf ++ marker) partIndex total w = some events)
    {parts : List MultipartPart}
    (hlimit : parts.length + (collectParts none events).length ≤ maxParts) :
    formParts marker maxParts parts (marker ++ w) = .ok (parts ++ collectParts none events) := by
  induction h generalizing partIndex total events parts with
  | @close w hdashes =>
    rw [form_eq, if_pos (List.isPrefixOf_iff_prefix.mpr hdashes)] at hform
    cases hform
    have htake : w.take 2 = dashes := (List.prefix_iff_eq_take.mp hdashes).symm
    refine (Loop.run_of_leave (formStep_decreases marker maxParts) ?_).trans
      (congrArg Except.ok (List.append_nil parts).symm)
    simp only [formStep, find_append_self, Nat.zero_add, List.drop_left, if_pos htake]
  | @part w headEnd n hcrlf hhead hcontent hrest ih =>
    have htake : w.take 2 = crlf := (List.prefix_iff_eq_take.mp hcrlf).symm
    rcases form_eq_some options _ hform with ⟨hdashes, -⟩ | ⟨r, part, body, content, rest, events',
      rfl, hpart, hcut, hform', rfl⟩
    · have hboth := List.prefix_iff_eq_take.mp hdashes
      rw [show dashes.length = 2 from rfl, htake] at hboth
      cases hboth
    have hdrop : (crlf ++ r).drop 2 = r := rfl
    rw [hdrop] at hhead hcontent hrest ih
    obtain ⟨headEnd', hhead', hparse, hbody⟩ := partHead_eq_some options hpart
    rw [hhead, Option.some.injEq] at hhead'
    subst hhead'
    rw [← hbody] at hcontent hrest ih
    obtain ⟨hheadEnd, hend, -⟩ := (find_eq_some_iff).mp hhead
    -- the first candidate behind the head is a delimiter, and so it ends the content
    obtain ⟨hn, hoccurs, hfirst⟩ := (find_eq_some_iff).mp hcontent
    have hdelimits : delimits (crlf ++ marker) (body.drop n) = true := by
      rw [delimits, Bool.and_eq_true, List.isPrefixOf_iff_prefix, List.drop_drop]
      exact ⟨hoccurs, validEnding_of_unmistakable hrest⟩
    have hbefore : ∀ m < n, delimits (crlf ++ marker) (body.drop m) = false := by
      intro m hm
      rw [delimits, Bool.and_eq_false_iff]
      left
      rw [← Bool.not_eq_true, List.isPrefixOf_iff_prefix]
      exact hfirst m hm
    rw [untilDelimiter_of_first hbefore hdelimits] at hcut
    cases hcut
    rw [collectParts_part, List.length_cons] at hlimit
    rw [collectParts_part]
    have hagain : formStep marker maxParts (parts, marker ++ (crlf ++ r)) =
        .again (parts ++ [{ part with content := body.take n }],
          marker ++ body.drop (n + (crlf ++ marker).length)) := by
      have hread := formHeaders_of_parsePartHead hheadEnd hend hparse
      have hcount : ¬ maxParts <
          (parts ++ [{ part with content := body.take n }]).length := by
        rw [List.length_append, List.length_singleton]
        omega
      simp only [formStep, find_append_self, Nat.zero_add, List.drop_left, htake, hdrop, hhead,
        hread, ← hbody, hcontent, if_neg hcount, drop_of_find hcontent]
      rw [if_neg (by decide : ¬ crlf = dashes), if_neg (not_not.mpr rfl)]
    rw [formParts, Loop.run_of_again _ hagain]
    have hih := @ih _ _ _ hform' (parts ++ [{ part with content := body.take n }])
      (by rw [List.length_append, List.length_singleton]; omega)
    rw [formParts] at hih
    rw [hih, List.append_assoc, List.singleton_append]

/-- What the buffered parser reads from a delimiter on is unmistakable. -/
lemma unmistakable_of_formParts {marker w : Bytes} {maxParts : ℕ}
    {parts parts' : List MultipartPart}
    (h : formParts marker maxParts parts (marker ++ w) = .ok parts') :
    Unmistakable (crlf ++ marker) w := by
  refine Loop.run_induct (formStep_decreases marker maxParts)
    (P := fun v r => ∀ w, v.2 = marker ++ w → r = .ok parts' → Unmistakable (crlf ++ marker) w)
    ?_ ?_ (parts, marker ++ w) w rfl h
  · rintro ⟨parts, body⟩ r hstep w rfl rfl
    obtain ⟨begin, hbegin, hdashes⟩ := formStep_leave hstep
    rw [find_append_self, Option.some.injEq] at hbegin
    rw [← hbegin, Nat.zero_add, List.drop_left] at hdashes
    exact .close (List.prefix_iff_eq_take.mpr hdashes.symm)
  · rintro ⟨parts, body⟩ ⟨parts'', body'⟩ r hstep ih w rfl hr
    obtain ⟨begin, headEnd, n, hbegin, hcrlf, hhead, hcontent, rfl⟩ := formStep_again hstep
    rw [find_append_self, Option.some.injEq] at hbegin
    subst hbegin
    rw [Nat.zero_add, List.drop_left] at hcrlf hhead hcontent
    refine .part (List.prefix_iff_eq_take.mpr hcrlf.symm) hhead hcontent (ih _ ?_ hr)
    rw [Nat.zero_add, List.drop_left]
    exact drop_of_find hcontent

/-! ### Whole bodies -/

/-- The first marker of a body starts a line and has a valid ending. -/
def StartsWithDelimiter (marker body : Bytes) : Prop :=
  ∃ n, find marker body = some n ∧ LineStart body n ∧
    validEnding ((body.drop (n + marker.length)).take 2) = true

/-- The first marker of a body starts a line, and what stands behind it is unmistakable.  These are
the bodies on which the two parsers find the same delimiters. -/
def Readable (contentType body : Bytes) : Prop :=
  ∃ boundary n, multipartBoundary contentType = .ok boundary ∧
    find (dashes ++ boundary) body = some n ∧ LineStart body n ∧
    Unmistakable (crlf ++ (dashes ++ boundary)) (body.drop (n + (dashes ++ boundary).length))

/-- Some marker stands before the first delimiter.  The streaming parser skips such text as a
preamble, and the buffered one begins at it. -/
def StrayMarker (contentType body : Bytes) : Prop :=
  ∃ boundary n, multipartBoundary contentType = .ok boundary ∧
    find (dashes ++ boundary) body = some n ∧ ¬StartsWithDelimiter (dashes ++ boundary) body

/-- The boundary that the buffered parser uses. -/
lemma parseMultipart_of_boundary {contentType boundary : Bytes}
    (h : multipartBoundary contentType = .ok boundary) (body : Bytes) (maxParts : ℕ) :
    parseMultipart body contentType maxParts = formParts (dashes ++ boundary) maxParts [] body := by
  unfold multipartBoundary at h
  unfold parseMultipart
  rw [splitHeaderParameters]
  cases hsplit : splitParameters contentType with
  | nil =>
    rw [hsplit] at h
    cases h
  | cons first parameters =>
    simp only [hsplit] at h ⊢
    by_cases hform : (!iequals first (bytes "multipart/form-data")) = true
    · rw [if_pos hform] at h
      cases h
    rw [if_neg hform] at h ⊢
    cases hparameter : boundaryParameter parameters with
    | none =>
      rw [hparameter] at h
      cases h
    | some value =>
      simp only [hparameter, decodeHeaderParameter] at h ⊢
      cases hdecode : decodeParameter value with
      | error e =>
        rw [hdecode] at h
        cases h
      | ok decoded =>
        simp only [hdecode] at h ⊢
        by_cases hvalid : (!validBoundary decoded) = true
        · rw [if_pos hvalid] at h
          cases h
        rw [if_neg hvalid] at h
        cases h
        have hne : ¬ boundary.isEmpty = true := by
          intro hempty
          rw [validBoundary, hempty] at hvalid
          exact hvalid rfl
        rw [if_neg hne]
        exact if_neg hvalid

/-- What the incremental parser accepts is a form behind its first delimiter. -/
lemma exists_form {contentType : Bytes} {options : MultipartParserOptions} {chunks : List Bytes}
    {events : List MultipartEvent} (h : (create contentType options).parse chunks = .ok events) :
    ∃ boundary preamble w formed, multipartBoundary contentType = .ok boundary ∧
      untilDelimiter (crlf ++ (dashes ++ boundary)) (crlf ++ chunks.flatten) = some (preamble, w) ∧
      form options (crlf ++ (dashes ++ boundary)) 0 0 w = some formed ∧
      collectParts none formed = collectParts none events := by
  have hmeaning := parse_create contentType options chunks
  rw [h] at hmeaning
  cases hboundary : multipartBoundary contentType with
  | error e =>
    rw [hboundary] at hmeaning
    cases hmeaning
  | ok boundary =>
    simp only [hboundary, Except.toOption, Option.map_some] at hmeaning
    obtain ⟨formed, hformed, hjoined⟩ := Option.map_eq_some_iff.mp hmeaning.symm
    rw [formEvents] at hformed
    obtain ⟨⟨preamble, w⟩, hcut, hform⟩ := Option.bind_eq_some_iff.mp hformed
    split_ifs at hform
    refine ⟨boundary, preamble, w, formed, rfl, hcut, hform, ?_⟩
    rw [← collectParts_joinData none formed, hjoined, collectParts_joinData]

/-- The first marker is the first delimiter. -/
lemma eq_drop_of_startsWithDelimiter {marker body preamble w : Bytes} {n : ℕ}
    (hfind : find marker body = some n) (hline : LineStart body n)
    (hending : validEnding ((body.drop (n + marker.length)).take 2) = true)
    (hcut : untilDelimiter (crlf ++ marker) (crlf ++ body) = some (preamble, w)) :
    w = body.drop (n + marker.length) := by
  obtain ⟨hn, hoccurs, hfirst⟩ := (find_eq_some_iff).mp hfind
  have hshift : (crlf ++ body).drop (n + (crlf ++ marker).length) =
      body.drop (n + marker.length) := by
    have hlength : n + (crlf ++ marker).length = crlf.length + (n + marker.length) := by
      rw [List.length_append]
      omega
    rw [hlength, List.drop_length_add_append]
  have hdelimits : delimits (crlf ++ marker) ((crlf ++ body).drop n) = true := by
    rw [delimits, Bool.and_eq_true, List.isPrefixOf_iff_prefix, List.drop_drop, hshift]
    exact ⟨prefix_of_lineStart hoccurs hline, hending⟩
  have hbefore : ∀ m < n, delimits (crlf ++ marker) ((crlf ++ body).drop m) = false := by
    intro m hm
    rw [delimits, Bool.and_eq_false_iff]
    left
    rw [← Bool.not_eq_true, List.isPrefixOf_iff_prefix]
    exact fun hpre => hfirst m hm (lineStart_of_isPrefix hpre).1
  rw [untilDelimiter_of_first hbefore hdelimits, hshift] at hcut
  cases hcut
  rfl

/-- On what the incremental parser accepts, the buffered one returns the same parts when the first
marker is a delimiter and so is, behind every head, the first marker at the start of a line; and
only then, unless it starts at a marker that is no delimiter. -/
theorem parseMultipart_eq_parts {contentType : Bytes} {options : MultipartParserOptions}
    {chunks : List Bytes} {events : List MultipartEvent} {maxParts : ℕ}
    (h : (create contentType options).parse chunks = .ok events)
    (hlimit : (collectParts none events).length ≤ maxParts) :
    (Readable contentType chunks.flatten →
      parseMultipart chunks.flatten contentType maxParts = .ok (collectParts none events)) ∧
    (parseMultipart chunks.flatten contentType maxParts = .ok (collectParts none events) →
      Readable contentType chunks.flatten ∨ StrayMarker contentType chunks.flatten) := by
  obtain ⟨boundary, preamble, w, formed, hboundary, hcut, hform, hparts⟩ := exists_form h
  rw [parseMultipart_of_boundary hboundary, ← hparts]
  rw [← hparts] at hlimit
  constructor
  · rintro ⟨boundary', n, hboundary', hfind, hline, hunmistakable⟩
    rw [hboundary] at hboundary'
    cases hboundary'
    obtain rfl := eq_drop_of_startsWithDelimiter hfind hline
      (validEnding_of_unmistakable hunmistakable) hcut
    rw [formParts_of_find hfind]
    exact formParts_of_unmistakable hunmistakable hform (by simpa using hlimit)
  · intro hresult
    cases hfind : find (dashes ++ boundary) chunks.flatten with
    | none =>
      have hstep : formStep (dashes ++ boundary) maxParts ([], chunks.flatten) =
          .leave (.error (multipartError "Multipart body has no closing delimiter")) := by
        simp only [formStep, hfind]
      rw [formParts, Loop.run_of_leave _ hstep] at hresult
      cases hresult
    | some n =>
      by_cases hstarts : StartsWithDelimiter (dashes ++ boundary) chunks.flatten
      · obtain ⟨n', hfind', hline, -⟩ := hstarts
        rw [hfind] at hfind'
        cases hfind'
        rw [formParts_of_find hfind] at hresult
        exact Or.inl ⟨boundary, n, hboundary, hfind, hline, unmistakable_of_formParts hresult⟩
      · exact Or.inr ⟨boundary, n, hboundary, hfind, hstarts⟩

-- A stray marker can be read to the same parts by accident, so the two conditions do not meet.
example :
    let body := bytes ("x--b\r\nContent-Disposition: form-data; name=x\r\n --b--:y\r\n\r\n" ++
      "--b\r\nContent-Disposition: form-data; name=x\r\n--b--:y\r\n\r\n" ++
      "--b\r\nContent-Disposition: form-data; name=x\r\n--b--")
    let contentType := bytes "multipart/form-data; boundary=b"
    (((create contentType {}).parse [body]).map (collectParts none)) =
      parseMultipart body contentType 1 := by decide +kernel

/-- The head of a field called `x`. -/
def fieldPart : MultipartPart :=
  { name := bytes "x", headers := [(bytes "Content-Disposition", bytes "form-data; name=x")] }

/-- A body with a text field. -/
theorem parseMultipart_eq_parts_of_field :
    parseMultipart (bytes "--b\r\nContent-Disposition: form-data; name=x\r\n\r\na\r\n--b--")
        (bytes "multipart/form-data; boundary=b") 1 =
      .ok [{ fieldPart with content := bytes "a" }] := by
  have hparse : (create (bytes "multipart/form-data; boundary=b") {}).parse
      [bytes "--b\r\nContent-Disposition: form-data; name=x\r\n\r\na\r\n--b--"] =
        .ok [{ type := .partBegin, part := fieldPart }, { data := bytes "a" },
          { type := .partEnd, part := fieldPart }] := by decide +kernel
  have hlimit : (collectParts none [{ type := .partBegin, part := fieldPart },
      { data := bytes "a" }, { type := .partEnd, part := fieldPart }]).length ≤ 1 := by
    decide +kernel
  refine (parseMultipart_eq_parts hparse hlimit).1
    ⟨bytes "b", 0, by decide +kernel, by decide +kernel, Or.inl rfl, ?_⟩
  exact @Unmistakable.part _ _ 38 1 (by decide +kernel) (by decide +kernel) (by decide +kernel)
    (.close (by decide +kernel))

/-- Text that looks like a delimiter, in the content of a field.  The streaming parser takes a
delimiter only with a proper ending, and the buffered one takes its text anywhere. -/
theorem not_parseMultipart_eq_parts :
    ¬ ∀ (contentType : Bytes) (options : MultipartParserOptions) (chunks : List Bytes)
      (events : List MultipartEvent) (maxParts : ℕ),
      (create contentType options).parse chunks = .ok events →
      (collectParts none events).length ≤ maxParts →
      parseMultipart chunks.flatten contentType maxParts = .ok (collectParts none events) := by
  intro h
  have hparse : (create (bytes "multipart/form-data; boundary=b") {}).parse
      [bytes "--b\r\nContent-Disposition: form-data; name=x\r\n\r\n\r\n--bX\r\n--b--"] =
        .ok [{ type := .partBegin, part := fieldPart }, { data := crlf },
          { data := bytes "--bX" }, { type := .partEnd, part := fieldPart }] := by decide +kernel
  have hfalse := h _ _ _ _ 1 hparse (by decide +kernel)
  revert hfalse
  decide +kernel

end Chhttp.Multipart
