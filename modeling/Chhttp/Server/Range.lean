import Chhttp.Common.ContentRange
import Chhttp.Protocol.RequestHead
import Chhttp.Server.Reply

/-!
# Byte ranges of files

`parse_range` against the byte ranges of RFC 9110, with digit strings of any length, and what
`send_file` sends for the interval it yields.  The only numbers that the two disagree about are those
that do not fit into a `std::uint64_t`: a last position or a suffix length that long reaches behind
the end of every file, but the source takes it for no range at all.
-/

namespace Chhttp

open ListSearch

/-! ### The ranges of the standard -/

/-- A nonempty string of decimal digits. -/
def IsNumeral (text : Bytes) : Prop := text ≠ [] ∧ ∀ c ∈ text, isDigit c = true

/-- The number that a string of decimal digits denotes. -/
def decimal (text : Bytes) : ℕ := Numeral.value 10 (text.map fun c => c.toNat - 48)

/-- A single byte range, by the digit strings it is written with.  The digit strings may have
leading zeros, and they may denote numbers that no machine integer holds. -/
inductive RangeSpec where
  | interval (first last : Bytes)
  | openEnd (first : Bytes)
  | suffix (length : Bytes)

namespace RangeSpec

/-- The text of a range. -/
def text : RangeSpec → Bytes
  | interval first last => first ++ dash :: last
  | openEnd first => first ++ [dash]
  | suffix length => dash :: length

/-- The strings are numbers, and an interval is ordered. -/
def WellFormed : RangeSpec → Prop
  | interval first last => IsNumeral first ∧ IsNumeral last ∧ decimal first ≤ decimal last
  | openEnd first => IsNumeral first
  | suffix length => IsNumeral length

/-- The first and the last byte that a range selects from a file of `size` bytes.  This is the
meaning of a range by the standard, on numbers of any size. -/
def selected (size : ℕ) : RangeSpec → Option (ℕ × ℕ)
  | interval first last =>
    if decimal first < size then some (decimal first, min (decimal last) (size - 1)) else none
  | openEnd first => if decimal first < size then some (decimal first, size - 1) else none
  | suffix length =>
    if 0 < decimal length then some (size - min (decimal length) size, size - 1) else none

/-- The numbers that are converted fit into 64 bits: the last position of an interval that starts in
the file, and the length of a suffix. -/
def Fits (size : ℕ) : RangeSpec → Prop
  | interval first last => decimal first < size → decimal last < 2 ^ 64
  | openEnd _ => True
  | suffix length => decimal length < 2 ^ 64

end RangeSpec

/-- A digit string is converted when its number fits. -/
lemma fromChars_numeral {text : Bytes} (h : IsNumeral text) :
    fromChars 10 uint64Limit text = if decimal text < 2 ^ 64 then some (decimal text) else none := by
  split_ifs with hlt
  · exact (fromChars_ten).mpr ⟨h.1, h.2, rfl, hlt⟩
  · cases hread : fromChars 10 uint64Limit text with
    | none => rfl
    | some n =>
      obtain ⟨-, -, hdenotes, hn⟩ := (fromChars_ten).mp hread
      rw [← hdenotes] at hn
      exact absurd hn hlt

/-- A digit string has no dash and no comma. -/
lemma IsNumeral.not_mem {text : Bytes} (h : IsNumeral text) : dash ∉ text ∧ comma ∉ text :=
  ⟨fun hmem => absurd (h.2 _ hmem) (by decide), fun hmem => absurd (h.2 _ hmem) (by decide)⟩

/-- A single range is not a list of ranges. -/
lemma RangeSpec.comma_not_mem {spec : RangeSpec} (h : spec.WellFormed) : comma ∉ spec.text := by
  have hdash : comma ≠ dash := by decide
  cases spec with
  | interval first last =>
    rw [text, List.mem_append, List.mem_cons, not_or, not_or]
    exact ⟨h.1.not_mem.2, hdash, h.2.1.not_mem.2⟩
  | openEnd first =>
    rw [text, List.mem_append, List.mem_singleton, not_or]
    exact ⟨IsNumeral.not_mem h |>.2, hdash⟩
  | suffix length =>
    rw [text, List.mem_cons, not_or]
    exact ⟨hdash, IsNumeral.not_mem h |>.2⟩

/-- The suffix form. -/
lemma parseRangeText_suffix {length : Bytes} (h : IsNumeral length) (size : ℕ) :
    parseRangeText (dash :: length) size =
      if decimal length < 2 ^ 64 ∧ 0 < decimal length then
        some (size - min (decimal length) size, size - 1)
      else none := by
  have hfind : find [dash] (dash :: length) = some 0 := by
    simp [find]
  simp only [parseRangeText, hfind]
  rw [List.drop_one, List.tail_cons, fromChars_numeral h]
  by_cases hlt : decimal length < 2 ^ 64
  · rw [if_pos hlt]
    cases hzero : decimal length with
    | zero => simp
    | succ n =>
      rw [hzero] at hlt
      rw [if_pos ⟨hlt, Nat.succ_pos n⟩]
      rfl
  · rw [if_neg hlt, if_neg fun hboth => hlt hboth.1]

/-- The forms with a first position. -/
lemma parseRangeText_first {first : Bytes} (h : IsNumeral first) {size : ℕ} (hsize : size < 2 ^ 64)
    (last : Bytes) :
    parseRangeText (first ++ dash :: last) size =
      if decimal first < size then
        if last = [] then some (decimal first, size - 1)
        else
          (fromChars 10 uint64Limit last).bind fun n =>
            if n < decimal first then none else some (decimal first, min n (size - 1))
      else none := by
  have hlen : first.length ≠ 0 := by
    rw [Ne, List.length_eq_zero_iff]
    exact h.1
  have hdrop : (first ++ dash :: last).drop (first.length + 1) = last := by
    rw [← List.drop_drop, List.drop_left]
    rfl
  have hend : first.length + 1 = (first ++ dash :: last).length ↔ last = [] := by
    rw [List.length_append, List.length_cons, ← List.length_eq_zero_iff]
    omega
  simp only [parseRangeText, find_singleton_append h.not_mem.1]
  rw [List.take_left, fromChars_numeral h]
  by_cases hinside : decimal first < size
  · rw [if_pos (hinside.trans hsize), if_pos hinside]
    dsimp only
    rw [if_neg (Nat.not_le.mpr hinside), hdrop]
    by_cases hnil : last = []
    · rw [if_pos (hend.mpr hnil), if_pos hnil]
    · rw [if_neg (mt hend.mp hnil), if_neg hnil]
      cases fromChars 10 uint64Limit last <;> rfl
  · rw [if_neg hinside]
    by_cases hlt : decimal first < 2 ^ 64
    · rw [if_pos hlt]
      dsimp only
      rw [if_pos (Nat.not_lt.mp hinside)]
    · rw [if_neg hlt]

/-- The range of the standard is yielded exactly when the numbers fit. -/
lemma parseRange_iff {spec : RangeSpec} (h : spec.WellFormed) {size : ℕ} (hpos : 1 ≤ size)
    (hsize : size < 2 ^ 64) :
    parseRange (bytes "bytes=" ++ spec.text) size = spec.selected size ↔ spec.Fits size := by
  have hunit : iequals ((bytes "bytes=" ++ spec.text).take 6) (bytes "bytes=") = true :=
    iequals_refl (bytes "bytes=")
  have hcomma : (bytes "bytes=" ++ spec.text).contains comma = false := by
    have hnone : comma ∉ bytes "bytes=" := by decide
    rw [List.contains_eq_mem, decide_eq_false_iff_not, List.mem_append, not_or]
    exact ⟨hnone, spec.comma_not_mem h⟩
  have hzero : (size == 0) = false := by
    rw [beq_eq_false_iff_ne]
    omega
  have hrest : (bytes "bytes=" ++ spec.text).drop 6 = spec.text := rfl
  rw [parseRange, hunit, hcomma, hzero, if_neg (by simp), hrest]
  cases spec with
  | interval first last =>
    obtain ⟨hfirst, hlast, horder⟩ := h
    rw [RangeSpec.text, parseRangeText_first hfirst hsize, RangeSpec.selected, RangeSpec.Fits]
    by_cases hinside : decimal first < size
    · rw [if_pos hinside, if_neg hlast.1, if_pos hinside, fromChars_numeral hlast]
      by_cases hlt : decimal last < 2 ^ 64
      · rw [if_pos hlt, Option.bind_some, if_neg (Nat.not_lt.mpr horder)]
        exact iff_of_true rfl fun _ => hlt
      · rw [if_neg hlt]
        exact iff_of_false (by simp) fun hfits => hlt (hfits hinside)
    · rw [if_neg hinside, if_neg hinside]
      exact iff_of_true rfl fun hin => absurd hin hinside
  | openEnd first =>
    rw [RangeSpec.text, parseRangeText_first h hsize, RangeSpec.selected, RangeSpec.Fits, if_pos rfl]
    exact iff_of_true rfl trivial
  | suffix length =>
    rw [RangeSpec.text, parseRangeText_suffix h, RangeSpec.selected, RangeSpec.Fits]
    by_cases hlt : decimal length < 2 ^ 64
    · simp only [hlt, true_and]
    · have hbig : 0 < decimal length := by
        have := Nat.two_pow_pos 64
        omega
      rw [if_neg fun hboth => hlt hboth.1, if_pos hbig]
      exact iff_of_false (by simp) hlt

/-- Every range that is yielded is ordered and lies in the file. -/
lemma parseRange_bounds {value : Bytes} {size first last : ℕ}
    (h : parseRange value size = some (first, last)) : first ≤ last ∧ last < size := by
  rw [parseRange] at h
  by_cases hrefused :
      (!iequals (value.take 6) (bytes "bytes=") || value.contains comma || size == 0) = true
  · rw [if_pos hrefused] at h
    cases h
  rw [if_neg hrefused] at h
  have hpos : 0 < size := by
    simp only [Bool.or_eq_true, beq_iff_eq, not_or] at hrefused
    omega
  unfold parseRangeText at h
  split at h
  · cases h
  · split at h
    · cases h
    · cases h
    · rename_i suffix hne _
      rw [Option.some.injEq, Prod.mk.injEq] at h
      obtain ⟨rfl, rfl⟩ := h
      have hsuffix : suffix ≠ 0 := by
        rintro rfl
        exact hne rfl
      omega
  · split at h
    · cases h
    · split_ifs at h with hinside hend
      · rw [Option.some.injEq, Prod.mk.injEq] at h
        obtain ⟨rfl, rfl⟩ := h
        omega
      · split at h
        · cases h
        · split_ifs at h with horder
          rw [Option.some.injEq, Prod.mk.injEq] at h
          obtain ⟨rfl, rfl⟩ := h
          omega

/-! ### What is sent -/

/-- A block of a file is the next part of it. -/
lemma take_of_read {file : OpenFile} {offset count remaining : ℕ} {chunk : Bytes}
    (h : file.read offset count = some chunk) (hcount : count ≤ remaining) :
    chunk.length = count ∧ (file.content.drop offset).take remaining =
      chunk ++ (file.content.drop (offset + count)).take (remaining - count) := by
  unfold OpenFile.read at h
  dsimp only at h
  split_ifs at h with hlen
  cases h
  refine ⟨hlen, ?_⟩
  rw [← List.drop_drop, ← List.take_add, Nat.add_sub_cancel' hcount]

/-- A successful transfer hands on the part of the file it was asked for. -/
lemma bytes_of_writeFile {file : OpenFile} {s : FileTransfer} {output' : Output}
    (h : writeFile file s = (none, output')) :
    output'.bytes = s.output.bytes ++ (file.content.drop s.offset).take s.remaining ∧
      ((file.content.drop s.offset).take s.remaining).length = s.remaining := by
  let Post : FileTransfer → Option ErrorInfo × Output → Prop := fun s a =>
    ∀ output', a = (none, output') →
      output'.bytes = s.output.bytes ++ (file.content.drop s.offset).take s.remaining ∧
        ((file.content.drop s.offset).take s.remaining).length = s.remaining
  have hrun : Post s (writeFile file s) := by
    -- the induction is on the blocks: the first, and by hypothesis what the rest of the loop writes
    refine Loop.run_induct (fileStep_decreases file) ?_ ?_ s
    · intro s a hb output' ha
      subst ha
      unfold fileStep at hb
      by_cases hzero : s.remaining = 0
      · rw [if_pos hzero] at hb
        cases hb
        rw [hzero]
        simp
      · rw [if_neg hzero] at hb
        by_cases hopen : (!s.output.isOpen) = true
        · rw [if_pos hopen] at hb
          cases hb
        · rw [if_neg hopen] at hb
          split at hb
          · cases hb
          · split at hb <;> cases hb
    · intro s s' a hb ih output' ha
      unfold fileStep at hb
      by_cases hzero : s.remaining = 0
      · rw [if_pos hzero] at hb
        cases hb
      rw [if_neg hzero] at hb
      by_cases hopen : (!s.output.isOpen) = true
      · rw [if_pos hopen] at hb
        cases hb
      rw [if_neg hopen] at hb
      cases hread : file.read s.offset (min s.remaining fileBlockSize) with
      | none =>
        rw [hread] at hb
        cases hb
      | some chunk =>
        rw [hread] at hb
        dsimp only at hb
        obtain ⟨hlen, htake⟩ := take_of_read hread (Nat.min_le_left _ _)
        have hblocks := s.output.blocks_write chunk
        split at hb
        · cases hb
        · rename_i written hwrite
          cases hb
          rw [hwrite] at hblocks
          obtain ⟨hbytes, hrest⟩ := ih output' ha
          rw [hlen] at hbytes hrest
          rw [htake]
          constructor
          · rw [hbytes, Output.bytes, Output.bytes, hblocks]
            simp
          · rw [List.length_append, hlen, hrest]
            exact Nat.add_sub_cancel' (Nat.min_le_left _ _)
  exact hrun output' h

/-- The head and the body of an answer with an interval of a file.  The status is 206, the interval
stands in `Content-Range`, and the body is the interval, of the length that is announced. -/
structure PartialContent (response : Response) (file : OpenFile) (first last : ℕ)
    (head : Bytes) (fields : Headers) (body : Bytes) : Prop where
  head : OutboundHead head (responseStartLine { response with status := 206 }) fields
  contentRange : ∃ value, formatContentRange first last (some file.size) = .ok value ∧
    fields.getAll (bytes "Content-Range") = [value]
  framing : Announces fields (.length (last - first + 1))
  body_eq : body = (file.content.drop first).take (last - first + 1)
  length : body.length = last - first + 1

/-- The field of a range is written like any content range. -/
lemma formatContentRange_file {first last size : ℕ} (horder : first ≤ last) (hsize : last < size) :
    formatContentRange first last (some size) =
      .ok (bytes "bytes " ++ (toChars 10 first ++ (bytes "-" ++ (toChars 10 last ++
        (bytes "/" ++ toChars 10 size))))) := by
  rw [formatContentRange, if_neg (Nat.not_lt.mpr horder), if_neg (by simpa using hsize)]
  simp [totalText, bytes, dash, slash]

/-- A field that is neither an override nor omitted is sent as the caller set it. -/
lemma getAll_mergeFields_of_kept {overrides : List HeadOverride} {omitted : List Bytes}
    (hdistinct : Distinct overrides) (headers : Headers) {name : Bytes}
    (hoverrides : ∀ o ∈ overrides, iequals name o.1 = false)
    (homitted : isOmitted omitted name = false) :
    (mergeFields overrides omitted headers).getAll name = headers.getAll name := by
  have hindex : overrideIndex overrides name = none := by
    rw [overrideIndex, List.findIdx?_eq_none_iff]
    exact fun o ho => hoverrides o ho
  rw [getAll_mergeFields hdistinct, hindex]
  dsimp only
  rw [homitted, if_neg Bool.false_ne_true]

/-- What is sent for a part of a file: the merged head and the bytes of the part. -/
lemma sent_of_sendFilePart {request : Request} {response : Response} {file : OpenFile}
    {first length : ℕ} {output output' : Output} (hpos : 0 < length)
    (hmethod : iequals request.method (bytes "HEAD") = false)
    (hstatus : statusHasNoBody response.status = false)
    (h : sendFilePart request response file first length output = (none, output')) :
    ∃ head, OutboundHead head (responseStartLine response)
        (mergeFields (responseOverrides request response { contentLength := some length })
          (framingOmitted response.status { contentLength := some length }) response.headers) ∧
      output'.bytes = output.bytes ++ (head ++ (file.content.drop first).take length) ∧
      ((file.content.drop first).take length).length = length := by
  have hbody : ¬(iequals request.method (bytes "HEAD") || length == 0 ||
      statusHasNoBody response.status) = true := by
    rw [hmethod, hstatus]
    simpa using Nat.ne_of_gt hpos
  unfold sendFilePart at h
  cases hbuild : buildResponseHead request response { contentLength := some length } with
  | error e =>
    rw [writeResponseHead, hbuild] at h
    cases h
  | ok head =>
    rw [writeResponseHead, hbuild] at h
    dsimp only at h
    have hblocks := output.blocks_write head
    generalize output.write head = written at h hblocks
    obtain ⟨error, middle⟩ := written
    cases error with
    | some e => cases h
    | none =>
      dsimp only at h hblocks
      rw [if_neg hbody] at h
      obtain ⟨hbytes, hlength⟩ := bytes_of_writeFile h
      obtain ⟨-, -, -, hserialize⟩ := buildResponseHead_eq_ok hbuild
      refine ⟨head, outboundHead_of_serializeHead (validHeaderValue_responseStartLine response)
        hserialize, ?_, hlength⟩
      rw [hbytes, Output.bytes, Output.bytes, hblocks]
      simp

/-- What `send_file` sends for a range. -/
lemma partialContent_of_sendFile {request : Request} {response : Response} {file : OpenFile}
    {range : Bytes} {first last : ℕ} {output output' : Output}
    (hrequested : requestedRange request response = some range)
    (hrange : parseRange range file.size = some (first, last))
    (h : sendFile request response (some file) output = (none, output')) :
    ∃ head fields body, output'.bytes = output.bytes ++ (head ++ body) ∧
      PartialContent response file first last head fields body := by
  obtain ⟨horder, hsize⟩ := parseRange_bounds hrange
  have hmethod : iequals request.method (bytes "HEAD") = false := by
    have hget : iequals request.method (bytes "GET") = true := by
      unfold requestedRange at hrequested
      split_ifs at hrequested with hconditions
      exact hconditions.2.1
    rw [iequals_congr hget]
    decide
  unfold sendFile transferFile at h
  rw [hrequested] at h
  dsimp only at h
  rw [hrange] at h
  have hstatus : statusHasNoBody 206 = false := by decide
  obtain ⟨head, hhead, hbytes, hlength⟩ :=
    sent_of_sendFilePart (Nat.succ_pos _) hmethod hstatus h
  refine ⟨head, _, _, hbytes, hhead, ⟨_, formatContentRange_file horder hsize, ?_⟩,
    announces_response request _ _, rfl, hlength⟩
  rw [getAll_mergeFields_of_kept (distinct_responseOverrides request _ _)]
  · exact Headers.getAll_set_self _ _ _
  · refine forall_mem_responseOverrides (by decide) (fun value => ?_) fun o ho => ?_
    · exact (by decide : iequals (bytes "Content-Range") (bytes "Connection") = false)
    · have hframing : framingOverrides 206 { contentLength := some (last - first + 1) } =
          [(bytes "Content-Length", toChars 10 (last - first + 1))] := rfl
      rw [hframing, List.mem_singleton] at ho
      rw [ho]
      exact (by decide : iequals (bytes "Content-Range") (bytes "Content-Length") = false)
  · exact (by decide : isOmitted [bytes "Transfer-Encoding"] (bytes "Content-Range") = false)

/-- **Byte ranges.**  A well-formed single range is answered as the standard says exactly when its
numbers fit into 64 bits.  Every range that is yielded lies in the file, and what is sent for it is
announced by its Content-Range and its Content-Length. -/
theorem parseRange_rfc9110 {size : ℕ} {spec : RangeSpec} (hpos : 1 ≤ size) (hsize : size < 2 ^ 64)
    (hspec : spec.WellFormed) :
    (parseRange (bytes "bytes=" ++ spec.text) size = spec.selected size ↔ spec.Fits size) ∧
    (∀ (value : Bytes) (size first last : ℕ), parseRange value size = some (first, last) →
      first ≤ last ∧ last < size) ∧
    ∀ (request : Request) (response : Response) (file : OpenFile) (range : Bytes) (first last : ℕ)
      (output output' : Output), requestedRange request response = some range →
      parseRange range file.size = some (first, last) →
      sendFile request response (some file) output = (none, output') →
      ∃ head fields body, output'.bytes = output.bytes ++ (head ++ body) ∧
        PartialContent response file first last head fields body :=
  ⟨parseRange_iff hspec hpos hsize, fun _ _ _ _ => parseRange_bounds,
    fun _ _ _ _ _ _ _ _ => partialContent_of_sendFile⟩

/-- The last position of an interval is cut at the end of the file. -/
theorem parseRange_rfc9110_of_clamped : parseRange (bytes "bytes=8-999") 10 = some (8, 9) := by
  have hfirst : IsNumeral (bytes "8") := ⟨by decide, by decide +kernel⟩
  have hlast : IsNumeral (bytes "999") := ⟨by decide, by decide +kernel⟩
  have hspec : (RangeSpec.interval (bytes "8") (bytes "999")).WellFormed :=
    ⟨hfirst, hlast, by decide +kernel⟩
  have hten : (1 : ℕ) ≤ 10 ∧ (10 : ℕ) < 2 ^ 64 := by decide
  exact (parseRange_rfc9110 hten.1 hten.2 hspec).1.mpr fun _ => by decide +kernel

/-- A last position of 2 ^ 64 is behind the end of the file, and the range is taken for none. -/
theorem not_parseRange_rfc9110 :
    ¬∀ (size : ℕ) (spec : RangeSpec), 1 ≤ size → size < 2 ^ 64 → spec.WellFormed →
      parseRange (bytes "bytes=" ++ spec.text) size = spec.selected size := by
  intro h
  have hfirst : IsNumeral (bytes "0") := ⟨by decide, by decide +kernel⟩
  have hlast : IsNumeral (bytes "18446744073709551616") := ⟨by decide, by decide +kernel⟩
  have hyielded := h 10 (.interval (bytes "0") (bytes "18446744073709551616")) (by decide)
    (by decide) ⟨hfirst, hlast, by decide +kernel⟩
  revert hyielded
  decide +kernel

end Chhttp
