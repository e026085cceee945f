import Chhttp.Protocol.Delivery

/-!
# The chunked coding

The chunked branch of `read_body`: size lines, payload with its line end, and the trailer section.

A `ChunkedFrame` is a chunked body as a list of chunks, a last size line and trailer lines;
`ChunkedFrame.encode` writes it.  The reader takes exactly one valid frame from its input
(`readChunked_sound`).  Conversely a valid frame that is there is read if it has been received
whole, or if no trailer line contains a bare LF (`readChunked_complete`): `read_line` looks for
bare LF only while a line is incomplete, and `trim` removes LF from the ends of a trailer value.
-/

namespace Chhttp

open ListSearch Fragment

/-! ### The pieces of the coding -/

/-- The number of a chunk size line, `Invalid chunk size` otherwise. -/
def chunkSizeOf (sizeText : Bytes) : Result ℕ :=
  match fromChars 16 uint64Limit sizeText with
  | none => .error (protocolError "Invalid chunk size")
  | some size => .ok size

/-- A chunk size line: the size, and an extension that must be a nonempty valid text. -/
def parseChunkSize (sizeText : Bytes) : Result ℕ :=
  match find [semicolon] sizeText with
  | none => chunkSizeOf sizeText
  | some extension =>
    let extensionText := sizeText.drop (extension + 1)
    if extensionText.isEmpty || !validHeaderValue extensionText then
      .error (protocolError "Invalid chunk extension")
    else chunkSizeOf (sizeText.take extension)

/-- The longest size line. -/
def maxSizeLine : ℕ := 16 * 1024

/-- The size line of a chunk: parsed in place when it is buffered, else read as a line. -/
def readChunkSize (input : Input) : Result ℕ × Input :=
  match find crlf input.buffer with
  | some bufferedEnd =>
    if maxSizeLine < bufferedEnd then
      (.error (protocolError "HTTP line exceeds configured limit"), input)
    else
      match parseChunkSize (input.buffer.take bufferedEnd) with
      | .error e => (.error e, input)
      | .ok size => (.ok size, input.consume (bufferedEnd + 2))
  | none =>
    match readLine maxSizeLine input with
    | (.error e, input) => (.error e, input)
    | (.ok line, input) => (parseChunkSize line, input)

/-- One iteration of the loop that waits for the line end behind a chunk. -/
def chunkEndStep (input : Input) : Loop.Next Input (Option ErrorInfo × Input) :=
  if 2 ≤ input.buffer.length then
    if input.buffer.take 2 = crlf then .leave (none, input.consume 2)
    else .leave (some (protocolError "Chunk payload lacks CRLF"), input)
  else
    match input.read with
    | (.failed e, input) => .leave (some e, input)
    | (.eof, input) => .leave (some (protocolError "Unexpected end after HTTP chunk"), input)
    | (.data received, rest) => .again (rest.append received)

/-- The loop reads from the connection. -/
lemma chunkEndStep_decreases : Loop.Decreases chunkEndStep fun input => input.reads.length := by
  intro input input' h
  unfold chunkEndStep at h
  split_ifs at h
  split at h
  · cases h
  · cases h
  · rename_i received rest hread
    cases h
    exact (Source.reads_read hread).2

/-- The line end behind the payload of a chunk. -/
def readChunkEnd (input : Input) : Option ErrorInfo × Input :=
  Loop.run chunkEndStep (fun input => input.reads.length) chunkEndStep_decreases input

/-- `forbidden_trailers`. -/
def forbiddenTrailers : List Bytes :=
  ["Content-Length", "Transfer-Encoding", "Host", "Connection", "Trailer", "TE", "Upgrade",
    "Content-Encoding", "Content-Type", "Content-Range", "Authorization", "Proxy-Authorization",
    "WWW-Authenticate", "Proxy-Authenticate", "Cookie", "Set-Cookie", "Range", "If-Range",
    "Location", "If-Match", "If-None-Match", "If-Modified-Since", "If-Unmodified-Since"].map bytes

/-- The checks of one trailer line.  Unlike `fieldOf`, the value is stripped of all white space. -/
def trailerOf (trailer : Bytes) : Result (Bytes × Bytes) :=
  match find [colon] trailer with
  | none => .error (protocolError "Malformed HTTP trailer")
  | some n =>
    let name := trailer.take n
    let value := trim (trailer.drop (n + 1))
    if !validHeaderName name || !validHeaderValue value then
      .error (protocolError "Invalid HTTP trailer")
    else if forbiddenTrailers.any (iequals name ·) then
      .error (protocolError "Forbidden control field in HTTP trailer")
    else .ok (name, value)

/-- The state of the loop over the trailer lines.  The bytes of the trailer lines are counted over
the lines, because the limit is one for the whole section. -/
structure TrailerState where
  trailerBytes : ℕ := 0
  headers : Headers
  input : Input

/-- One iteration of the loop over the trailer lines. -/
def trailerStep (maxHeaderSize : ℕ) (s : TrailerState) :
    Loop.Next TrailerState (Option ErrorInfo × Headers × Input) :=
  match readLine maxHeaderSize s.input with
  | (.error e, input) => .leave (some e, s.headers, input)
  | (.ok trailer, input) =>
    if maxHeaderSize < trailer.length ∨ maxHeaderSize - trailer.length < s.trailerBytes ∨
        maxHeaderSize - s.trailerBytes - trailer.length < 2 then
      .leave (some (protocolError "HTTP trailers exceed configured limit"), s.headers, input)
    else if trailer.isEmpty then .leave (none, s.headers, input)
    else
      match trailerOf trailer with
      | .error e => .leave (some e, s.headers, input)
      | .ok (name, value) =>
        .again { trailerBytes := s.trailerBytes + (trailer.length + 2),
                 headers := s.headers.add name value, input }

/-- Every trailer line shortens what there is to read. -/
lemma trailerStep_decreases (maxHeaderSize : ℕ) :
    Loop.Decreases (trailerStep maxHeaderSize) fun s => s.input.available.length := by
  intro s s' h
  unfold trailerStep at h
  split at h
  · cases h
  · rename_i trailer input hread
    split_ifs at h
    split at h
    · cases h
    · cases h
      have := (readLine_sound hread).2.2.length
      simp only [List.length_append, crlf_length] at this
      simp only
      omega

/-- The trailer section. -/
def readTrailers (maxHeaderSize : ℕ) (headers : Headers) (input : Input) :
    Option ErrorInfo × Headers × Input :=
  Loop.run (trailerStep maxHeaderSize) (fun s => s.input.available.length)
    (trailerStep_decreases maxHeaderSize) { headers, input }

/-! ### Size lines -/

/-- A size line: the size in hexadecimal, and possibly an extension.  The size is below 2^64,
leading zeros are allowed, and an extension begins with a semicolon and is a valid field value. -/
structure SizeLine (line : Bytes) (size : ℕ) : Prop where
  split : ∃ digits extension, line = digits ++ extension ∧
    fromChars 16 uint64Limit digits = some size ∧
    (extension = [] ∨ ∃ text, extension = semicolon :: text ∧ text ≠ [] ∧
      validHeaderValue text = true)
  length : line.length ≤ maxSizeLine

/-- The bytes `std::from_chars` accepts are digits. -/
lemma mem_of_fromChars {base limit n : ℕ} {text : Bytes} (h : fromChars base limit text = some n)
    {c : UInt8} (hc : c ∈ text) : (digitOf base c).isSome = true := by
  unfold fromChars at h
  split_ifs at h with hne
  split at h
  · cases h
  · rename_i ds hds
    clear h hne
    induction text generalizing ds with
    | nil => cases hc
    | cons d text ih =>
      rw [List.mapM_cons, Option.bind_eq_bind, Option.bind_eq_some_iff] at hds
      obtain ⟨x, hx, hds⟩ := hds
      rw [Option.bind_eq_bind, Option.bind_eq_some_iff] at hds
      obtain ⟨xs, hxs, -⟩ := hds
      rcases List.mem_cons.mp hc with rfl | hc
      · rw [hx]
        rfl
      · exact ih hc xs hxs

/-- The semicolon is not a hexadecimal digit. -/
lemma semicolon_not_mem_of_fromChars {limit n : ℕ} {digits : Bytes}
    (h : fromChars 16 limit digits = some n) : semicolon ∉ digits := by
  intro hmem
  exact absurd (mem_of_fromChars h hmem) (by decide)

/-- The number of a chunk size. -/
lemma chunkSizeOf_eq_ok {digits : Bytes} {size : ℕ} :
    chunkSizeOf digits = .ok size ↔ fromChars 16 uint64Limit digits = some size := by
  unfold chunkSizeOf
  cases fromChars 16 uint64Limit digits <;> simp

/-- The size lines are what the parser accepts. -/
theorem parseChunkSize_eq_ok {line : Bytes} {size : ℕ} (hlen : line.length ≤ maxSizeLine) :
    parseChunkSize line = .ok size ↔ SizeLine line size := by
  unfold parseChunkSize
  constructor
  · intro h
    split at h
    · refine ⟨⟨line, [], by simp, chunkSizeOf_eq_ok.mp h, Or.inl rfl⟩, hlen⟩
    · rename_i n hn
      obtain ⟨a, b, rfl, -, rfl⟩ := find_singleton_eq_some hn
      have hdrop : (a ++ semicolon :: b).drop (a.length + 1) = b := by
        rw [← List.drop_drop, List.drop_left]
        rfl
      rw [hdrop] at h
      dsimp only at h
      split_ifs at h with hext
      simp only [Bool.or_eq_true, List.isEmpty_iff, Bool.not_eq_true', not_or,
        Bool.not_eq_false] at hext
      rw [List.take_left] at h
      exact ⟨⟨a, semicolon :: b, rfl, chunkSizeOf_eq_ok.mp h,
        Or.inr ⟨b, rfl, hext.1, hext.2⟩⟩, hlen⟩
  · rintro ⟨⟨digits, extension, rfl, hsize, rfl | ⟨text, rfl, hne, hvalid⟩⟩, -⟩
    · rw [List.append_nil, (find_singleton_eq_none).mpr (semicolon_not_mem_of_fromChars hsize)]
      exact chunkSizeOf_eq_ok.mpr hsize
    · have hdrop : (digits ++ semicolon :: text).drop (digits.length + 1) = text := by
        rw [← List.drop_drop, List.drop_left]
        rfl
      rw [find_singleton_append (semicolon_not_mem_of_fromChars hsize)]
      simp [hdrop, hne, hvalid, chunkSizeOf_eq_ok.mpr hsize]

/-- A size line contains neither CR nor LF. -/
lemma SizeLine.not_mem {line : Bytes} {size : ℕ} (h : SizeLine line size) {c : UInt8}
    (hc : c = cr ∨ c = lf) : c ∉ line := by
  obtain ⟨⟨digits, extension, rfl, hsize, hext⟩, -⟩ := h
  rw [List.mem_append, not_or]
  constructor
  · intro hmem
    have := mem_of_fromChars hsize hmem
    rcases hc with rfl | rfl <;> exact absurd this (by decide)
  · rcases hext with rfl | ⟨text, rfl, -, hvalid⟩
    · simp
    · rw [List.mem_cons, not_or]
      rcases hc with rfl | rfl <;>
        exact ⟨by decide, not_mem_of_validHeaderValue hvalid (by decide)⟩

/-- A size line is a line text. -/
lemma SizeLine.lineText {line : Bytes} {size : ℕ} (h : SizeLine line size) : LineText line :=
  lineText_of_not_mem (h.not_mem (Or.inl rfl))

/-- The size line read is one. -/
theorem readChunkSize_sound {input after : Input} {size : ℕ}
    (h : readChunkSize input = (.ok size, after)) :
    ∃ line, SizeLine line size ∧ input.Took (line ++ crlf) after := by
  unfold readChunkSize at h
  split at h
  · rename_i n hn
    split_ifs at h with hmax
    · cases h
    · have hread := readLine_buffered hn (Nat.le_of_not_lt hmax)
      obtain ⟨-, hlen, htook⟩ := readLine_sound hread
      split at h
      · cases h
      · rename_i size' hparse
        cases h
        exact ⟨_, (parseChunkSize_eq_ok hlen).mp hparse, htook⟩
  · split at h
    · cases h
    · rename_i line after' hread
      obtain ⟨-, hlen, htook⟩ := readLine_sound hread
      simp only [Prod.mk.injEq] at h
      obtain ⟨hparse, rfl⟩ := h
      exact ⟨line, (parseChunkSize_eq_ok hlen).mp hparse, htook⟩

/-- A size line that is there is read, however it arrives.  An extension may hold a tab but no LF,
so there is no cut in which the line is refused. -/
theorem readChunkSize_complete {input : Input} {line rest : Bytes} {size : ℕ}
    (havail : input.available = line ++ (crlf ++ rest)) (hline : SizeLine line size) :
    ∃ after, readChunkSize input = (.ok size, after) ∧ input.Took (line ++ crlf) after := by
  unfold readChunkSize
  split
  · rename_i n hn
    have hfound := find_available hn
    rw [havail, find_crlf_of_lineText hline.lineText] at hfound
    cases hfound
    rw [if_neg (Nat.not_lt.mpr hline.length)]
    have hfit := find_add_length_le hn
    rw [crlf_length] at hfit
    obtain ⟨-, htake⟩ := find_crlf_buffer havail hline.lineText hfit
    have htook := (readLine_sound (readLine_buffered hn hline.length)).2.2
    rw [htake] at htook ⊢
    simp only [(parseChunkSize_eq_ok hline.length).mpr hline]
    exact ⟨_, rfl, htook⟩
  · obtain ⟨after, hread, htook⟩ :=
      readLine_complete havail hline.lineText (hline.not_mem (Or.inr rfl)) hline.length
    rw [hread]
    exact ⟨after, by simp only [(parseChunkSize_eq_ok hline.length).mpr hline], htook⟩

/-! ### Line ends of chunks -/

/-- The line end behind a chunk is consumed. -/
theorem readChunkEnd_sound {input after : Input} (h : readChunkEnd input = (none, after)) :
    input.Took crlf after := by
  let Post : Input → Option ErrorInfo × Input → Prop := fun s a =>
    ∀ after, a = (none, after) → s.Took crlf after
  have hrun : Post input (readChunkEnd input) := by
    refine Loop.run_induct chunkEndStep_decreases ?_ ?_ input
    · rintro s a hb after rfl
      unfold chunkEndStep at hb
      split_ifs at hb with hlen hcrlf
      · cases hb
        exact hcrlf ▸ Source.took_consume hlen
      · cases hb
      · split at hb <;> cases hb
    · intro s s' a hb ih after ha
      unfold chunkEndStep at hb
      split_ifs at hb with hlen
      split at hb
      · cases hb
      · cases hb
      · rename_i received rest hread
        cases hb
        exact Source.took_of_read hread (by rw [crlf_length]; omega) (ih after ha)
  exact hrun after h

/-- A line end that is there is consumed. -/
theorem readChunkEnd_complete {input : Input} {rest : Bytes}
    (havail : input.available = crlf ++ rest) :
    ∃ after, readChunkEnd input = (none, after) ∧ input.Took crlf after := by
  let Post : Input → Option ErrorInfo × Input → Prop := fun s a =>
    s.available = crlf ++ rest → ∃ after, a = (none, after)
  have hrun : Post input (readChunkEnd input) := by
    refine Loop.run_induct chunkEndStep_decreases ?_ ?_ input
    · rintro s a hb havail
      unfold chunkEndStep at hb
      split_ifs at hb with hlen hcrlf
      · cases hb
        exact ⟨_, rfl⟩
      · refine absurd ?_ hcrlf
        have htake : s.buffer.take 2 = s.available.take 2 :=
          (List.take_append_of_le_length hlen).symm
        rw [htake, havail]
        rfl
      · have hsettled : ¬ s.Settled := by
          intro hs
          have := congrArg List.length (hs.available_eq.symm.trans havail)
          rw [List.length_append, crlf_length] at this
          omega
        obtain ⟨received, more, hread⟩ := Source.exists_read_of_not_settled hsettled
        rw [hread] at hb
        cases hb
    · intro s s' a hb ih havail
      unfold chunkEndStep at hb
      split_ifs at hb with hlen
      split at hb
      · cases hb
      · cases hb
      · rename_i received more hread
        cases hb
        exact ih ((Source.available_read hread).trans havail)
  obtain ⟨after, hread⟩ := hrun havail
  exact ⟨after, hread, readChunkEnd_sound hread⟩

/-! ### Trailers -/

/-- A trailer line that parses is not empty. -/
lemma ne_nil_of_trailerOf {trailer : Bytes} {field : Bytes × Bytes}
    (h : trailerOf trailer = .ok field) : trailer ≠ [] := by
  rintro rfl
  cases h

/-- Valid trailer lines, with the fields they denote, that fit into `room` bytes together with the
empty line that ends them. -/
structure TrailerSection (room : ℕ) (trailers : List Bytes) (fields : Headers) : Prop where
  parse : List.Forall₂ (fun trailer field => trailerOf trailer = .ok field) trailers fields
  lines : ∀ trailer ∈ trailers, LineText trailer
  size : (lineBytes trailers).length + 2 ≤ room

/-- The trailer section is consumed with the empty line that ends it.  Each line is a field that may
stand in a trailer, and all lines together stay within the limit. -/
theorem readTrailers_sound {maxHeaderSize : ℕ} {headers headers' : Headers} {input after : Input}
    (h : readTrailers maxHeaderSize headers input = (none, headers', after)) :
    ∃ trailers fields, TrailerSection maxHeaderSize trailers fields ∧
      headers' = headers ++ fields ∧ input.Took (lineBytes trailers ++ crlf) after := by
  let Post : TrailerState → Option ErrorInfo × Headers × Input → Prop := fun s a =>
    ∀ headers' after, a = (none, headers', after) → s.trailerBytes ≤ maxHeaderSize →
      ∃ trailers fields, TrailerSection (maxHeaderSize - s.trailerBytes) trailers fields ∧
        headers' = s.headers ++ fields ∧ s.input.Took (lineBytes trailers ++ crlf) after
  have hrun : Post { headers, input } (readTrailers maxHeaderSize headers input) := by
    refine Loop.run_induct (trailerStep_decreases maxHeaderSize) ?_ ?_ _
    · rintro s a hb headers' after rfl hroom
      unfold trailerStep at hb
      split at hb
      · cases hb
      · rename_i trailer rest hread
        split_ifs at hb with hlimit hempty
        · cases hb
        · cases hb
          rw [List.isEmpty_iff] at hempty
          subst hempty
          refine ⟨[], [], ⟨.nil, by simp, ?_⟩, by simp, (readLine_sound hread).2.2⟩
          simp only [lineBytes_nil, List.length_nil] at *
          omega
        · split at hb <;> cases hb
    · intro s s' a hb ih headers' after ha hroom
      unfold trailerStep at hb
      split at hb
      · cases hb
      · rename_i trailer rest hread
        split_ifs at hb with hlimit hempty
        split at hb
        · cases hb
        · rename_i name value hparse
          cases hb
          obtain ⟨htext, hlen, htook⟩ := readLine_sound hread
          have hroom' : s.trailerBytes + (trailer.length + 2) ≤ maxHeaderSize := by omega
          obtain ⟨trailers, fields, hsection, hheaders, htook'⟩ := ih headers' after ha hroom'
          refine ⟨trailer :: trailers, (name, value) :: fields, ⟨.cons hparse hsection.parse, ?_,
            ?_⟩, ?_, ?_⟩
          · simpa using ⟨htext, hsection.lines⟩
          · have := hsection.size
            simp only [lineBytes_cons, List.length_append, crlf_length] at this ⊢
            omega
          · rw [hheaders]
            simp [Headers.add]
          · have := htook.trans htook'
            simpa using this
  exact hrun headers' after h (Nat.zero_le _)

/-- The word is free of bare LF in the given lines, or it has been received whole. -/
def Uncut (lines : List Bytes) (word : Bytes) (input : Input) : Prop :=
  (∀ line ∈ lines, lf ∉ line) ∨ word.length ≤ input.buffer.length

/-- One valid trailer line that is there is consumed. -/
lemma trailerStep_line {maxHeaderSize trailerBytes : ℕ} {headers : Headers} {input : Input}
    {trailer rest : Bytes} {field : Bytes × Bytes} (hfield : trailerOf trailer = .ok field)
    (htext : LineText trailer) (hroom : trailerBytes + (trailer.length + 2) ≤ maxHeaderSize)
    (havail : input.available = trailer ++ (crlf ++ rest))
    (hcut : lf ∉ trailer ∨ trailer.length + 2 ≤ input.buffer.length) :
    ∃ middle, trailerStep maxHeaderSize { trailerBytes, headers, input } =
        .again { trailerBytes := trailerBytes + (trailer.length + 2),
                 headers := headers ++ [field], input := middle } ∧
      input.Took (trailer ++ crlf) middle := by
  have hlen : trailer.length ≤ maxHeaderSize := by omega
  obtain ⟨middle, hread, htook⟩ := readLine_of_lineText havail htext hcut hlen
  have hne : trailer.isEmpty = false := by simpa using ne_nil_of_trailerOf hfield
  refine ⟨middle, ?_, htook⟩
  simp only [trailerStep, hread]
  rw [if_neg (by omega), if_neg (by simp [hne]), hfield]
  rfl

/-- The rest of the word after its first line, and the source after it. -/
lemma Uncut.tail {line : Bytes} {lines : List Bytes} {p q : Bytes} {s t : Input}
    (h : Uncut (line :: lines) (p ++ q) s) (htook : s.Took p t) : Uncut lines q t := by
  rcases h with hlf | hlen
  · exact Or.inl fun l hl => hlf l (List.mem_cons_of_mem _ hl)
  · rw [List.length_append] at hlen
    obtain rfl := htook.buffered (by omega)
    refine Or.inr ?_
    rw [Source.consume_buffer, List.length_drop]
    omega

/-- The rest of the word after a part of it was consumed. -/
lemma Uncut.drop {lines : List Bytes} {p q : Bytes} {s t : Input} (h : Uncut lines (p ++ q) s)
    (htook : s.Took p t) : Uncut lines q t := by
  rcases h with hlf | hlen
  · exact Or.inl hlf
  · rw [List.length_append] at hlen
    obtain rfl := htook.buffered (by omega)
    refine Or.inr ?_
    rw [Source.consume_buffer, List.length_drop]
    omega

/-- A trailer section that is there is read if it is received whole or has no bare LF.  A value with
a bare LF passes only if the whole section is in the buffer, for the reader looks for a bare LF in
an incomplete line. -/
theorem readTrailers_complete {maxHeaderSize : ℕ} (headers : Headers) {fields : Headers}
    {trailers : List Bytes} {input : Input} {rest : Bytes}
    (hsection : TrailerSection maxHeaderSize trailers fields)
    (havail : input.available = lineBytes trailers ++ (crlf ++ rest))
    (hcut : Uncut trailers (lineBytes trailers ++ crlf) input) :
    ∃ after, readTrailers maxHeaderSize headers input = (none, headers ++ fields, after) ∧
      input.Took (lineBytes trailers ++ crlf) after := by
  have hgen : ∀ trailerBytes, TrailerSection (maxHeaderSize - trailerBytes) trailers fields →
      ∃ after, Loop.run (trailerStep maxHeaderSize) (fun s => s.input.available.length)
          (trailerStep_decreases maxHeaderSize) { trailerBytes, headers, input } =
          (none, headers ++ fields, after) ∧ input.Took (lineBytes trailers ++ crlf) after := by
    clear hsection
    intro trailerBytes hsection
    -- the induction is on the lines; what they have taken of the limit is carried along
    induction trailers generalizing trailerBytes headers fields input with
    | nil =>
      obtain ⟨hparse, -, hsize⟩ := hsection
      cases hparse
      rw [lineBytes_nil, List.length_nil] at hsize
      have hlen : ([] : Bytes).length ≤ maxHeaderSize := Nat.zero_le _
      have hempty : input.available = [] ++ (crlf ++ rest) := havail
      obtain ⟨after, hread, htook⟩ :=
        readLine_of_lineText hempty lineText_nil (Or.inl (by simp)) hlen
      refine ⟨after, ?_, htook⟩
      rw [List.append_nil]
      refine Loop.run_of_leave _ ?_
      -- the line that ends the section has no length, so the limit holds
      have hroom : ¬ (maxHeaderSize < ([] : Bytes).length ∨
          maxHeaderSize - ([] : Bytes).length < trailerBytes ∨
          maxHeaderSize - trailerBytes - ([] : Bytes).length < 2) := by
        rw [List.length_nil]
        omega
      simp only [trailerStep, hread, if_neg hroom]
      rfl
    | cons trailer trailers ih =>
      obtain ⟨hparse, hlines, hsize⟩ := hsection
      cases hparse with
      | @cons _ field _ fields hfield hparse =>
      have hword : lineBytes (trailer :: trailers) ++ crlf =
          (trailer ++ crlf) ++ (lineBytes trailers ++ crlf) := by simp
      rw [lineBytes_cons, List.length_append, List.length_append, crlf_length] at hsize
      have hcut' : lf ∉ trailer ∨ trailer.length + 2 ≤ input.buffer.length := by
        rcases hcut with hlf | hlen
        · exact Or.inl (hlf trailer List.mem_cons_self)
        · refine Or.inr (le_trans ?_ hlen)
          rw [hword, List.length_append, List.length_append, crlf_length]
          omega
      have hfirst : input.available = trailer ++ (crlf ++ (lineBytes trailers ++ (crlf ++ rest))) := by
        simpa using havail
      obtain ⟨middle, hstep, htook⟩ := @trailerStep_line maxHeaderSize trailerBytes headers input
        trailer _ field hfield (hlines trailer List.mem_cons_self) (by omega) hfirst hcut'
      have hmiddle : middle.available = lineBytes trailers ++ (crlf ++ rest) := by
        have := htook.available.symm.trans havail
        simpa using this
      rw [hword] at hcut ⊢
      obtain ⟨after, hrun, htook'⟩ := @ih (headers ++ [field]) fields middle hmiddle
        (hcut.tail htook) (trailerBytes + (trailer.length + 2))
        ⟨hparse, fun line hline => hlines line (List.mem_cons_of_mem _ hline), by omega⟩
      refine ⟨after, ?_, htook.trans htook'⟩
      rw [Loop.run_of_again _ hstep, hrun, List.append_assoc, List.singleton_append]
  exact hgen 0 hsection

/-- If the received bytes end with a bare LF inside a trailer line, the section is rejected. -/
theorem readTrailers_bareLf {maxHeaderSize : ℕ} (headers : Headers) {fields : Headers}
    {before : List Bytes} {line : Bytes} {input : Input}
    (hparse : List.Forall₂ (fun trailer field => trailerOf trailer = .ok field) before fields)
    (hlines : ∀ trailer ∈ before, LineText trailer)
    (hsize : (lineBytes before).length ≤ maxHeaderSize) (hline : LineText (line ++ [lf]))
    (hbuffer : input.buffer = lineBytes before ++ (line ++ [lf])) :
    (readTrailers maxHeaderSize headers input).1 =
      some (protocolError "Bare LF in HTTP message") := by
  have hgen : ∀ trailerBytes, trailerBytes + (lineBytes before).length ≤ maxHeaderSize →
      (Loop.run (trailerStep maxHeaderSize) (fun s => s.input.available.length)
          (trailerStep_decreases maxHeaderSize) { trailerBytes, headers, input }).1 =
        some (protocolError "Bare LF in HTTP message") := by
    clear hsize
    intro trailerBytes hsize
    induction hparse generalizing trailerBytes headers input with
    | nil =>
      rw [lineBytes_nil, List.nil_append] at hbuffer
      have hread : readLine maxHeaderSize input =
          (.error (protocolError "Bare LF in HTTP message"), input) :=
        readLine_bareLf (hbuffer ▸ hline) (by rw [hbuffer]; simp)
      rw [Loop.run_of_leave (a := (some (protocolError "Bare LF in HTTP message"), headers, input))]
      simp only [trailerStep, hread]
    | @cons trailer field before fields hfield hparse ih =>
      rw [lineBytes_cons, List.length_append, List.length_append, crlf_length] at hsize
      rw [lineBytes_cons, List.append_assoc, List.append_assoc] at hbuffer
      have havail : input.available = trailer ++ (crlf ++
          ((lineBytes before ++ (line ++ [lf])) ++ arriving input.reads)) := by
        rw [Source.available, hbuffer]
        simp
      have hwhole : trailer.length + 2 ≤ input.buffer.length := by
        rw [hbuffer]
        simp only [List.length_append, crlf_length]
        omega
      obtain ⟨middle, hstep, htook⟩ := @trailerStep_line maxHeaderSize trailerBytes headers input
        trailer _ field hfield (hlines trailer List.mem_cons_self) (by omega) havail
        (Or.inr hwhole)
      obtain rfl := htook.buffered (by rw [List.length_append, crlf_length]; exact hwhole)
      rw [Loop.run_of_again _ hstep]
      refine ih (headers ++ [field]) (fun t ht => hlines t (List.mem_cons_of_mem _ ht)) ?_
        (trailerBytes + (trailer.length + 2)) (by omega)
      rw [Source.consume_buffer, hbuffer, List.length_append, crlf_length, drop_line]
  exact hgen 0 (by omega)

/-! ### The loop over the chunks -/

/-- The state of the loop over the chunks.  Trailers are appended to the fields of the head as they
are read. -/
structure ChunkState where
  headers : Headers
  input : Input
  delivery : Delivery

/-- What a body reader returns: the body, the fields of the head with the trailers, and what is
left of the input and was delivered, on errors too. -/
structure BodyRead where
  result : Result Bytes
  headers : Headers
  input : Input
  delivery : Delivery

/-- One iteration of the loop over the chunks. -/
def chunkStep (options : HttpReadOptions) (s : ChunkState) : Loop.Next ChunkState BodyRead :=
  match readChunkSize s.input with
  | (.error e, input) => .leave { s with result := .error e, input }
  | (.ok size, input) =>
    if size = 0 then
      match readTrailers options.maxHeaderSize s.headers input with
      | (some e, headers, input) => .leave { s with result := .error e, headers, input }
      | (none, headers, input) => .leave { s with result := .ok s.delivery.body, headers, input }
    else if options.maxBodySize < size ∨ options.maxBodySize - size < s.delivery.received then
      let e : ErrorInfo :=
        { code := .bodyTooLarge, message := "Chunked HTTP body exceeds configured limit" }
      .leave { s with result := .error e, input }
    else
      match readPayload options none "Unexpected end of HTTP chunk"
          { remaining := size, input, delivery := s.delivery } with
      | (some e, input, delivery) => .leave { s with result := .error e, input, delivery }
      | (none, input, delivery) =>
        match readChunkEnd input with
        | (some e, input) => .leave { s with result := .error e, input, delivery }
        | (none, input) => .again { s with input, delivery }

/-- A loop iteration that repeats has consumed one chunk. -/
lemma chunkStep_again {options : HttpReadOptions} {s s' : ChunkState}
    (h : chunkStep options s = .again s') :
    ∃ line data, SizeLine line data.length ∧ data ≠ [] ∧
      s.delivery.received + data.length ≤ options.maxBodySize ∧
      s.input.Took (line ++ (crlf ++ (data ++ crlf))) s'.input ∧
      Delivered options s.delivery data s'.delivery ∧ s'.headers = s.headers := by
  unfold chunkStep at h
  split at h
  · cases h
  · rename_i size input hsize
    split_ifs at h with hzero hlimit
    · split at h <;> cases h
    · split at h
      · cases h
      · rename_i input' delivery hpayload
        split at h
        · cases h
        · rename_i input'' hend
          cases h
          obtain ⟨line, hline, htook⟩ := readChunkSize_sound hsize
          obtain ⟨data, hlen, htook', hdel⟩ := readPayload_sound hpayload
          simp only at hlen htook' hdel
          refine ⟨line, data, hlen ▸ hline, ?_, by omega, ?_, hdel, rfl⟩
          · rintro rfl
            exact hzero (by simpa using hlen.symm)
          · have := (htook.trans htook').trans (readChunkEnd_sound hend)
            simpa using this

/-- Every chunk shortens what there is to read. -/
lemma chunkStep_decreases (options : HttpReadOptions) :
    Loop.Decreases (chunkStep options) fun s => s.input.available.length := by
  intro s s' h
  obtain ⟨line, data, -, -, -, htook, -, -⟩ := chunkStep_again h
  have := htook.length
  simp only [List.length_append, crlf_length] at this
  simp only
  omega

/-- The loop over the chunks and the trailer section. -/
def readChunked (options : HttpReadOptions) (s : ChunkState) : BodyRead :=
  Loop.run (chunkStep options) (fun s => s.input.available.length) (chunkStep_decreases options) s

/-- A chunked body: chunks as pairs of a size line and data, the last size line, and the trailer
lines. -/
structure ChunkedFrame where
  chunks : List (Bytes × Bytes)
  last : Bytes
  trailers : List Bytes

namespace ChunkedFrame

/-- The bytes of a chunk. -/
def encodeChunk (chunk : Bytes × Bytes) : Bytes := chunk.1 ++ (crlf ++ (chunk.2 ++ crlf))

/-- The bytes of a chunked body. -/
def encode (frame : ChunkedFrame) : Bytes :=
  frame.chunks.flatMap encodeChunk ++ (frame.last ++ (crlf ++ (lineBytes frame.trailers ++ crlf)))

/-- The data of a chunked body. -/
def payload (frame : ChunkedFrame) : Bytes := frame.chunks.flatMap Prod.snd

/-- A well-formed frame with the trailer fields it denotes.  The chunks have data, the last size
line says zero, and the trailers are a section within the limit of heads. -/
structure Valid (maxHeaderSize : ℕ) (frame : ChunkedFrame) (fields : Headers) : Prop where
  chunks : ∀ chunk ∈ frame.chunks, SizeLine chunk.1 chunk.2.length ∧ chunk.2 ≠ []
  last : SizeLine frame.last 0
  trailers : TrailerSection maxHeaderSize frame.trailers fields

end ChunkedFrame

/-- What a successful run of the chunk loop has done: it consumed one frame and delivered its
data. -/
structure ChunkedTaken (options : HttpReadOptions) (s : ChunkState) (frame : ChunkedFrame)
    (fields : Headers) (r : BodyRead) : Prop where
  valid : frame.Valid options.maxHeaderSize fields
  headers : r.headers = s.headers ++ fields
  took : s.input.Took frame.encode r.input
  delivered : Delivered options s.delivery frame.payload r.delivery
  result : r.result = .ok r.delivery.body

/-- A successful run of the chunk loop consumes exactly one frame.  Nothing behind the frame is
consumed, and what was delivered is the data of its chunks in order. -/
theorem readChunked_sound {options : HttpReadOptions} {s : ChunkState} {body : Bytes}
    (h : (readChunked options s).result = .ok body) :
    ∃ frame fields, ChunkedTaken options s frame fields (readChunked options s) := by
  let Post : ChunkState → BodyRead → Prop := fun s r =>
    ∀ body, r.result = .ok body → ∃ frame fields, ChunkedTaken options s frame fields r
  have hrun : Post s (readChunked options s) := by
    refine Loop.run_induct (chunkStep_decreases options) ?_ ?_ s
    · intro s r hb body hr
      unfold chunkStep at hb
      split at hb
      · cases hb
        cases hr
      · rename_i size input hsize
        split_ifs at hb with hzero hlimit
        · obtain ⟨line, hline, htook⟩ := readChunkSize_sound hsize
          subst hzero
          split at hb
          · cases hb
            cases hr
          · rename_i headers input' htrailers
            cases hb
            obtain ⟨trailers, fields, hsection, hheaders, htook'⟩ := readTrailers_sound htrailers
            refine ⟨⟨[], line, trailers⟩, fields, ⟨by simp, hline, hsection⟩, hheaders, ?_,
              Delivered.refl _ _, rfl⟩
            have := htook.trans htook'
            simpa [ChunkedFrame.encode] using this
        · cases hb
          cases hr
        · split at hb
          · cases hb
            cases hr
          · split at hb
            · cases hb
              cases hr
            · cases hb
    · intro s s' r hb ih body hr
      obtain ⟨line, data, hline, hne, -, htook, hdel, hheaders⟩ := chunkStep_again hb
      obtain ⟨⟨chunks, last, trailers⟩, fields, hvalid, hheaders', htook', hdel', hresult⟩ :=
        ih body hr
      refine ⟨⟨(line, data) :: chunks, last, trailers⟩, fields, ⟨?_, hvalid.last,
        hvalid.trailers⟩, by rw [hheaders', hheaders], ?_, ?_, hresult⟩
      · simpa using ⟨⟨hline, hne⟩, fun a b hab => hvalid.chunks (a, b) hab⟩
      · have := htook.trans htook'
        simpa [ChunkedFrame.encode, ChunkedFrame.encodeChunk] using this
      · have := hdel.trans hdel'
        simpa [ChunkedFrame.payload] using this
  exact hrun body h

/-- Without callbacks and within the limit, a chunk that is there is consumed. -/
lemma chunkStep_chunk {options : HttpReadOptions} (hbuf : options.Buffered) {s : ChunkState}
    {line data rest : Bytes} (hline : SizeLine line data.length) (hne : data ≠ [])
    (havail : s.input.available = ChunkedFrame.encodeChunk (line, data) ++ rest)
    (hlimit : s.delivery.received + data.length ≤ options.maxBodySize) :
    ∃ input d, chunkStep options s = .again { s with input, delivery := d } ∧
      s.input.Took (ChunkedFrame.encodeChunk (line, data)) input ∧
      Delivered options s.delivery data d := by
  have h1 : s.input.available = line ++ (crlf ++ (data ++ (crlf ++ rest))) := by
    simpa [ChunkedFrame.encodeChunk] using havail
  obtain ⟨input1, hread1, htook1⟩ := readChunkSize_complete h1 hline
  have h2 : input1.available = data ++ (crlf ++ rest) := by
    have := htook1.available.symm.trans h1
    simpa using this
  obtain ⟨input2, d, hread2, htook2, hdel⟩ :=
    @readPayload_complete options hbuf none "Unexpected end of HTTP chunk"
      ⟨data.length, input1, s.delivery⟩ data _ h2 rfl hlimit
  have h3 : input2.available = crlf ++ rest := by
    have := htook2.available.symm.trans h2
    simpa using this
  obtain ⟨input3, hread3, htook3⟩ := readChunkEnd_complete h3
  refine ⟨input3, d, ?_, ?_, hdel⟩
  · have hzero : data.length ≠ 0 := by simpa using hne
    simp only [chunkStep, hread1, if_neg hzero, hread2, hread3]
    rw [if_neg (by omega)]
  · have := (htook1.trans htook2).trans htook3
    simpa [ChunkedFrame.encodeChunk] using this

/-- A frame whose trailer lines have no bare LF may arrive in any cuts; every frame may arrive
whole.  Without callbacks and within the limits, it is read. -/
theorem readChunked_complete {options : HttpReadOptions} (hbuf : options.Buffered)
    {frame : ChunkedFrame} {fields : Headers} {s : ChunkState} {rest : Bytes}
    (hvalid : frame.Valid options.maxHeaderSize fields)
    (havail : s.input.available = frame.encode ++ rest)
    (hcut : Uncut frame.trailers frame.encode s.input)
    (hlimit : s.delivery.received + frame.payload.length ≤ options.maxBodySize) :
    ChunkedTaken options s frame fields (readChunked options s) := by
  obtain ⟨chunks, last, trailers⟩ := frame
  induction chunks generalizing s with
  | nil =>
    have hbytes : (⟨[], last, trailers⟩ : ChunkedFrame).encode =
        (last ++ crlf) ++ (lineBytes trailers ++ crlf) := by simp [ChunkedFrame.encode]
    rw [hbytes] at havail hcut
    have hlast : s.input.available = last ++ (crlf ++ (lineBytes trailers ++ (crlf ++ rest))) := by
      simpa using havail
    obtain ⟨input, hread, htook⟩ := readChunkSize_complete hlast hvalid.last
    have hafter : input.available = lineBytes trailers ++ (crlf ++ rest) := by
      have := htook.available.symm.trans hlast
      simpa using this
    obtain ⟨after, htrailers, htook'⟩ :=
      readTrailers_complete s.headers hvalid.trailers hafter (hcut.drop htook)
    have hrun : readChunked options s =
        { s with result := .ok s.delivery.body, headers := s.headers ++ fields, input := after } := by
      refine Loop.run_of_leave _ ?_
      simp only [chunkStep, hread, htrailers, if_true]
    rw [hrun]
    exact ⟨hvalid, rfl, hbytes ▸ htook.trans htook', Delivered.refl _ _, rfl⟩
  | cons chunk chunks ih =>
    obtain ⟨line, data⟩ := chunk
    obtain ⟨hline, hne⟩ : SizeLine line data.length ∧ data ≠ [] :=
      hvalid.chunks (line, data) List.mem_cons_self
    have hbytes : (⟨(line, data) :: chunks, last, trailers⟩ : ChunkedFrame).encode =
        ChunkedFrame.encodeChunk (line, data) ++ (⟨chunks, last, trailers⟩ : ChunkedFrame).encode := by
      simp [ChunkedFrame.encode]
    have hpayload : (⟨(line, data) :: chunks, last, trailers⟩ : ChunkedFrame).payload =
        data ++ (⟨chunks, last, trailers⟩ : ChunkedFrame).payload := by
      simp [ChunkedFrame.payload]
    rw [hbytes] at havail hcut
    rw [hpayload, List.length_append] at hlimit
    rw [List.append_assoc] at havail
    obtain ⟨input, d, hstep, htook, hdel⟩ := chunkStep_chunk hbuf hline hne havail (by omega)
    have hreceived := hdel.received
    have hrest := List.append_cancel_left (htook.available.symm.trans havail)
    obtain ⟨-, hheaders, htook', hdel', hresult⟩ := @ih { s with input, delivery := d }
      ⟨fun c hc => hvalid.chunks c (List.mem_cons_of_mem _ hc), hvalid.last, hvalid.trailers⟩
      hrest (hcut.drop htook) (by simp only; omega)
    have hrun : readChunked options s = readChunked options { s with input, delivery := d } :=
      Loop.run_of_again _ hstep
    rw [hrun]
    exact ⟨hvalid, hheaders, hbytes ▸ htook.trans htook', hpayload ▸ hdel.trans hdel', hresult⟩

/-- A text before which a line has not ended is a line text up to any of its bytes. -/
lemma lineText_of_append {line rest : Bytes} (h : LineText (line ++ rest)) : LineText line := by
  rw [LineText, ← Option.not_isSome_iff_eq_none]
  intro hsome
  obtain ⟨n, hn⟩ := Option.isSome_iff_exists.mp hsome
  have := find_append_of_some hn rest
  rw [h] at this
  cases this

/-- A last chunk behind which a trailer line has been cut at a bare LF is refused. -/
lemma chunkStep_bareLf {options : HttpReadOptions} {s : ChunkState} {before : List Bytes}
    {last line : Bytes} {fields : Headers} (hlast : SizeLine last 0)
    (hparse : List.Forall₂ (fun trailer field => trailerOf trailer = .ok field) before fields)
    (hlines : ∀ t ∈ before, LineText t) (hline : LineText (line ++ [lf]))
    (hsize : (lineBytes before).length ≤ options.maxHeaderSize)
    (hbuffer : s.input.buffer = last ++ (crlf ++ (lineBytes before ++ (line ++ [lf])))) :
    ∃ r, chunkStep options s = .leave r ∧
      r.result = .error (protocolError "Bare LF in HTTP message") := by
  have havail : s.input.available = last ++ (crlf ++
      ((lineBytes before ++ (line ++ [lf])) ++ arriving s.input.reads)) := by
    rw [Source.available, hbuffer]
    simp
  obtain ⟨input, hread, htook⟩ := readChunkSize_complete havail hlast
  obtain rfl := htook.buffered (by
    rw [hbuffer]
    simp only [List.length_append, crlf_length]
    omega)
  have hbuffer' : (s.input.consume (last ++ crlf).length).buffer =
      lineBytes before ++ (line ++ [lf]) := by
    rw [Source.consume_buffer, hbuffer, List.length_append, crlf_length, drop_line]
  have herror := readTrailers_bareLf s.headers hparse hlines hsize hline hbuffer'
  rcases ht : readTrailers options.maxHeaderSize s.headers
    (s.input.consume (last ++ crlf).length) with ⟨e, headers, input⟩
  rw [ht] at herror
  cases herror
  refine ⟨{ s with result := .error _, headers, input }, ?_, rfl⟩
  simp only [chunkStep, hread, if_true, ht]

/-- If the received bytes end with a bare LF inside a trailer line, the body is rejected. -/
theorem readChunked_bareLf {options : HttpReadOptions} (hbuf : options.Buffered)
    {frame : ChunkedFrame} {fields : Headers} {s : ChunkState} {before after : List Bytes}
    {line rest : Bytes} (hvalid : frame.Valid options.maxHeaderSize fields)
    (htrailers : frame.trailers = before ++ (line ++ lf :: rest) :: after)
    (hbuffer : s.input.buffer = frame.chunks.flatMap ChunkedFrame.encodeChunk ++
      (frame.last ++ (crlf ++ (lineBytes before ++ (line ++ [lf])))))
    (hlimit : s.delivery.received + frame.payload.length ≤ options.maxBodySize) :
    (readChunked options s).result = .error (protocolError "Bare LF in HTTP message") := by
  obtain ⟨chunks, last, trailers⟩ := frame
  simp only at htrailers
  subst htrailers
  -- the chunks before the trailers are whole in the buffer, so they are read without the
  -- transport; then the search of the line meets the bare LF
  induction chunks generalizing s with
  | nil =>
    rw [List.flatMap_nil, List.nil_append] at hbuffer
    obtain ⟨hparse, hlines, hsize⟩ := hvalid.trailers
    have hparse' := List.forall₂_take before.length hparse
    rw [List.take_left] at hparse'
    have hline : LineText (line ++ [lf]) := by
      refine @lineText_of_append _ rest ?_
      simpa using hlines (line ++ lf :: rest) (by simp)
    have hsize' : (lineBytes before).length ≤ options.maxHeaderSize := by
      simp only [lineBytes_append, List.length_append] at hsize
      omega
    obtain ⟨r, hstep, hr⟩ := chunkStep_bareLf hvalid.last hparse'
      (fun t ht => hlines t (List.mem_append_left _ ht)) hline hsize' hbuffer
    have hrun : readChunked options s = r := Loop.run_of_leave _ hstep
    rw [hrun, hr]
  | cons chunk chunks ih =>
    obtain ⟨cline, data⟩ := chunk
    obtain ⟨hcline, hne⟩ : SizeLine cline data.length ∧ data ≠ [] :=
      hvalid.chunks (cline, data) List.mem_cons_self
    rw [List.flatMap_cons, List.append_assoc] at hbuffer
    have hlimit' : s.delivery.received + (data.length +
        (⟨chunks, last, before ++ (line ++ lf :: rest) :: after⟩ : ChunkedFrame).payload.length) ≤
          options.maxBodySize := by
      simpa [ChunkedFrame.payload] using hlimit
    have havail : s.input.available = ChunkedFrame.encodeChunk (cline, data) ++
        ((chunks.flatMap ChunkedFrame.encodeChunk ++
          (last ++ (crlf ++ (lineBytes before ++ (line ++ [lf]))))) ++ arriving s.input.reads) := by
      rw [Source.available, hbuffer]
      simp
    obtain ⟨input, d, hstep, htook, hdel⟩ := chunkStep_chunk hbuf hcline hne havail (by omega)
    obtain rfl := htook.buffered (by
      rw [hbuffer, List.length_append]
      omega)
    have hreceived := hdel.received
    have hrun : readChunked options s = readChunked options { s with
        input := s.input.consume (ChunkedFrame.encodeChunk (cline, data)).length, delivery := d } :=
      Loop.run_of_again _ hstep
    rw [hrun]
    refine ih ⟨fun c hc => hvalid.chunks c (List.mem_cons_of_mem _ hc), hvalid.last,
      hvalid.trailers⟩ ?_ (by simp only; omega)
    simp only [Source.consume_buffer]
    rw [hbuffer, List.drop_left]

end Chhttp
