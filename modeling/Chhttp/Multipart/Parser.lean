import Chhttp.Multipart.Head

/-!
# The incremental multipart parser

`MultipartParser` is the state of `MultipartParser::Impl`, with the events of the current call of
`feed`.  `parseStep` is one iteration of the loop of `parse_available`, one definition for each state
of the parser; a `continue` of the source is `.again`, a `break` or a `return` is `.leave`, and an
iteration that reaches the end of the loop goes through `progress`.
-/

namespace Chhttp.Multipart

/-- `MultipartParserOptions`, with its defaults. -/
structure MultipartParserOptions where
  maxParts : ℕ := 1024
  maxHeaderSize : ℕ := 64 * 1024
  maxPartSize : ℕ := 128 * 1024 * 1024
  maxTotalSize : ℕ := 128 * 1024 * 1024

/-- `MultipartEventType`. -/
inductive MultipartEventType where
  | partBegin | partData | partEnd
  deriving DecidableEq

/-- `MultipartEvent`: the head of a part, a piece of its content, or its end, with the index of the
part. -/
structure MultipartEvent where
  type : MultipartEventType := .partData
  partIndex : ℕ := 0
  part : MultipartPart := {}
  data : Bytes := []
  deriving DecidableEq

/-- `MultipartParser::Impl::State`: what the parser expects next in its buffer. -/
inductive State where
  | firstBoundary | headers | body | boundarySuffix | complete
  deriving DecidableEq

/-- `MultipartParser::Impl`.  `searchFrom` spares the next call the part of the buffer in which
there is no delimiter, and `events` are those of the current call. -/
structure MultipartParser where
  options : MultipartParserOptions
  error : Option ErrorInfo := none
  state : State := .firstBoundary
  boundary : Bytes := []
  firstMarker : Bytes := []
  delimiter : Bytes := []
  buffer : Bytes := []
  searchFrom : ℕ := 0
  current : MultipartPart := {}
  partCount : ℕ := 0
  currentSize : ℕ := 0
  totalSize : ℕ := 0
  events : List MultipartEvent := []

namespace MultipartParser

/-- A new parser. -/
def create (contentType : Bytes) (options : MultipartParserOptions) : MultipartParser :=
  match multipartBoundary contentType with
  | .error e => { options, error := some e }
  | .ok boundary =>
    { options, boundary, firstMarker := dashes ++ boundary
      delimiter := crlf ++ (dashes ++ boundary) }

/-- `fail`. -/
def fail (s : MultipartParser) (message : String) : MultipartParser :=
  { s with error := some (multipartError message), buffer := [] }

/-- `emit_data`: whether the data is within the limits, and the parser after that. -/
def emitData (s : MultipartParser) (count : ℕ) : Bool × MultipartParser :=
  if count = 0 then (true, s)
  else if s.options.maxPartSize < count ∨ s.options.maxPartSize - count < s.currentSize then
    (false,
      { s with error := some ⟨.bodyTooLarge, "Multipart part exceeds configured limit", none⟩ })
  else if s.options.maxTotalSize < count ∨ s.options.maxTotalSize - count < s.totalSize then
    (false,
      { s with error := some ⟨.bodyTooLarge, "Multipart data exceeds configured limit", none⟩ })
  else
    let event : MultipartEvent :=
      { type := .partData, partIndex := s.partCount - 1, data := s.buffer.take count }
    (true,
      { s with
        currentSize := s.currentSize + count, totalSize := s.totalSize + count
        events := s.events ++ [event] })

/-- The end of an iteration, which leaves the loop if nothing has changed. -/
def progress (s t : MultipartParser) : Loop.Next MultipartParser MultipartParser :=
  if s.buffer.length = t.buffer.length ∧ s.state = t.state then .leave t else .again t

/-- The search for a marker at the start of a line.  Nothing is found beyond the end of the buffer. -/
def lineStartStep (marker buffer : Bytes) (start : ℕ) : Loop.Next ℕ (Option ℕ) :=
  if buffer.length < start then .leave none
  else
    match ListSearch.findFrom marker buffer start with
    | none => .leave none
    | some position =>
      if position ≠ 0 ∧ (position < 2 ∨ (buffer.drop (position - 2)).take 2 ≠ crlf) then
        .again (position + 1)
      else .leave (some position)

/-- Every search starts behind the one before. -/
lemma lineStartStep_decreases (marker buffer : Bytes) :
    Loop.Decreases (lineStartStep marker buffer) fun start => buffer.length + 1 - start := by
  intro start next h
  unfold lineStartStep at h
  split_ifs at h with hend
  split at h
  · cases h
  · rename_i position hfind
    have := ListSearch.findFrom_bounds (by omega) hfind
    split_ifs at h
    cases h
    dsimp only
    omega

/-- The position of the first marker at the start of a line, from `start` on. -/
def findLineStart (marker buffer : Bytes) (start : ℕ) : Option ℕ :=
  Loop.run (lineStartStep marker buffer) _ (lineStartStep_decreases marker buffer) start

/-- A line starts at `m`. -/
def LineStart (buffer : Bytes) (m : ℕ) : Prop :=
  m = 0 ∨ (2 ≤ m ∧ (buffer.drop (m - 2)).take 2 = crlf)

/-- The search stops at the first marker at the start of a line. -/
lemma findLineStart_spec (marker buffer : Bytes) (start : ℕ) :
    match findLineStart marker buffer start with
    | none => ∀ m ≤ buffer.length, start ≤ m → marker <+: buffer.drop m → ¬LineStart buffer m
    | some position => start ≤ position ∧ position + marker.length ≤ buffer.length ∧
        marker <+: buffer.drop position ∧ LineStart buffer position ∧
        ∀ m < position, start ≤ m → marker <+: buffer.drop m → ¬LineStart buffer m := by
  refine Loop.run_induct (lineStartStep_decreases marker buffer)
    (P := fun start found => match found with
      | none => ∀ m ≤ buffer.length, start ≤ m → marker <+: buffer.drop m → ¬LineStart buffer m
      | some position => start ≤ position ∧ position + marker.length ≤ buffer.length ∧
          marker <+: buffer.drop position ∧ LineStart buffer position ∧
          ∀ m < position, start ≤ m → marker <+: buffer.drop m → ¬LineStart buffer m) ?_ ?_ start
  · intro start found h
    unfold lineStartStep at h
    split_ifs at h with hend
    · cases h
      exact fun m hm hstart => absurd (hstart.trans hm) (by omega)
    split at h
    · rename_i hfind
      cases h
      intro m hm hstart hpre
      exact absurd hpre ((ListSearch.findFrom_eq_none_iff (by omega)).mp hfind m hstart hm)
    · rename_i position hfind
      split_ifs at h with hinner
      cases h
      obtain ⟨hge, hle, hpre, hfirst⟩ := (ListSearch.findFrom_eq_some_iff (by omega)).mp hfind
      refine ⟨hge, (ListSearch.findFrom_bounds (by omega) hfind).2, hpre, ?_, ?_⟩
      · by_cases hzero : position = 0
        · exact .inl hzero
        · exact .inr ⟨by omega, by by_contra hline; exact hinner ⟨hzero, .inr hline⟩⟩
      · exact fun m hm hstart hpre' _ => hfirst m hstart hm hpre'
  · intro start next found h ih
    unfold lineStartStep at h
    split_ifs at h with hend
    split at h
    · cases h
    · rename_i position hfind
      split_ifs at h with hinner
      cases h
      obtain ⟨hstart, hle, hpre, hfirst⟩ := (ListSearch.findFrom_eq_some_iff (by omega)).mp hfind
      have hnot : ¬LineStart buffer position := by
        rintro (hzero | ⟨hlarge, hline⟩)
        · exact hinner.1 hzero
        · exact hinner.2.elim (by omega) fun h => h hline
      -- before the next search there is no marker at the start of a line
      have hskip : ∀ m, start ≤ m → m < position + 1 → marker <+: buffer.drop m →
          ¬LineStart buffer m := by
        intro m hm hlt hpre'
        by_cases heq : m = position
        · exact heq ▸ hnot
        · exact absurd hpre' (hfirst m hm (by omega))
      cases found with
      | none =>
        intro m hm hstart' hpre'
        by_cases hlt : m < position + 1
        · exact hskip m hstart' hlt hpre'
        · exact ih m hm (by omega) hpre'
      | some result =>
        obtain ⟨hresult, hfit, hpre', hline, hmin⟩ := ih
        refine ⟨by omega, hfit, hpre', hline, fun m hm hstart' hpre'' => ?_⟩
        by_cases hlt : m < position + 1
        · exact hskip m hstart' hlt hpre''
        · exact hmin m hm (by omega) hpre''

/-- The two bytes after a delimiter. -/
def validEnding (ending : Bytes) : Bool := ending == crlf || ending == dashes

/-- The preamble. -/
def stepFirstBoundary (s : MultipartParser) : Loop.Next MultipartParser MultipartParser :=
  match findLineStart s.firstMarker s.buffer s.searchFrom with
  | none =>
    let keep := s.firstMarker.length + 2
    if s.options.maxHeaderSize < s.buffer.length ∧
        keep < s.buffer.length - s.options.maxHeaderSize then
      .leave (s.fail "Multipart preamble exceeds configured limit")
    else
      .leave { s with
        searchFrom := if s.firstMarker.length ≤ s.buffer.length then
          s.buffer.length - s.firstMarker.length + 1 else 0 }
  | some position =>
    if s.options.maxHeaderSize < position then
      .leave (s.fail "Multipart preamble exceeds configured limit")
    else
      let suffix := position + s.firstMarker.length
      if s.buffer.length < suffix + 2 then .leave { s with searchFrom := position }
      else if !validEnding ((s.buffer.drop suffix).take 2) then
        -- the preamble keeps its origin, for the starts of lines and for its limit
        .again { s with searchFrom := position + 1 }
      else
        progress s
          { s with buffer := s.buffer.drop suffix, searchFrom := 0, state := .boundarySuffix }

/-- What follows a delimiter. -/
def stepBoundarySuffix (s : MultipartParser) : Loop.Next MultipartParser MultipartParser :=
  if s.buffer.length < 2 then .leave s
  else if dashes.isPrefixOf s.buffer then
    progress s { s with buffer := s.buffer.drop 2, state := .complete }
  else if crlf.isPrefixOf s.buffer then
    progress s { s with buffer := s.buffer.drop 2, state := .headers }
  else .leave (s.fail "Malformed multipart delimiter suffix")

/-- The head of a part. -/
def stepHeaders (s : MultipartParser) : Loop.Next MultipartParser MultipartParser :=
  match ListSearch.findFrom crlfCrlf s.buffer s.searchFrom with
  | none =>
    if s.options.maxHeaderSize < s.buffer.length ∧
        3 < s.buffer.length - s.options.maxHeaderSize then
      .leave (s.fail "Multipart part headers exceed configured limit")
    else .leave { s with searchFrom := if 3 < s.buffer.length then s.buffer.length - 3 else 0 }
  | some headEnd =>
    if s.options.maxHeaderSize < headEnd then
      .leave (s.fail "Multipart part headers exceed configured limit")
    else
      match parsePartHead (s.buffer.take headEnd) with
      | .error e => .leave (s.fail e.message)
      | .ok parsed =>
        if s.options.maxParts ≤ s.partCount then .leave (s.fail "Too many multipart parts")
        else
          let event : MultipartEvent := { type := .partBegin, partIndex := s.partCount, part := parsed }
          progress s
            { s with
              current := parsed, currentSize := 0, events := s.events ++ [event]
              partCount := s.partCount + 1, buffer := s.buffer.drop (headEnd + 4), searchFrom := 0
              state := .body }

/-- The content of a part. -/
def stepBody (s : MultipartParser) : Loop.Next MultipartParser MultipartParser :=
  match ListSearch.find s.delimiter s.buffer with
  | some position =>
    let suffix := position + s.delimiter.length
    if s.buffer.length < suffix + 2 then
      match s.emitData position with
      | (false, s) => .leave s
      | (true, s) => .leave { s with buffer := s.buffer.drop position }
    else if !validEnding ((s.buffer.drop suffix).take 2) then
      match s.emitData (position + 2) with
      | (false, s) => .leave s
      | (true, s) => .again { s with buffer := s.buffer.drop (position + 2) }
    else
      match s.emitData position with
      | (false, s) => .leave s
      | (true, t) =>
        let event : MultipartEvent :=
          { type := .partEnd, partIndex := t.partCount - 1, part := t.current }
        progress s
          { t with
            events := t.events ++ [event], buffer := t.buffer.drop suffix, state := .boundarySuffix }
  | none =>
    let keep := s.delimiter.length + 1
    if s.buffer.length ≤ keep then .leave s
    else
      match s.emitData (s.buffer.length - keep) with
      | (false, s) => .leave s
      | (true, t) => progress s { t with buffer := t.buffer.drop (s.buffer.length - keep) }

/-- One iteration of the loop of `parse_available`. -/
def parseStep (s : MultipartParser) : Loop.Next MultipartParser MultipartParser :=
  match s.state with
  | .firstBoundary => stepFirstBoundary s
  | .boundarySuffix => stepBoundarySuffix s
  | .headers => stepHeaders s
  | .body => stepBody s
  | .complete => .leave { s with buffer := [] }

/-- What the loop of `parse_available` has not searched yet; the odd numbers are for a change of the
state without a byte. -/
def unsearched (s : MultipartParser) : ℕ :=
  match s.state with
  | .firstBoundary => 2 * (s.buffer.length - s.searchFrom) + 1
  | .headers => 2 * (s.buffer.length - s.searchFrom) + 1
  | .body => 2 * s.buffer.length + 1
  | _ => 2 * s.buffer.length

/-- An iteration that changes something goes on. -/
lemma eq_of_progress {s t u : MultipartParser} (h : progress s t = .again u) : u = t := by
  unfold progress at h
  split_ifs at h
  cases h
  rfl

/-- Emitting data leaves the buffer and the state. -/
lemma emitData_kept {s t : MultipartParser} {count : ℕ} {emitted : Bool}
    (h : s.emitData count = (emitted, t)) : t.buffer = s.buffer ∧ t.state = s.state := by
  unfold emitData at h
  split_ifs at h <;> cases h <;> exact ⟨rfl, rfl⟩

/-- Every iteration in a preamble goes on behind the candidate. -/
lemma stepFirstBoundary_decreases {s t : MultipartParser} (hstate : s.state = .firstBoundary)
    (h : stepFirstBoundary s = .again t) : t.unsearched < s.unsearched := by
  have hspec := findLineStart_spec s.firstMarker s.buffer s.searchFrom
  unfold stepFirstBoundary at h
  dsimp only at h
  split at h
  · split_ifs at h
  · rename_i position hfind
    rw [hfind] at hspec
    obtain ⟨hstart, hfit, -⟩ := hspec
    split_ifs at h with hlimit hshort hending
    · cases h
      simp only [unsearched, hstate]
      omega
    · rw [eq_of_progress h]
      simp only [unsearched, hstate, List.length_drop]
      omega

/-- Every iteration in a head consumes the head. -/
lemma stepHeaders_decreases {s t : MultipartParser} (hstate : s.state = .headers)
    (h : stepHeaders s = .again t) : t.unsearched < s.unsearched := by
  unfold stepHeaders at h
  split at h
  · split_ifs at h
  · rename_i headEnd hfind
    have hs := ListSearch.le_of_findFrom (by decide) hfind
    have hbounds := ListSearch.findFrom_bounds hs hfind
    have hlength : crlfCrlf.length = 4 := rfl
    by_cases hlimit : s.options.maxHeaderSize < headEnd
    · rw [if_pos hlimit] at h
      cases h
    rw [if_neg hlimit] at h
    split at h
    · cases h
    · split_ifs at h
      rw [eq_of_progress h]
      simp only [unsearched, hstate, List.length_drop]
      omega

/-- Every iteration in a content consumes some of it.  It is what makes the loop of `feed` end. -/
lemma stepBody_decreases {s t : MultipartParser} (hstate : s.state = .body)
    (h : stepBody s = .again t) : t.unsearched < s.unsearched := by
  unfold stepBody at h
  dsimp only at h
  split at h
  · rename_i position hfind
    have hfit := ListSearch.find_add_length_le hfind
    split_ifs at h with hshort hending
    · split at h <;> cases h
    · split at h
      · cases h
      · rename_i u hu
        obtain ⟨hbuffer, hstate'⟩ := emitData_kept hu
        cases h
        simp only [unsearched, hstate, hstate', hbuffer, List.length_drop]
        omega
    · split at h
      · cases h
      · rename_i u hu
        obtain ⟨hbuffer, -⟩ := emitData_kept hu
        rw [eq_of_progress h]
        simp only [unsearched, hstate, hbuffer, List.length_drop]
        omega
  · split_ifs at h with hkeep
    split at h
    · cases h
    · rename_i u hu
      obtain ⟨hbuffer, hstate'⟩ := emitData_kept hu
      rw [eq_of_progress h]
      simp only [unsearched, hstate, hstate', hbuffer, List.length_drop]
      omega

/-- Every iteration searches, or consumes, some bytes. -/
lemma parseStep_decreases : Loop.Decreases parseStep unsearched := by
  intro s t h
  unfold parseStep at h
  cases hstate : s.state with
  | firstBoundary =>
    rw [hstate] at h
    exact stepFirstBoundary_decreases hstate h
  | boundarySuffix =>
    rw [hstate] at h
    unfold stepBoundarySuffix at h
    dsimp only at h
    split_ifs at h with hshort hdashes hcrlf
    · rw [eq_of_progress h]
      simp only [unsearched, hstate, List.length_drop]
      omega
    · rw [eq_of_progress h]
      simp only [unsearched, hstate, List.length_drop]
      omega
  | headers =>
    rw [hstate] at h
    exact stepHeaders_decreases hstate h
  | body =>
    rw [hstate] at h
    exact stepBody_decreases hstate h
  | complete =>
    rw [hstate] at h
    cases h

/-- `parse_available`, which returns `error`. -/
def parseAvailable (s : MultipartParser) : MultipartParser :=
  Loop.run parseStep unsearched parseStep_decreases s

/-- The most bytes that `feed` puts into the buffer at once. -/
def pieceSize : ℕ := 64 * 1024

/-- One iteration of the loop of `feed`. -/
def feedStep : MultipartParser × Bytes → Loop.Next (MultipartParser × Bytes) MultipartParser
  | (s, input) =>
    if input.isEmpty ∨ s.state = .complete then .leave s
    else
      let s := parseAvailable { s with buffer := s.buffer ++ input.take pieceSize }
      if s.error.isSome then .leave s else .again (s, input.drop pieceSize)

/-- Every iteration takes some bytes. -/
lemma feedStep_decreases : Loop.Decreases feedStep fun v => v.2.length := by
  rintro ⟨s, input⟩ ⟨t, rest⟩ h
  unfold feedStep at h
  dsimp only at h
  split_ifs at h with hdone
  cases h
  have hne : input.length ≠ 0 := by
    intro hzero
    exact hdone (.inl (by simpa using hzero))
  have hsize : pieceSize = 65536 := rfl
  simp only [List.length_drop]
  omega

/-- The loop of `feed`, which starts without events. -/
def feedLoop (s : MultipartParser) (input : Bytes) : MultipartParser :=
  Loop.run feedStep (fun v => v.2.length) feedStep_decreases ({ s with events := [] }, input)

/-- `feed`. -/
def feed (s : MultipartParser) (input : Bytes) : Result (List MultipartEvent) × MultipartParser :=
  match s.error with
  | some e => (.error e, s)
  | none =>
    let s := s.feedLoop input
    match s.error with
    | some e => (.error e, s)
    | none => (.ok s.events, s)

/-- `finish`. -/
def finish (s : MultipartParser) : Result (List MultipartEvent) × MultipartParser :=
  match s.feed [] with
  | (.error e, s) => (.error e, s)
  | (.ok events, s) =>
    if s.state ≠ .complete then
      let s := s.fail "Multipart body has no complete closing delimiter"
      (.error (multipartError "Multipart body has no complete closing delimiter"), s)
    else (.ok events, s)

/-- A parser that is fed chunks until a call fails, and then finished: all events. -/
def parse (s : MultipartParser) : List Bytes → Result (List MultipartEvent)
  | [] => s.finish.1
  | chunk :: chunks =>
    match s.feed chunk with
    | (.error e, _) => .error e
    | (.ok events, s) => (parse s chunks).map (events ++ ·)

end MultipartParser

end Chhttp.Multipart
