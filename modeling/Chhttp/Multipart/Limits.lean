import Chhttp.Multipart.Parser

/-!
# What a multipart parser delivers and what it keeps

The events of all calls of `feed` that return no error are the events of some parts that are closed,
and of at most one that is not (`WellFormed`), within the limits of the options.  `Delivering` is the
invariant of the parser behind it: its counters are the sizes of what has been delivered, so they do
not exceed the limits either, and `emit_data` computes the same in 64 bits.

Between two calls the parser keeps what may still become the line of a boundary, or the head of a
part (`keptSize`, `parseAvailable_advances`).
-/

namespace Chhttp.Multipart

/-! ### Parts as events -/

/-- A part that has been delivered: its head, and its content in pieces.  How the content falls into
pieces is up to the chunks; only the sum of their lengths is limited. -/
structure DeliveredPart where
  part : MultipartPart
  pieces : List Bytes := []

namespace DeliveredPart

/-- The size of the content. -/
def size (p : DeliveredPart) : ℕ := (p.pieces.map List.length).sum

/-- The events of a part without its end. -/
def opening (p : DeliveredPart) (partIndex : ℕ) : List MultipartEvent :=
  { type := .partBegin, partIndex, part := p.part } ::
    p.pieces.map fun data => { type := .partData, partIndex, data }

/-- The events of a part. -/
def closed (p : DeliveredPart) (partIndex : ℕ) : List MultipartEvent :=
  p.opening partIndex ++ [{ type := .partEnd, partIndex, part := p.part }]

/-- One more piece. -/
def push (p : DeliveredPart) (data : Bytes) : DeliveredPart := { p with pieces := p.pieces ++ [data] }

/-- A piece adds its length. -/
@[simp] lemma size_push (p : DeliveredPart) (data : Bytes) :
    (p.push data).size = p.size + data.length := by
  simp [size, push]

/-- A piece adds its event. -/
lemma opening_push (p : DeliveredPart) (data : Bytes) (partIndex : ℕ) :
    (p.push data).opening partIndex =
      p.opening partIndex ++ [{ type := .partData, partIndex, data }] := by
  simp [opening, push]

end DeliveredPart

/-- The events of parts with consecutive indices. -/
def closedParts : ℕ → List DeliveredPart → List MultipartEvent
  | _, [] => []
  | first, p :: parts => p.closed first ++ closedParts (first + 1) parts

/-- One more part. -/
lemma closedParts_concat (first : ℕ) (parts : List DeliveredPart) (p : DeliveredPart) :
    closedParts first (parts ++ [p]) = closedParts first parts ++ p.closed (first + parts.length) := by
  induction parts generalizing first with
  | nil => simp [closedParts]
  | cons q parts ih =>
    rw [List.cons_append, closedParts, ih, closedParts, List.append_assoc, List.length_cons]
    congr 3
    omega

/-- The events of the parts that are closed, and of one that is not. -/
def partsEvents (parts : List DeliveredPart) : Option DeliveredPart → List MultipartEvent
  | none => closedParts 0 parts
  | some p => closedParts 0 parts ++ p.opening parts.length

/-- The sizes of all parts. -/
def contentSize (parts : List DeliveredPart) : ℕ := (parts.map DeliveredPart.size).sum

/-- Events that are those of parts within the limits; the last part may be unfinished.  The indices
of the events are those of the parts, no piece is empty, and the number and the sizes of the parts
are within the limits. -/
structure WellFormed (options : MultipartParserOptions) (events : List MultipartEvent)
    (parts : List DeliveredPart) (unfinished : Option DeliveredPart) : Prop where
  events : events = partsEvents parts unfinished
  pieces : ∀ p ∈ parts ++ unfinished.toList, [] ∉ p.pieces
  maxParts : (parts ++ unfinished.toList).length ≤ options.maxParts
  maxPartSize : ∀ p ∈ parts ++ unfinished.toList, p.size ≤ options.maxPartSize
  maxTotalSize : contentSize (parts ++ unfinished.toList) ≤ options.maxTotalSize

namespace MultipartParser

/-! ### The counters -/

/-- Addition in 64 bits. -/
def add64 (a b : ℕ) : ℕ := (a + b) % 2 ^ 64

/-- Subtraction in 64 bits. -/
def sub64 (a b : ℕ) : ℕ := (2 ^ 64 + a - b) % 2 ^ 64

/-- `emit_data` as the machine computes it.  The subtractions and additions wrap as those of
`std::uint64_t` do. -/
def emitData64 (s : MultipartParser) (count : ℕ) : Bool × MultipartParser :=
  if count = 0 then (true, s)
  else if s.options.maxPartSize < count ∨ sub64 s.options.maxPartSize count < s.currentSize then
    (false,
      { s with error := some ⟨.bodyTooLarge, "Multipart part exceeds configured limit", none⟩ })
  else if s.options.maxTotalSize < count ∨ sub64 s.options.maxTotalSize count < s.totalSize then
    (false,
      { s with error := some ⟨.bodyTooLarge, "Multipart data exceeds configured limit", none⟩ })
  else
    let event : MultipartEvent :=
      { type := .partData, partIndex := s.partCount - 1, data := s.buffer.take count }
    (true,
      { s with
        currentSize := add64 s.currentSize count, totalSize := add64 s.totalSize count
        events := s.events ++ [event] })

/-- A difference of sizes does not wrap around, -/
lemma sub64_eq {a b : ℕ} (ha : a < 2 ^ 64) (hb : b ≤ a) : sub64 a b = a - b := by
  unfold sub64
  omega

/-- and a sum below 2 ^ 64 does not either. -/
lemma add64_eq {a b : ℕ} (h : a + b < 2 ^ 64) : add64 a b = a + b := Nat.mod_eq_of_lt h

/-- Nothing overflows if the limits are numbers of 64 bits. -/
lemma emitData64_eq (s : MultipartParser) (count : ℕ) (hpart : s.options.maxPartSize < 2 ^ 64)
    (htotal : s.options.maxTotalSize < 2 ^ 64) : s.emitData64 count = s.emitData count := by
  unfold emitData64 emitData
  by_cases hzero : count = 0
  · rw [if_pos hzero, if_pos hzero]
  rw [if_neg hzero, if_neg hzero]
  by_cases hcount : s.options.maxPartSize < count
  · rw [if_pos (.inl hcount), if_pos (.inl hcount)]
  rw [sub64_eq hpart (by omega)]
  by_cases hsize : s.options.maxPartSize < count ∨ s.options.maxPartSize - count < s.currentSize
  · rw [if_pos hsize, if_pos hsize]
  rw [if_neg hsize, if_neg hsize]
  by_cases hcount : s.options.maxTotalSize < count
  · rw [if_pos (.inl hcount), if_pos (.inl hcount)]
  rw [sub64_eq htotal (by omega)]
  by_cases hall : s.options.maxTotalSize < count ∨ s.options.maxTotalSize - count < s.totalSize
  · rw [if_pos hall, if_pos hall]
  rw [if_neg hall, if_neg hall, add64_eq (by omega), add64_eq (by omega)]

/-! ### What has been delivered -/

/-- The events `before` and those of the current call are those of some parts.  The counters of the
parser are the number and the sizes of the parts, and in the middle of a part it is the last one. -/
structure Delivering (before : List MultipartEvent) (s : MultipartParser)
    (parts : List DeliveredPart) (unfinished : Option DeliveredPart) : Prop where
  wellFormed : WellFormed s.options (before ++ s.events) parts unfinished
  partCount : s.partCount = (parts ++ unfinished.toList).length
  totalSize : s.totalSize = contentSize (parts ++ unfinished.toList)
  body : s.state = .body ↔ unfinished.isSome = true
  current : ∀ p ∈ unfinished, p.part = s.current ∧ p.size = s.currentSize

/-- A parser with these options and this boundary that has delivered parts.  It carries the lengths
that bound the buffer: what is kept is at most a head or the start of a delimiter. -/
structure Sound (options : MultipartParserOptions) (boundary : Bytes)
    (before : List MultipartEvent) (s : MultipartParser) : Prop where
  firstMarker : s.firstMarker.length = boundary.length + 2
  delimiter : s.delimiter.length = boundary.length + 4
  options : s.options = options
  boundary : s.boundary = boundary
  delivering : ∃ parts unfinished, Delivering before s parts unfinished

/-- What is kept at most. -/
def keptSize (options : MultipartParserOptions) (boundary : Bytes) : ℕ :=
  options.maxHeaderSize + boundary.length + 5

variable {options : MultipartParserOptions} {boundary : Bytes} {before : List MultipartEvent}
  {s t : MultipartParser}

/-- Bytes and positions do not matter, nor does a state outside of contents. -/
lemma Sound.move (h : Sound options boundary before s) {buffer : Bytes} {searchFrom : ℕ}
    {state : State} (hbody : state = .body ↔ s.state = .body) :
    Sound options boundary before
      { s with buffer := buffer, searchFrom := searchFrom, state := state } := by
  obtain ⟨parts, unfinished, hdelivering⟩ := h.delivering
  exact ⟨h.firstMarker, h.delimiter, h.options, h.boundary, parts, unfinished,
    hdelivering.wellFormed, hdelivering.partCount, hdelivering.totalSize,
    hbody.trans hdelivering.body, hdelivering.current⟩

/-- The content of the part goes on. -/
lemma Sound.emitData (h : Sound options boundary before s) (hstate : s.state = .body) {count : ℕ}
    (hcount : count ≤ s.buffer.length) (ht : s.emitData count = (true, t)) :
    Sound options boundary before t ∧ t.error = s.error := by
  unfold MultipartParser.emitData at ht
  split_ifs at ht with hzero hpart htotal
  · cases ht
    exact ⟨h, rfl⟩
  · cases ht
  · cases ht
  cases ht
  obtain ⟨parts, unfinished, hdelivering⟩ := h.delivering
  obtain ⟨p, rfl⟩ := Option.isSome_iff_exists.mp (hdelivering.body.mp hstate)
  obtain ⟨hcurrent, hsize⟩ := hdelivering.current p rfl
  have hlength : (s.buffer.take count).length = count := by
    rw [List.length_take, Nat.min_eq_left hcount]
  have hwellFormed := hdelivering.wellFormed
  have hpartCount := hdelivering.partCount
  have htotalSize := hdelivering.totalSize
  simp only [Option.toList_some, contentSize, List.map_append, List.map_cons, List.map_nil,
    List.sum_append, List.sum_singleton, List.length_append, List.length_singleton]
    at hpartCount htotalSize
  -- the piece joins the part that is unfinished, and the counters grow by its length
  have hnew : contentSize (parts ++ (some (p.push (s.buffer.take count))).toList) =
      s.totalSize + count := by
    simp only [Option.toList_some, contentSize, List.map_append, List.map_cons,
      List.map_nil, List.sum_append, List.sum_singleton, DeliveredPart.size_push, hlength]
    omega
  refine ⟨⟨h.firstMarker, h.delimiter, h.options, h.boundary, parts,
    some (p.push (s.buffer.take count)), ⟨?_, ?_, ?_, ?_, ?_⟩, ?_, hnew.symm, ?_, ?_⟩, rfl⟩
  · rw [← List.append_assoc, hwellFormed.events, partsEvents, partsEvents,
      DeliveredPart.opening_push, hpartCount, Nat.add_sub_cancel, List.append_assoc]
  · refine List.forall_mem_append.mpr ⟨fun q hq => ?_, List.forall_mem_singleton.mpr ?_⟩
    · exact hwellFormed.pieces q (List.mem_append_left _ hq)
    · have hp := hwellFormed.pieces p (List.mem_append_right _ (List.mem_singleton_self p))
      rw [DeliveredPart.push, List.mem_append, List.mem_singleton, not_or]
      refine ⟨hp, fun hempty => hzero ?_⟩
      rw [← hlength, ← hempty, List.length_nil]
  · have hmax := hwellFormed.maxParts
    rw [Option.toList_some, List.length_append, List.length_singleton] at hmax ⊢
    exact hmax
  · refine List.forall_mem_append.mpr ⟨fun q hq => ?_, List.forall_mem_singleton.mpr ?_⟩
    · exact hwellFormed.maxPartSize q (List.mem_append_left _ hq)
    · rw [DeliveredPart.size_push, hlength, hsize]
      dsimp only
      omega
  · rw [hnew]
    dsimp only
    omega
  · rw [Option.toList_some, List.length_append, List.length_singleton]
    exact hpartCount
  · exact ⟨fun _ => rfl, fun _ => hstate⟩
  · rintro q ⟨⟩
    exact ⟨hcurrent, by rw [DeliveredPart.size_push, hlength, hsize]⟩

/-- The part ends. -/
lemma Sound.partEnd (h : Sound options boundary before s) (hstate : s.state = .body) {buffer : Bytes}
    {events : List MultipartEvent} (hevents : events =
      s.events ++ [{ type := .partEnd, partIndex := s.partCount - 1, part := s.current }]) :
    Sound options boundary before
      { s with events := events, buffer := buffer, state := .boundarySuffix } := by
  obtain ⟨parts, unfinished, hdelivering⟩ := h.delivering
  obtain ⟨p, rfl⟩ := Option.isSome_iff_exists.mp (hdelivering.body.mp hstate)
  have hwellFormed := hdelivering.wellFormed
  have hpartCount := hdelivering.partCount
  have hall : (parts ++ [p]) ++ (none : Option DeliveredPart).toList =
      parts ++ (some p).toList := List.append_nil _
  refine ⟨h.firstMarker, h.delimiter, h.options, h.boundary, parts ++ [p], none,
    ⟨?_, ?_, ?_, ?_, ?_⟩, ?_, ?_, ?_, ?_⟩
  · rw [Option.toList_some, List.length_append, List.length_singleton] at hpartCount
    rw [hevents, ← List.append_assoc, hwellFormed.events, partsEvents, partsEvents,
      closedParts_concat, DeliveredPart.closed, List.append_assoc, Nat.zero_add, hpartCount,
      Nat.add_sub_cancel, (hdelivering.current p rfl).1]
  · rw [hall]
    exact hwellFormed.pieces
  · rw [hall]
    exact hwellFormed.maxParts
  · rw [hall]
    exact hwellFormed.maxPartSize
  · rw [hall]
    exact hwellFormed.maxTotalSize
  · rw [hall]
    exact hpartCount
  · rw [hall]
    exact hdelivering.totalSize
  · simp
  · intro q hq
    cases hq

/-- A part begins. -/
lemma Sound.partBegin (h : Sound options boundary before s) (hstate : s.state = .headers)
    {parsed : MultipartPart} {buffer : Bytes} {searchFrom : ℕ}
    (hparts : s.partCount < s.options.maxParts) :
    Sound options boundary before
      { s with
        current := parsed, currentSize := 0
        events := s.events ++ [{ type := .partBegin, partIndex := s.partCount, part := parsed }]
        partCount := s.partCount + 1, buffer := buffer, searchFrom := searchFrom
        state := .body } := by
  obtain ⟨parts, unfinished, hdelivering⟩ := h.delivering
  obtain rfl : unfinished = none := by
    rw [← Option.not_isSome_iff_eq_none, ← hdelivering.body, hstate]
    simp
  have hwellFormed := hdelivering.wellFormed
  have hpartCount := hdelivering.partCount
  have hall : parts ++ (none : Option DeliveredPart).toList = parts := List.append_nil _
  rw [hall] at hpartCount
  have hpieces := hwellFormed.pieces
  have hmaxPartSize := hwellFormed.maxPartSize
  rw [hall] at hpieces hmaxPartSize
  have htotal : contentSize (parts ++ (some { part := parsed : DeliveredPart }).toList) =
      contentSize (parts ++ (none : Option DeliveredPart).toList) := by
    simp [contentSize, DeliveredPart.size]
  refine ⟨h.firstMarker, h.delimiter, h.options, h.boundary, parts, some { part := parsed },
    ⟨?_, ?_, ?_, ?_, ?_⟩, ?_, ?_, ?_, ?_⟩
  · rw [← List.append_assoc, hwellFormed.events, partsEvents, partsEvents, hpartCount]
    rfl
  · refine List.forall_mem_append.mpr ⟨hpieces, List.forall_mem_singleton.mpr ?_⟩
    exact List.not_mem_nil
  · rw [Option.toList_some, List.length_append, List.length_singleton, ← hpartCount]
    exact hparts
  · refine List.forall_mem_append.mpr ⟨hmaxPartSize, List.forall_mem_singleton.mpr ?_⟩
    exact Nat.zero_le _
  · rw [htotal]
    exact hwellFormed.maxTotalSize
  · rw [Option.toList_some, List.length_append, List.length_singleton, hpartCount]
  · rw [htotal]
    exact hdelivering.totalSize
  · exact ⟨fun _ => rfl, fun _ => rfl⟩
  · rintro q ⟨⟩
    exact ⟨rfl, rfl⟩

/-! ### Iterations -/

/-- An iteration goes on without an error, or it leaves, with an error or with little. -/
def Advances (options : MultipartParserOptions) (boundary : Bytes) (before : List MultipartEvent) :
    Loop.Next MultipartParser MultipartParser → Prop
  | .again t => t.error = none ∧ Sound options boundary before t
  | .leave t => t.error = none →
      Sound options boundary before t ∧ t.buffer.length ≤ keptSize options boundary

/-- An iteration that fails. -/
lemma advances_fail (message : String) :
    Advances options boundary before (.leave (s.fail message)) := fun h => by cases h

/-- An iteration that leaves because of an error. -/
lemma advances_error {e : ErrorInfo} (h : t.error = some e) :
    Advances options boundary before (.leave t) := fun hnone => by rw [h] at hnone; cases hnone

/-- The end of an iteration that changes something. -/
lemma advances_progress (h : Sound options boundary before t) (herror : t.error = none)
    (hchanged : ¬(s.buffer.length = t.buffer.length ∧ s.state = t.state)) :
    Advances options boundary before (progress s t) := by
  rw [progress, if_neg hchanged]
  exact ⟨herror, h⟩

/-- Data that is not emitted is an error. -/
lemma error_of_emitData {count : ℕ} (h : s.emitData count = (false, t)) : ∃ e, t.error = some e := by
  unfold emitData at h
  split_ifs at h
  · cases h
  · cases h
    exact ⟨_, rfl⟩
  · cases h
    exact ⟨_, rfl⟩
  · cases h

/-- A preamble is kept up to its limit and the space of a boundary. -/
lemma stepFirstBoundary_advances (h : Sound options boundary before s) (herror : s.error = none)
    (hstate : s.state = .firstBoundary) :
    Advances options boundary before (stepFirstBoundary s) := by
  have hmarker := h.firstMarker
  have hlimit : s.options.maxHeaderSize = options.maxHeaderSize := by rw [h.options]
  unfold stepFirstBoundary
  cases hfind : findLineStart s.firstMarker s.buffer s.searchFrom with
  | none =>
    dsimp only
    split_ifs with hlong
    · exact advances_fail _
    all_goals
      refine fun _ => ⟨h.move Iff.rfl, ?_⟩
      rw [keptSize]
      dsimp only
      omega
  | some position =>
    dsimp only
    split_ifs with hlong hshort hending
    · exact advances_fail _
    · refine fun _ => ⟨h.move Iff.rfl, ?_⟩
      rw [keptSize]
      dsimp only
      omega
    · exact ⟨herror, h.move Iff.rfl⟩
    · refine advances_progress (h.move (by simp [hstate])) herror ?_
      rintro ⟨-, hsame⟩
      rw [hstate] at hsame
      cases hsame

/-- Behind a delimiter one byte may be kept. -/
lemma stepBoundarySuffix_advances (h : Sound options boundary before s) (herror : s.error = none)
    (hstate : s.state = .boundarySuffix) :
    Advances options boundary before (stepBoundarySuffix s) := by
  unfold stepBoundarySuffix
  split_ifs with hshort hdashes hcrlf
  · refine fun _ => ⟨h, ?_⟩
    rw [keptSize]
    omega
  · refine advances_progress (h.move (by simp [hstate])) herror ?_
    rintro ⟨-, hsame⟩
    rw [hstate] at hsame
    cases hsame
  · refine advances_progress (h.move (by simp [hstate])) herror ?_
    rintro ⟨-, hsame⟩
    rw [hstate] at hsame
    cases hsame
  · exact advances_fail _

/-- A head is kept up to its limit and the space of its end. -/
lemma stepHeaders_advances (h : Sound options boundary before s) (herror : s.error = none)
    (hstate : s.state = .headers) : Advances options boundary before (stepHeaders s) := by
  have hlimit : s.options.maxHeaderSize = options.maxHeaderSize := by rw [h.options]
  unfold stepHeaders
  cases hfind : ListSearch.findFrom crlfCrlf s.buffer s.searchFrom with
  | none =>
    dsimp only
    split_ifs with hlong
    · exact advances_fail _
    all_goals
      refine fun _ => ⟨h.move Iff.rfl, ?_⟩
      rw [keptSize]
      dsimp only
      omega
  | some headEnd =>
    dsimp only
    by_cases hlong : s.options.maxHeaderSize < headEnd
    · rw [if_pos hlong]
      exact advances_fail _
    rw [if_neg hlong]
    cases hparsed : parsePartHead (s.buffer.take headEnd) with
    | error e => exact advances_fail _
    | ok parsed =>
      dsimp only
      split_ifs with hparts
      · exact advances_fail _
      · refine advances_progress (h.partBegin hstate (by omega)) herror ?_
        rintro ⟨-, hsame⟩
        rw [hstate] at hsame
        cases hsame

/-- A content is kept as far as it may be the start of a delimiter. -/
lemma stepBody_advances (h : Sound options boundary before s) (herror : s.error = none)
    (hstate : s.state = .body) : Advances options boundary before (stepBody s) := by
  have hdelimiter := h.delimiter
  unfold stepBody
  cases hfind : ListSearch.find s.delimiter s.buffer with
  | none =>
    dsimp only
    by_cases hshort : s.buffer.length ≤ s.delimiter.length + 1
    · rw [if_pos hshort]
      -- what stays in the buffer is shorter than a delimiter and its ending
      refine fun _ => ⟨h, ?_⟩
      rw [keptSize]
      omega
    rw [if_neg hshort]
    cases hemit : s.emitData (s.buffer.length - (s.delimiter.length + 1)) with
    | mk emitted t =>
      obtain ⟨hbuffer, hstate'⟩ := emitData_kept hemit
      cases emitted with
      | false => exact (error_of_emitData hemit).elim fun e he => advances_error he
      | true =>
        obtain ⟨ht, herror'⟩ := h.emitData hstate (by omega) hemit
        refine advances_progress (ht.move Iff.rfl) (herror'.trans herror) ?_
        rintro ⟨hsame, -⟩
        rw [hbuffer, List.length_drop] at hsame
        omega
  | some position =>
    have hfit := ListSearch.find_add_length_le hfind
    dsimp only
    by_cases hshort : s.buffer.length < position + s.delimiter.length + 2
    · rw [if_pos hshort]
      cases hemit : s.emitData position with
      | mk emitted t =>
        obtain ⟨hbuffer, hstate'⟩ := emitData_kept hemit
        cases emitted with
        | false => exact (error_of_emitData hemit).elim fun e he => advances_error he
        | true =>
          obtain ⟨ht, herror'⟩ := h.emitData hstate (by omega) hemit
          refine fun _ => ⟨ht.move Iff.rfl, ?_⟩
          rw [keptSize]
          simp only [List.length_drop, hbuffer]
          omega
    rw [if_neg hshort]
    -- a candidate that is content, and one that ends the part
    split_ifs with hending
    · cases hemit : s.emitData (position + 2) with
      | mk emitted t =>
        cases emitted with
        | false => exact (error_of_emitData hemit).elim fun e he => advances_error he
        | true =>
          obtain ⟨ht, herror'⟩ := h.emitData hstate (by omega) hemit
          exact ⟨herror'.trans herror, ht.move Iff.rfl⟩
    · cases hemit : s.emitData position with
      | mk emitted t =>
        obtain ⟨hbuffer, hstate'⟩ := emitData_kept hemit
        cases emitted with
        | false => exact (error_of_emitData hemit).elim fun e he => advances_error he
        | true =>
          obtain ⟨ht, herror'⟩ := h.emitData hstate (by omega) hemit
          refine advances_progress (ht.partEnd (hstate'.trans hstate) rfl) (herror'.trans herror) ?_
          rintro ⟨-, hsame⟩
          rw [hstate] at hsame
          cases hsame

/-- Every iteration advances. -/
lemma parseStep_advances (h : Sound options boundary before s) (herror : s.error = none) :
    Advances options boundary before (parseStep s) := by
  unfold parseStep
  cases hstate : s.state with
  | firstBoundary => exact stepFirstBoundary_advances h herror hstate
  | boundarySuffix => exact stepBoundarySuffix_advances h herror hstate
  | headers => exact stepHeaders_advances h herror hstate
  | body => exact stepBody_advances h herror hstate
  | complete => exact fun _ => ⟨h.move (by rw [hstate]), Nat.zero_le _⟩

/-! ### Calls -/

/-- The bytes that have arrived are parsed. -/
lemma parseAvailable_advances (h : Sound options boundary before s) (herror : s.error = none) :
    Advances options boundary before (.leave s.parseAvailable) := by
  refine Loop.run_induct parseStep_decreases
    (P := fun s t => s.error = none → Sound options boundary before s →
      Advances options boundary before (.leave t)) ?_ ?_ s herror h
  · intro s t hstep herror h
    have hadvances := parseStep_advances h herror
    rwa [hstep] at hadvances
  · intro s s' t hstep ih herror h
    have hadvances := parseStep_advances h herror
    rw [hstep] at hadvances
    exact ih hadvances.1 hadvances.2

/-- A call of `feed` that returns no error. -/
lemma feed_advances (h : Sound options boundary before { s with events := [] })
    (hkept : s.buffer.length ≤ keptSize options boundary) {input : Bytes}
    {events : List MultipartEvent} (hfeed : s.feed input = (.ok events, t)) :
    t.error = none ∧ t.events = events ∧ Sound options boundary before t ∧
      t.buffer.length ≤ keptSize options boundary := by
  have hloop : ∀ v : MultipartParser × Bytes, v.1.error = none → Sound options boundary before v.1 →
      v.1.buffer.length ≤ keptSize options boundary →
      Advances options boundary before
        (.leave (Loop.run feedStep (fun v => v.2.length) feedStep_decreases v)) := by
    intro v
    refine Loop.run_induct feedStep_decreases
      (P := fun v t => v.1.error = none → Sound options boundary before v.1 →
        v.1.buffer.length ≤ keptSize options boundary →
          Advances options boundary before (.leave t)) ?_ ?_ v
    · rintro ⟨s, input⟩ t hstep herror h hkept
      unfold feedStep at hstep
      dsimp only at hstep
      split_ifs at hstep with hdone hfailed
      · cases hstep
        exact fun _ => ⟨h, hkept⟩
      · cases hstep
        exact parseAvailable_advances (h.move Iff.rfl) herror
    · rintro ⟨s, input⟩ ⟨u, rest⟩ t hstep ih herror h hkept
      unfold feedStep at hstep
      dsimp only at hstep
      split_ifs at hstep with hdone hfailed
      cases hstep
      have herror' := Option.not_isSome_iff_eq_none.mp hfailed
      have hmoved : Sound options boundary before
          { s with buffer := s.buffer ++ input.take pieceSize } := h.move Iff.rfl
      obtain ⟨hsound, hsize⟩ := parseAvailable_advances hmoved herror herror'
      exact ih herror' hsound hsize
  unfold feed at hfeed
  cases herror : s.error with
  | some e =>
    rw [herror] at hfeed
    cases hfeed
  | none =>
    rw [herror] at hfeed
    dsimp only at hfeed
    have hadvances : Advances options boundary before (.leave (s.feedLoop input)) :=
      hloop _ herror h hkept
    cases hresult : (s.feedLoop input).error with
    | some e =>
      rw [hresult] at hfeed
      cases hfeed
    | none =>
      rw [hresult] at hfeed
      cases hfeed
      exact ⟨hresult, rfl, hadvances hresult⟩

/-- Calls of `feed` until one returns an error: all events, and the parser behind the last call.  A
caller that stops at the first error sees exactly this. -/
def feedAll (s : MultipartParser) : List Bytes → Result (List MultipartEvent × MultipartParser)
  | [] => .ok ([], s)
  | chunk :: chunks =>
    match s.feed chunk with
    | (.error e, _) => .error e
    | (.ok events, s) => (feedAll s chunks).map fun r => (events ++ r.1, r.2)

/-- The events of a call belong to those before when the next call begins. -/
lemma Sound.begin (h : Sound options boundary before s) :
    Sound options boundary (before ++ s.events) { s with events := [] } := by
  obtain ⟨parts, unfinished, hdelivering⟩ := h.delivering
  have hwellFormed := hdelivering.wellFormed
  exact ⟨h.firstMarker, h.delimiter, h.options, h.boundary, parts, unfinished,
    ⟨by rw [List.append_nil]; exact hwellFormed.events, hwellFormed.pieces, hwellFormed.maxParts,
      hwellFormed.maxPartSize, hwellFormed.maxTotalSize⟩,
    hdelivering.partCount, hdelivering.totalSize, hdelivering.body, hdelivering.current⟩

/-- Calls that return no error.  The proof is an induction on the calls, with the bytes of the
earlier ones as a parameter. -/
lemma feedAll_sound {chunks : List Bytes} (herror : s.error = none)
    (h : Sound options boundary before { s with events := [] })
    (hkept : s.buffer.length ≤ keptSize options boundary) {events : List MultipartEvent}
    (hfeed : s.feedAll chunks = .ok (events, t)) :
    Sound options boundary (before ++ events) { t with events := [] } ∧
      t.buffer.length ≤ keptSize options boundary := by
  induction chunks generalizing s before events with
  | nil =>
    cases hfeed
    rw [List.append_nil]
    exact ⟨h, hkept⟩
  | cons chunk chunks ih =>
    rw [feedAll] at hfeed
    cases hcall : s.feed chunk with
    | mk result u =>
      rw [hcall] at hfeed
      cases result with
      | error e => cases hfeed
      | ok delivered =>
        obtain ⟨herror', rfl, hsound, hsize⟩ := feed_advances h hkept hcall
        dsimp only at hfeed
        cases hrest : u.feedAll chunks with
        | error e =>
          rw [hrest] at hfeed
          cases hfeed
        | ok r =>
          rw [hrest] at hfeed
          cases hfeed
          rw [← List.append_assoc]
          exact ih herror' hsound.begin hsize hrest

/-- A new parser has delivered nothing. -/
lemma sound_create {contentType : Bytes} (herror : (create contentType options).error = none) :
    Sound options (create contentType options).boundary [] (create contentType options) := by
  have hnone : WellFormed options [] [] none :=
    ⟨rfl, fun p hp => (by cases hp), Nat.zero_le _, fun p hp => (by cases hp), Nat.zero_le _⟩
  unfold create at *
  cases hboundary : multipartBoundary contentType with
  | error e =>
    rw [hboundary] at herror
    cases herror
  | ok boundary =>
    refine ⟨?_, ?_, rfl, rfl, [], none, hnone, rfl, rfl, by simp, fun p hp => (by cases hp)⟩
    · rw [List.length_append, Nat.add_comm]
      rfl
    · rw [List.length_append, List.length_append, ← Nat.add_assoc, Nat.add_comm]
      rfl

/-- A parser that has failed at once returns no events. -/
lemma feedAll_of_error {e : ErrorInfo} (h : s.error = some e) {chunks : List Bytes}
    {events : List MultipartEvent} (hfeed : s.feedAll chunks = .ok (events, t)) :
    chunks = [] ∧ events = [] ∧ t = s := by
  cases chunks with
  | nil =>
    cases hfeed
    exact ⟨rfl, rfl, rfl⟩
  | cons chunk chunks =>
    have hcall : s.feed chunk = (.error e, s) := by rw [feed, h]
    rw [feedAll, hcall] at hfeed
    cases hfeed

/-- After any calls of `feed` that return no error, the events are those of parts with consecutive
indices within the limits.  The counters are their number and their sizes, the arithmetic of
`emit_data` is exact in 64 bits, and little is kept. -/
theorem feeds_within_limits (contentType : Bytes) (options : MultipartParserOptions)
    (chunks : List Bytes) {events : List MultipartEvent} {s : MultipartParser}
    (h : (create contentType options).feedAll chunks = .ok (events, s)) :
    (∃ parts unfinished, WellFormed options events parts unfinished ∧
        s.partCount = (parts ++ unfinished.toList).length ∧
        s.totalSize = contentSize (parts ++ unfinished.toList) ∧
        ∀ p ∈ unfinished, p.size = s.currentSize) ∧
      (options.maxPartSize < 2 ^ 64 → options.maxTotalSize < 2 ^ 64 →
        ∀ u : MultipartParser, u.options = options → ∀ count, u.emitData64 count = u.emitData count) ∧
      s.buffer.length ≤
        options.maxHeaderSize + (create contentType options).boundary.length + 5 := by
  have hexact : options.maxPartSize < 2 ^ 64 → options.maxTotalSize < 2 ^ 64 →
      ∀ u : MultipartParser, u.options = options → ∀ count, u.emitData64 count = u.emitData count := by
    rintro hpart htotal u rfl count
    exact emitData64_eq u count hpart htotal
  cases herror : (create contentType options).error with
  -- a parser that refuses its content type keeps nothing and hands on nothing
  | some e =>
    obtain ⟨-, rfl, rfl⟩ := feedAll_of_error herror h
    have hnew : create contentType options = { options, error := some e } := by
      unfold create at *
      cases hboundary : multipartBoundary contentType with
      | error e' =>
        rw [hboundary] at herror
        rw [← herror]
      | ok boundary =>
        rw [hboundary] at herror
        cases herror
    rw [hnew]
    refine ⟨⟨[], none, ⟨rfl, ?_, Nat.zero_le _, ?_, Nat.zero_le _⟩, rfl, rfl, ?_⟩, hexact,
      Nat.zero_le _⟩
    · intro p hp
      cases hp
    · intro p hp
      cases hp
    · intro p hp
      cases hp
  | none =>
    have hcreate := sound_create herror
    have hempty : (create contentType options).buffer = [] := by
      unfold create
      cases multipartBoundary contentType <;> rfl
    have hevents : { create contentType options with events := [] } =
        create contentType options := by
      unfold create
      cases multipartBoundary contentType <;> rfl
    obtain ⟨hsound, hsize⟩ := feedAll_sound herror (hevents.symm ▸ hcreate)
      (by rw [hempty]; exact Nat.zero_le _) h
    obtain ⟨parts, unfinished, hdelivering⟩ := hsound.delivering
    have hoptions : s.options = options := hsound.options
    have hwellFormed := hdelivering.wellFormed
    rw [List.nil_append, List.append_nil] at hwellFormed
    rw [← hoptions]
    exact ⟨⟨parts, unfinished, hwellFormed, hdelivering.partCount, hdelivering.totalSize,
      fun p hp => (hdelivering.current p hp).2⟩, hoptions.symm ▸ hexact, hoptions.symm ▸ hsize⟩

/-- A form in three chunks, the last of which ends in the content of a part. -/
def threeChunks : List Bytes :=
  [bytes "--b\r\nContent-Disposition: form-d", bytes "ata; name=x\r\n\r", bytes "\na123456"]

/-- The parser behind the chunks has delivered one byte, and keeps the other six. -/
theorem feeds_within_limits_of_example :
    ((create (bytes "multipart/form-data; boundary=b") { maxHeaderSize := 60 }).feedAll
        threeChunks).toOption.map (fun r => (r.1.map fun e => (e.type, e.data), r.2.buffer)) =
      some ([(.partBegin, []), (.partData, bytes "a")], bytes "123456") ∧
    ∀ r ∈ ((create (bytes "multipart/form-data; boundary=b") { maxHeaderSize := 60 }).feedAll
        threeChunks).toOption, r.2.buffer.length ≤ 60 + 1 + 5 := by
  refine ⟨by decide +kernel, fun r hr => ?_⟩
  cases hfeed : (create (bytes "multipart/form-data; boundary=b") { maxHeaderSize := 60 }).feedAll
      threeChunks with
  | error e =>
    rw [hfeed] at hr
    cases hr
  | ok result =>
    rw [hfeed] at hr
    cases hr
    exact (feeds_within_limits (bytes "multipart/form-data; boundary=b") { maxHeaderSize := 60 }
      threeChunks hfeed).2.2

end MultipartParser

end Chhttp.Multipart
