import Chhttp.Sse.Resume

/-!
# The writer of event streams

`SseWriter` writes an event as lines, one for each line of its data, where a line ends with LF; the
parser takes CR for the end of a line as well.  `Harmless` is what this difference leaves of the
round trip: no CR in the data of an event but before a LF, and no line of a comment but its first
one that is a data field, or an id field whose id comes to be in force.
-/

namespace Chhttp.Sse

open SseParser

/-! ### The source -/

/-- `std::to_string`. -/
def decimal : ℤ → Bytes
  | .ofNat n => toChars 10 n
  | .negSucc n => 0x2d :: toChars 10 (n + 1)

/-- A line of an event: a field and a LF. -/
def fieldLine (name : String) (value : Bytes) : Bytes := bytes name ++ (bytes ": " ++ (value ++ [lf]))

/-- A field that is written unless it is empty. -/
def optionalLine (name : String) (value : Bytes) : Bytes :=
  if value.isEmpty then [] else fieldLine name value

/-- The retry time of an event. -/
def retryLine : Option ℤ → Bytes
  | none => []
  | some retry => fieldLine "retry" (decimal retry)

/-- The fields of an event before its data. -/
def formatFields (event : SseEvent) : Bytes :=
  optionalLine "event" event.event ++ optionalLine "id" event.id ++ retryLine event.retry

/-- `format_sse`. -/
def formatSse (event : SseEvent) : Bytes :=
  formatFields event ++ ((event.data.splitOn lf).flatMap (fieldLine "data") ++ [lf])

/-- The calls of an `SseWriter`.  A comment is written as it is, without a look at its line breaks.
-/
inductive WriterCall where
  | send (event : SseEvent)
  | data (value : Bytes)
  | comment (value : Bytes)

/-- What a call writes. -/
def WriterCall.written : WriterCall → Bytes
  | .send event => formatSse event
  | .data value => formatSse { data := value }
  | .comment value => bytes ": " ++ (value ++ [lf, lf])

example : formatSse { data := bytes "one\ntwo", event := bytes "token", retry := some 1500 } =
    bytes "event: token\nretry: 1500\ndata: one\ndata: two\n\n" := by decide +kernel

/-! ### What a reader should see -/

/-- The event of a call, if it has one. -/
def WriterCall.event? : WriterCall → Option SseEvent
  | .send event => some event
  | .data value => some { data := value }
  | .comment _ => none

/-- The types and ids of events are single lines without NUL, and retry times are not negative.  The
data may be anything; what becomes of a CR in it is the point of the claim. -/
structure WriterCall.Valid (call : WriterCall) : Prop where
  event : ∀ e ∈ call.event?, ∀ c ∈ e.event, c ≠ cr ∧ c ≠ lf ∧ c ≠ 0
  id : ∀ e ∈ call.event?, ∀ c ∈ e.id, c ≠ cr ∧ c ≠ lf ∧ c ≠ 0
  retry : ∀ e ∈ call.event?, ∀ r ∈ e.retry, 0 ≤ r ∧ r ≤ maxMilliseconds

/-- The id in force after an event. -/
def idAfter (id : Bytes) (event : SseEvent) : Bytes := if event.id.isEmpty then id else event.id

/-- An event as it is dispatched while `id` is in force.  Line ends in the data are read as LF, and
an event without a type is a message. -/
def SseEvent.expected (id : Bytes) (event : SseEvent) : SseEvent where
  data := normalizeNewlines event.data
  event := if event.event.isEmpty then bytes "message" else event.event
  id := idAfter id event
  retry := event.retry

/-- The events that a reader should see.  Comments are not events, and ids stay in force until
another one is given. -/
def expectedEvents : (id : Bytes) → List WriterCall → List SseEvent
  | _, [] => []
  | id, call :: calls =>
    match call.event? with
    | some event => event.expected id :: expectedEvents (idAfter id event) calls
    | none => expectedEvents id calls

/-- Every CR is followed by a LF. -/
def crPaired : Bytes → Bool
  | [] => true
  | c :: rest => (c != cr || rest.head? == some lf) && crPaired rest

/-- The lines of a comment after its first one. -/
def extraLines (value : Bytes) : List Bytes := (splitLines [] false (value ++ [lf])).1.tail

/-- The calls do no harm, where `id` is the id in force and `readerId` the one that the reader has.
A CR in data, an id that is not the reader's, and a comment that continues with a field do harm. -/
def Harmless : (id readerId : Bytes) → List WriterCall → Prop
  | _, _, [] => True
  | id, readerId, .send event :: calls =>
    crPaired event.data = true ∧ (event.id = [] → readerId = id) ∧
      Harmless (idAfter id event) (idAfter readerId event) calls
  | id, readerId, .data value :: calls =>
    crPaired value = true ∧ readerId = id ∧ Harmless id readerId calls
  | id, readerId, .comment value :: calls =>
    (∀ line ∈ extraLines value, fieldName line ≠ bytes "data") ∧
      Harmless id ((lastGivenId (extraLines value)).getD readerId) calls

/-! ### Written lines -/

/-- The complete lines of a text that starts at a line. -/
def linesOf (text : Bytes) : List Bytes := (splitLines [] false text).1

/-- A text that consists of complete lines, and does not end with a CR.  Behind such a text a line
begins, whatever is written next. -/
def Closed (text : Bytes) : Prop := text = [] ∨ ∃ before, text = before ++ [lf]

/-- Complete lines are not changed by what follows. -/
lemma Closed.linesOf_append {u : Bytes} (h : Closed u) (v : Bytes) :
    linesOf (u ++ v) = linesOf u ++ linesOf v := by
  obtain rfl | ⟨before, rfl⟩ := h
  · rfl
  · rw [linesOf, List.append_assoc, List.singleton_append,
      splitLines_append_lf (fun h => by cases h)]
    rfl

/-- Texts of complete lines can be joined. -/
lemma Closed.append {u v : Bytes} (hu : Closed u) (hv : Closed v) : Closed (u ++ v) := by
  obtain rfl | ⟨before, rfl⟩ := hv
  · rw [List.append_nil]
    exact hu
  · exact .inr ⟨u ++ before, (List.append_assoc _ _ _).symm⟩

/-- A field is a complete line. -/
lemma closed_fieldLine (name : String) (value : Bytes) : Closed (fieldLine name value) :=
  .inr ⟨bytes name ++ (bytes ": " ++ value), by simp [fieldLine]⟩

/-- A field whose value has no line end is a single line. -/
lemma linesOf_fieldLine {name : String} {value : Bytes}
    (hname : ∀ c ∈ bytes name ++ bytes ": ", isNewline c = false)
    (hvalue : ∀ c ∈ value, isNewline c = false) :
    linesOf (fieldLine name value) = [bytes name ++ (bytes ": " ++ value)] := by
  have hplain : ∀ c ∈ bytes name ++ (bytes ": " ++ value), isNewline c = false := by
    intro c hc
    rw [← List.append_assoc, List.mem_append] at hc
    exact hc.elim (hname c) (hvalue c)
  have htext : fieldLine name value = bytes name ++ (bytes ": " ++ value) ++ lf :: [] := by
    simp [fieldLine]
  rw [linesOf, htext, splitLines_plain hplain]
  rfl

/-- The name of a written field. -/
lemma fieldName_written {name : Bytes} (h : colon ∉ name) (value : Bytes) :
    fieldName (name ++ (bytes ": " ++ value)) = name := by
  have hname : ∀ c ∈ name, (c != colon) = true := by
    intro c hc
    simpa using fun heq : c = colon => h (heq ▸ hc)
  rw [fieldName, List.takeWhile_append_of_pos hname]
  exact List.append_nil name

/-- The value of a written field. -/
lemma fieldValue_written {name : Bytes} (h : colon ∉ name) (value : Bytes) :
    fieldValue (name ++ (bytes ": " ++ value)) = value := by
  have hname : ∀ c ∈ name, (c != colon) = true := by
    intro c hc
    simpa using fun heq : c = colon => h (heq ▸ hc)
  rw [fieldValue, List.dropWhile_append_of_pos hname]
  rfl

/-- The effect of a written field. -/
lemma applyLine_written {s : SseParser} (hs : s.firstLine = false) {name : Bytes} (hname : name ≠ [])
    (hcolon : colon ∉ name) (value : Bytes) :
    s.applyLine (name ++ (bytes ": " ++ value)) = s.applyField name value := by
  have hsame : { s with firstLine := false } = s := by rw [← hs]
  have hstrip : stripMark s.firstLine (name ++ (bytes ": " ++ value)) =
      name ++ (bytes ": " ++ value) := by rw [hs]; rfl
  have hempty : (name ++ (bytes ": " ++ value)).isEmpty = false := by simp [hname]
  have hcomment : ¬(name ++ (bytes ": " ++ value)).head? = some colon := by
    rw [List.head?_append_of_ne_nil _ hname]
    exact fun h => hcolon (List.mem_of_mem_head? h)
  unfold applyLine
  dsimp only
  rw [hstrip, hsame, hempty, if_neg Bool.false_ne_true, if_neg hcomment, fieldName_written hcolon,
    fieldValue_written hcolon]

/-- A parser between two events.  The byte order mark, which only the first line may have, is behind
it. -/
structure SseParser.Clean (s : SseParser) : Prop where
  firstLine : s.firstLine = false
  data : s.data = []
  eventType : s.eventType = []
  eventRetry : s.eventRetry = none

/-- A parser that has read the fields of an event up to its data.  The id is in force from its line
on, while type and retry time wait for the end of the event. -/
structure SseParser.Announced (s : SseParser) (event : SseEvent) (t : SseParser) : Prop where
  firstLine : t.firstLine = false
  data : t.data = []
  eventType : t.eventType = event.event
  eventRetry : t.eventRetry = event.retry
  lastId : t.lastId = idAfter s.lastId event
  dispatched : t.dispatched = s.dispatched

/-- A retry time is written as digits, and read back. -/
lemma parseRetry_decimal {retry : ℤ} (h : 0 ≤ retry ∧ retry ≤ maxMilliseconds) :
    parseRetry (decimal retry) = some retry ∧ ∀ c ∈ decimal retry, isNewline c = false := by
  obtain ⟨n, rfl⟩ := Int.eq_ofNat_of_zero_le h.1
  have hn : n ≤ maxMilliseconds := by exact_mod_cast h.2
  have hlimit : n < uint64Limit := lt_of_le_of_lt hn (by decide)
  constructor
  · have hread : fromChars 10 uint64Limit (decimal n) = some n :=
      fromChars_toChars (by decide) (by decide) hlimit
    rw [parseRetry, hread]
    exact if_pos hn
  · intro c hc
    obtain ⟨d, hd, rfl⟩ := mem_toChars (by decide) (by decide) hc
    have hall : ∀ d < 36, isNewline (digitByte d) = false := by decide
    exact hall d hd

/-- A line that gives the type of an event. -/
lemma applyLine_event {s : SseParser} (hs : s.firstLine = false) (value : Bytes) :
    s.applyLine (bytes "event" ++ (bytes ": " ++ value)) = { s with eventType := value } :=
  applyLine_written hs (by decide) (by decide) value

/-- A line that gives an id. -/
lemma applyLine_id {s : SseParser} (hs : s.firstLine = false) {value : Bytes} (h : 0 ∉ value) :
    s.applyLine (bytes "id" ++ (bytes ": " ++ value)) = { s with lastId := value } := by
  rw [applyLine_written hs (by decide) (by decide), applyField, if_neg (by decide),
    if_neg (by decide), if_pos ⟨rfl, h⟩]

/-- A line that gives a retry time. -/
lemma applyLine_retry {s : SseParser} (hs : s.firstLine = false) {value : Bytes} {delay : ℤ}
    (h : parseRetry value = some delay) :
    s.applyLine (bytes "retry" ++ (bytes ": " ++ value)) =
      { s with retryDelay := some delay, eventRetry := some delay } := by
  have hid : ¬(bytes "retry" = bytes "id" ∧ 0 ∉ value) := fun hid => absurd hid.1 (by decide)
  rw [applyLine_written hs (by decide) (by decide), applyField, if_neg (by decide),
    if_neg (by decide), if_neg hid, if_pos rfl, h]

/-- A line of data. -/
lemma applyLine_data {s : SseParser} (hs : s.firstLine = false) (value : Bytes) :
    s.applyLine (bytes "data" ++ (bytes ": " ++ value)) = { s with data := s.data ++ value ++ [lf] } :=
  applyLine_written hs (by decide) (by decide) value

/-- A text without CR and LF. -/
lemma isNewline_of_single {value : Bytes} (h : ∀ c ∈ value, c ≠ cr ∧ c ≠ lf ∧ c ≠ 0) :
    ∀ c ∈ value, isNewline c = false := by
  intro c hc
  simp [isNewline, h c hc]

/-- The type is announced. -/
lemma foldl_typeField {s : SseParser} (hs : s.Clean) {value : Bytes}
    (h : ∀ c ∈ value, c ≠ cr ∧ c ≠ lf ∧ c ≠ 0) :
    Closed (optionalLine "event" value) ∧
      (linesOf (optionalLine "event" value)).foldl applyLine s =
        { s with eventType := value } := by
  unfold optionalLine
  split_ifs with hempty
  · have hsame : { s with eventType := [] } = s := by rw [← hs.eventType]
    rw [List.isEmpty_iff.mp hempty, hsame]
    exact ⟨.inl rfl, rfl⟩
  · rw [linesOf_fieldLine (by decide +kernel) (isNewline_of_single h)]
    exact ⟨closed_fieldLine _ _, applyLine_event hs.firstLine value⟩

/-- The id is announced. -/
lemma foldl_idField {s : SseParser} (hs : s.firstLine = false) {event : SseEvent}
    (h : ∀ c ∈ event.id, c ≠ cr ∧ c ≠ lf ∧ c ≠ 0) :
    Closed (optionalLine "id" event.id) ∧
      (linesOf (optionalLine "id" event.id)).foldl applyLine s =
        { s with lastId := idAfter s.lastId event } := by
  have hnul : (0 : UInt8) ∉ event.id := fun hmem => (h 0 hmem).2.2 rfl
  unfold optionalLine idAfter
  split_ifs with hempty
  · exact ⟨.inl rfl, rfl⟩
  · rw [linesOf_fieldLine (by decide +kernel) (isNewline_of_single h)]
    exact ⟨closed_fieldLine _ _, applyLine_id hs hnul⟩

/-- The retry time is announced. -/
lemma foldl_retryField {s : SseParser} (hs : s.firstLine = false) (hnone : s.eventRetry = none)
    {retry : Option ℤ} (h : ∀ r ∈ retry, 0 ≤ r ∧ r ≤ maxMilliseconds) :
    Closed (retryLine retry) ∧
      ∃ delay, (linesOf (retryLine retry)).foldl applyLine s =
        { s with retryDelay := delay, eventRetry := retry } := by
  cases retry with
  | none =>
    have hsame : { s with retryDelay := s.retryDelay, eventRetry := none } = s := by rw [← hnone]
    exact ⟨.inl rfl, s.retryDelay, hsame.symm⟩
  | some retry =>
    obtain ⟨hparse, hdigits⟩ := parseRetry_decimal (h retry rfl)
    refine ⟨closed_fieldLine _ _, some retry, ?_⟩
    rw [retryLine, linesOf_fieldLine (by decide +kernel) hdigits]
    exact applyLine_retry hs hparse

/-- The fields before the data announce the event. -/
lemma announced_formatFields {s : SseParser} (hs : s.Clean) {event : SseEvent}
    (hvalid : (WriterCall.send event).Valid) :
    Closed (formatFields event) ∧
      s.Announced event ((linesOf (formatFields event)).foldl applyLine s) := by
  obtain ⟨htypeClosed, htype⟩ := foldl_typeField hs (hvalid.event event rfl)
  obtain ⟨hidClosed, hid⟩ :=
    @foldl_idField { s with eventType := event.event } hs.firstLine event (hvalid.id event rfl)
  obtain ⟨hretryClosed, delay, hretry⟩ :=
    @foldl_retryField { s with eventType := event.event, lastId := idAfter s.lastId event }
      hs.firstLine hs.eventRetry event.retry (hvalid.retry event rfl)
  have hclosed := htypeClosed.append hidClosed
  refine ⟨hclosed.append hretryClosed, ?_⟩
  rw [formatFields, hclosed.linesOf_append, htypeClosed.linesOf_append, List.foldl_append,
    List.foldl_append, htype, hid, hretry]
  exact ⟨hs.firstLine, hs.data, rfl, rfl, rfl, rfl⟩

/-! ### Data -/

/-- The data of an event, with the starts of its lines but the first one. -/
def dataText (data : Bytes) : Bytes := data.flatMap fun c => if c = lf then lf :: bytes "data: " else [c]

/-- The lines that `format_sse` writes for the data. -/
lemma flatMap_fieldLine_data (data : Bytes) :
    (data.splitOn lf).flatMap (fieldLine "data") = bytes "data: " ++ (dataText data ++ [lf]) := by
  have hstart : ∀ value, fieldLine "data" value = bytes "data: " ++ (value ++ [lf]) := fun value => rfl
  induction data with
  | nil => rfl
  | cons c data ih =>
    rw [List.splitOn_cons_eq_if_modifyHead, dataText, List.flatMap_cons]
    by_cases hc : c = lf
    · subst hc
      rw [if_pos (by simp), if_pos rfl, List.flatMap_cons, ih, hstart]
      simp [dataText]
    · rw [if_neg (by simpa using hc), if_neg hc]
      obtain ⟨first, rest, hsplit⟩ := List.exists_cons_of_ne_nil (List.splitOn_ne_nil lf data)
      rw [hsplit, List.flatMap_cons, hstart] at ih
      rw [hsplit, List.modifyHead_cons, List.flatMap_cons, hstart]
      simpa [dataText] using ih

/-- The lines of data, after `line` and, if `skipLf` says so, a CR. -/
def dataLines (line : Bytes) (skipLf : Bool) (data : Bytes) : List Bytes :=
  (splitLines line skipLf (dataText data ++ [lf])).1

/-- Without more data, the line ends. -/
lemma dataLines_nil (line : Bytes) : dataLines line false [] = [line] := rfl

/-- A LF ends the line. -/
lemma dataLines_lf (line data : Bytes) :
    dataLines line false (lf :: data) = line :: dataLines (bytes "data: ") false data := rfl

/-- So does a CR. -/
lemma dataLines_cr (line data : Bytes) :
    dataLines line false (cr :: data) = line :: dataLines [] true data := rfl

/-- A LF after a CR does not, but it starts a line of data. -/
lemma dataLines_cr_lf (data : Bytes) :
    dataLines [] true (lf :: data) = dataLines (bytes "data: ") false data := rfl

/-- Other bytes are added to the line. -/
lemma dataLines_cons {c : UInt8} (h : isNewline c = false) (line data : Bytes) :
    dataLines line false (c :: data) = dataLines (line ++ [c]) false data := by
  have hc : c ≠ lf := by
    rintro rfl
    cases h
  have htext : dataText (c :: data) = c :: dataText data := by simp [dataText, hc]
  rw [dataLines, htext, List.cons_append, splitLines, Bool.false_and, if_neg Bool.false_ne_true, h,
    if_neg Bool.false_ne_true]
  rfl

/-- Bytes after a CR other than a LF start a line. -/
lemma dataLines_true_cons {c : UInt8} (h : c ≠ lf) (data : Bytes) :
    dataLines [] true (c :: data) = dataLines [] false (c :: data) := by
  have htext : dataText (c :: data) = c :: dataText data := by simp [dataText, h]
  have hskip : ¬(true && c == lf) = true := by simpa using h
  rw [dataLines, dataLines, htext, List.cons_append, splitLines, splitLines, if_neg hskip,
    Bool.false_and, if_neg Bool.false_ne_true]

/-- What is paired after a byte that is not a CR. -/
lemma crPaired_cons {c : UInt8} (h : c ≠ cr) (data : Bytes) : crPaired (c :: data) = crPaired data := by
  have hc : (c != cr) = true := by simpa using h
  rw [crPaired, hc, Bool.true_or, Bool.true_and]

/-- A CR is paired with a LF that follows. -/
lemma crPaired_cr (data : Bytes) :
    crPaired (cr :: data) = true ↔ data.head? = some lf ∧ crPaired data = true := by
  rw [crPaired, bne_self_eq_false, Bool.false_or, Bool.and_eq_true, beq_iff_eq]

/-- A LF is read as such. -/
lemma normalizeNewlines_lf (data : Bytes) :
    normalizeNewlines (lf :: data) = lf :: normalizeNewlines data := rfl

/-- A CR is read as a LF. -/
lemma normalizeNewlines_cr (data : Bytes) :
    normalizeNewlines (cr :: data) = lf :: normalizeFrom true data := rfl

/-- Other bytes are read as such. -/
lemma normalizeNewlines_cons {c : UInt8} (h : isNewline c = false) (data : Bytes) :
    normalizeNewlines (c :: data) = c :: normalizeNewlines data := by
  rw [normalizeNewlines, normalizeFrom, Bool.false_and, if_neg Bool.false_ne_true, h,
    if_neg Bool.false_ne_true]
  rfl

/-- The data of an event whose CRs are all before LFs is read back, with every line end as LF; the
second half is about data after a CR. -/
lemma foldl_dataLines {s : SseParser} (hs : s.firstLine = false) {data : Bytes}
    (h : crPaired data = true) :
    (∀ value, (dataLines (bytes "data: " ++ value) false data).foldl applyLine s =
        { s with data := s.data ++ value ++ (normalizeNewlines data ++ [lf]) }) ∧
      (data.head? = some lf → (dataLines [] true data).foldl applyLine s =
        { s with data := s.data ++ (normalizeFrom true data ++ [lf]) }) := by
  have hline : ∀ t : SseParser, t.firstLine = false → ∀ value,
      t.applyLine (bytes "data: " ++ value) = { t with data := t.data ++ value ++ [lf] } :=
    fun t ht value => applyLine_data ht value
  induction data generalizing s with
  | nil =>
    refine ⟨fun value => ?_, fun hhead => by cases hhead⟩
    rw [dataLines_nil, List.foldl_cons, hline s hs]
    rfl
  | cons c data ih =>
    have hlf : crPaired data = true → ∀ t : SseParser, t.firstLine = false →
        (dataLines (bytes "data: ") false data).foldl applyLine t =
          { t with data := t.data ++ (normalizeNewlines data ++ [lf]) } := by
      intro hpaired t ht
      have := (ih ht hpaired).1 []
      rwa [List.append_nil, List.append_nil] at this
    constructor
    · intro value
      by_cases hc : c = cr
      · subst hc
        obtain ⟨hhead, hpaired⟩ := (crPaired_cr data).mp h
        rw [dataLines_cr, List.foldl_cons, hline s hs]
        have hrest := (@ih { s with data := s.data ++ value ++ [lf] } hs hpaired).2 hhead
        rw [hrest, normalizeNewlines_cr]
        simp
      · rw [crPaired_cons hc] at h
        by_cases hc' : c = lf
        · subst hc'
          rw [dataLines_lf, List.foldl_cons, hline s hs]
          have hrest := hlf h { s with data := s.data ++ value ++ [lf] } hs
          rw [hrest, normalizeNewlines_lf]
          simp
        · have hplain : isNewline c = false := by simp [isNewline, hc, hc']
          have hrest := (ih hs h).1 (value ++ [c])
          rw [dataLines_cons hplain, List.append_assoc, hrest, normalizeNewlines_cons hplain]
          simp
    · intro hhead
      cases hhead
      rw [crPaired_cons (by decide)] at h
      rw [dataLines_cr_lf, hlf h s hs]
      rfl

/-- What `format_sse` writes: fields, lines of data and a blank line. -/
lemma linesOf_formatSse {event : SseEvent} (h : Closed (formatFields event)) :
    Closed (formatSse event) ∧ linesOf (formatSse event) =
      linesOf (formatFields event) ++ (dataLines (bytes "data: ") false event.data ++ [[]]) := by
  have hplain : ∀ c ∈ bytes "data: ", isNewline c = false := by decide +kernel
  have hstart : splitLines [] false (bytes "data: " ++ (dataText event.data ++ [lf])) =
      splitLines (bytes "data: ") false (dataText event.data ++ [lf]) := rfl
  have hclosed : Closed (bytes "data: " ++ (dataText event.data ++ [lf])) :=
    .inr ⟨bytes "data: " ++ dataText event.data, (List.append_assoc _ _ _).symm⟩
  rw [formatSse, flatMap_fieldLine_data]
  refine ⟨h.append (hclosed.append (.inr ⟨[], rfl⟩)), ?_⟩
  rw [h.linesOf_append, hclosed.linesOf_append, linesOf, linesOf, hstart]
  rfl

/-- A blank line dispatches the event. -/
lemma applyLine_blank {s : SseParser} (hs : s.firstLine = false) : s.applyLine [] = s.dispatch.2 := by
  have hsame : { s with firstLine := false } = s := by rw [← hs]
  have hstrip : stripMark s.firstLine [] = [] := by rw [hs]; rfl
  unfold applyLine
  dsimp only
  rw [hstrip, hsame]
  rfl

/-- An event whose data has no CR but before a LF is dispatched as it is expected.  The parser is
then between two events again, so the calls follow one another. -/
theorem foldl_formatSse {s : SseParser} (hs : s.Clean) {event : SseEvent}
    (hvalid : (WriterCall.send event).Valid) (hdata : crPaired event.data = true) :
    ((linesOf (formatSse event)).foldl applyLine s).Clean ∧
      ((linesOf (formatSse event)).foldl applyLine s).lastId = idAfter s.lastId event ∧
      ((linesOf (formatSse event)).foldl applyLine s).dispatched =
        s.dispatched ++ [event.expected s.lastId] := by
  obtain ⟨hclosed, hannounced⟩ := announced_formatFields hs hvalid
  rw [(linesOf_formatSse hclosed).2, List.foldl_append, List.foldl_append]
  generalize (linesOf (formatFields event)).foldl applyLine s = t at hannounced ⊢
  have hlines := (foldl_dataLines hannounced.firstLine hdata).1 []
  rw [List.append_nil, List.append_nil, hannounced.data, List.nil_append] at hlines
  have hblank := @applyLine_blank { t with data := normalizeNewlines event.data ++ [lf] }
    hannounced.firstLine
  have hpop : popNewline (normalizeNewlines event.data ++ [lf]) = normalizeNewlines event.data := by
    simp [popNewline]
  rw [hlines, List.foldl_cons, List.foldl_nil, hblank, dispatch, if_neg (by simp)]
  refine ⟨⟨hannounced.firstLine, rfl, rfl, rfl⟩, hannounced.lastId, ?_⟩
  dsimp only
  rw [hpop, hannounced.dispatched, hannounced.eventType, hannounced.eventRetry, hannounced.lastId]
  rfl

end Chhttp.Sse
