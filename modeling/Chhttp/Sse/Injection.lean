import Chhttp.Sse.Writer

/-!
# What the texts of an event stream can inject

A writer that does no harm is read back (`foldl_formatSse`).  For the converse the proof counts:
`dataWeight` is what a line adds to the data of an event, and data with a CR that is not before a LF
does not add up to its length (`weight_dataLines`), so it is not what the first event carries.  A
line of data in a comment adds an event, so there are too many of them.
-/

namespace Chhttp.Sse

open SseParser

/-! ### The weight of lines -/

/-- What a line adds to the data of an event. -/
def dataWeight (line : Bytes) : ℕ :=
  if fieldName line = bytes "data" then (fieldValue line).length + 1 else 0

/-- What lines add to the data of events. -/
def weight (lines : List Bytes) : ℕ := (lines.map dataWeight).sum

/-- The weight of the data of dispatched events, with the line ends. -/
def eventWeight (events : List SseEvent) : ℕ := (events.map fun event => event.data.length + 1).sum

/-- One more line. -/
lemma weight_cons (line : Bytes) (lines : List Bytes) :
    weight (line :: lines) = dataWeight line + weight lines := by
  rw [weight, List.map_cons, List.sum_cons, weight]

/-- The weight of a line of data. -/
lemma dataWeight_written (value : Bytes) : dataWeight (bytes "data: " ++ value) = value.length + 1 := by
  have hname : fieldName (bytes "data: " ++ value) = bytes "data" :=
    @fieldName_written (bytes "data") (by decide) value
  have hvalue : fieldValue (bytes "data: " ++ value) = value :=
    @fieldValue_written (bytes "data") (by decide) value
  rw [dataWeight, hname, hvalue, if_pos rfl]

/-- The name of a field takes more than a line end. -/
lemma dataWeight_le (line : Bytes) : dataWeight line ≤ line.length := by
  unfold dataWeight
  split_ifs with hname
  · have hlength := congrArg List.length
      (List.takeWhile_append_dropWhile (p := fun c => c != colon) (l := line))
    have hfour : (line.takeWhile fun c => c != colon).length = 4 := by
      rw [fieldName] at hname
      rw [hname]
      rfl
    have hvalue : (fieldValue line).length ≤ (line.dropWhile fun c => c != colon).length := by
      unfold fieldValue
      dsimp only
      split_ifs <;> simp only [List.length_drop] <;> omega
    rw [List.length_append] at hlength
    omega
  · exact Nat.zero_le _

/-- The lines of data weigh no more than the data, and less if a CR is not before a LF.  The second
part is about lines that start otherwise, the third one about data after a CR. -/
lemma weight_dataLines (data : Bytes) :
    (∀ value, weight (dataLines (bytes "data: " ++ value) false data) ≤
        value.length + 1 + (normalizeNewlines data).length ∧
      (crPaired data = false → weight (dataLines (bytes "data: " ++ value) false data) <
        value.length + 1 + (normalizeNewlines data).length)) ∧
    (∀ line, weight (dataLines line false data) ≤ line.length + (normalizeNewlines data).length) ∧
    weight (dataLines [] true data) ≤ 1 + (normalizeFrom true data).length ∧
    (¬(data.head? = some lf ∧ crPaired data = true) →
      weight (dataLines [] true data) < 1 + (normalizeFrom true data).length) := by
  -- the induction carries both states of the scan: inside a line, and right behind a CR
  induction data with
  | nil =>
    refine ⟨fun value => ⟨?_, fun h => by cases h⟩, fun line => ?_, Nat.zero_le _,
      fun _ => Nat.zero_lt_one⟩
    · rw [dataLines_nil, weight_cons, dataWeight_written]
      exact le_rfl
    · rw [dataLines_nil, weight_cons]
      exact Nat.add_le_add_right (dataWeight_le line) 0
  | cons c data ih =>
    obtain ⟨hdata, hline, hafter, hafterLt⟩ := ih
    have hstart := hdata []
    rw [List.append_nil, List.length_nil, Nat.zero_add] at hstart
    -- a CR ends a line, and whether a LF follows decides how the next byte counts
    by_cases hc : c = cr
    · subst hc
      have hcr : dataLines [] true (cr :: data) = [] :: dataLines [] true data :=
        dataLines_true_cons (by decide) data
      have hnormal : normalizeFrom true (cr :: data) = lf :: normalizeFrom true data := rfl
      have hempty : dataWeight [] = 0 := by decide
      rw [normalizeNewlines_cr, hcr, hnormal, weight_cons, hempty, List.length_cons]
      refine ⟨fun value => ?_, fun line => ?_, by omega, fun _ => by omega⟩
      · rw [dataLines_cr, weight_cons, dataWeight_written]
        refine ⟨by omega, fun hpaired => ?_⟩
        have := hafterLt fun h => by rw [(crPaired_cr data).mpr h] at hpaired; cases hpaired
        omega
      · have := dataWeight_le line
        rw [dataLines_cr, weight_cons]
        omega
    -- a LF behind a CR only completes the line end
    by_cases hc' : c = lf
    · subst hc'
      have hnormal : normalizeFrom true (lf :: data) = normalizeNewlines data := rfl
      rw [normalizeNewlines_lf, dataLines_cr_lf, hnormal, List.length_cons, crPaired_cons hc]
      refine ⟨fun value => ?_, fun line => ?_, by omega, fun h => ?_⟩
      · rw [dataLines_lf, weight_cons, dataWeight_written]
        exact ⟨by omega, fun hpaired => by have := hstart.2 hpaired; omega⟩
      · have := dataWeight_le line
        rw [dataLines_lf, weight_cons]
        omega
      · have := hstart.2 (by simpa using h)
        omega
    · have hplain : isNewline c = false := by simp [isNewline, hc, hc']
      have hnormal : normalizeFrom true (c :: data) = c :: normalizeNewlines data := by
        rw [normalizeFrom, if_neg (by simpa using hc'), hplain, if_neg Bool.false_ne_true]
        rfl
      rw [normalizeNewlines_cons hplain, dataLines_true_cons hc', hnormal, List.length_cons,
        crPaired_cons hc]
      have hshort := hline [c]
      rw [List.length_singleton] at hshort
      rw [dataLines_cons hplain, List.nil_append]
      refine ⟨fun value => ?_, fun line => ?_, by omega, fun _ => by omega⟩
      · have := hdata (value ++ [c])
        rw [List.length_append, List.length_singleton] at this
        rw [dataLines_cons hplain, List.append_assoc]
        exact ⟨by omega, fun hpaired => by have := this.2 hpaired; omega⟩
      · have := hline (line ++ [c])
        rw [List.length_append, List.length_singleton] at this
        rw [dataLines_cons hplain]
        omega

/-- The first line of data is a line of data. -/
lemma weight_dataLines_pos (data : Bytes) : 0 < weight (dataLines (bytes "data: ") false data) := by
  have hstarts := splitLines_prefix (bytes "data: ") [] (dataText data ++ [lf])
  have hne := splitLines_ne_nil [] (dataText data)
  rw [List.append_nil] at hstarts
  obtain ⟨first, rest, hlines⟩ := List.exists_cons_of_ne_nil hne
  rw [hlines] at hstarts
  rw [dataLines, hstarts, weight_cons, dataWeight_written]
  omega

/-! ### The events of lines -/

/-- The data of an incomplete event ends with a line end. -/
def Terminated (s : SseParser) : Prop := s.data = [] ∨ s.data.getLast? = some lf

/-- The weight of a line goes to the data of the event, or of the events that it dispatches. -/
lemma applyLine_accounts {s : SseParser} (hs : s.firstLine = false) (hdata : Terminated s)
    (line : Bytes) :
    Terminated (s.applyLine line) ∧ ∃ events, (s.applyLine line).dispatched = s.dispatched ++ events ∧
      eventWeight events + (s.applyLine line).data.length = s.data.length + dataWeight line := by
  have hsame : { s with firstLine := false } = s := by rw [← hs]
  have hstrip : stripMark s.firstLine line = line := by rw [hs]; rfl
  have hunnamed : fieldName line = [] → dataWeight line = 0 := by
    intro hname
    rw [dataWeight, hname, if_neg (by decide)]
  unfold applyLine
  dsimp only
  rw [hstrip, hsame]
  split_ifs with hempty hcomment
  · rw [hunnamed (by rw [List.isEmpty_iff.mp hempty]; rfl), dispatch]
    by_cases hnil : s.data = []
    · rw [if_pos (by simpa using hnil)]
      exact ⟨hdata, [], (List.append_nil _).symm, Nat.zero_add _⟩
    · have hlast : s.data.getLast? = some lf := hdata.resolve_left hnil
      have hpos : 0 < s.data.length := List.length_pos_iff.mpr hnil
      rw [if_neg (by simpa using hnil)]
      refine ⟨.inl rfl, _, rfl, ?_⟩
      simp only [eventWeight, popNewline, hlast, List.map_cons, List.map_nil, List.sum_cons,
        List.sum_nil, if_true, List.length_dropLast, List.length_nil]
      omega
  · obtain ⟨rest, rfl⟩ := List.head?_eq_some_iff.mp hcomment
    rw [hunnamed (by simp [fieldName])]
    exact ⟨hdata, [], (List.append_nil _).symm, Nat.zero_add _⟩
  · unfold applyField
    by_cases hname : fieldName line = bytes "data"
    · rw [if_pos hname, dataWeight, if_pos hname]
      refine ⟨.inr (by simp), [], (List.append_nil _).symm, ?_⟩
      simp [eventWeight]
    · rw [if_neg hname, dataWeight, if_neg hname]
      split_ifs
      · exact ⟨hdata, [], (List.append_nil _).symm, Nat.zero_add _⟩
      · exact ⟨hdata, [], (List.append_nil _).symm, Nat.zero_add _⟩
      · split <;> exact ⟨hdata, [], (List.append_nil _).symm, Nat.zero_add _⟩
      · exact ⟨hdata, [], (List.append_nil _).symm, Nat.zero_add _⟩

/-- The weights of two lists of events. -/
lemma eventWeight_append (u v : List SseEvent) :
    eventWeight (u ++ v) = eventWeight u + eventWeight v := by
  rw [eventWeight, List.map_append, List.sum_append, eventWeight, eventWeight]

/-- The weight of lines goes to the data of the event, or of the events that they dispatch. -/
lemma foldl_applyLine_accounts {s : SseParser} (hs : s.firstLine = false) (hdata : Terminated s)
    (lines : List Bytes) :
    ∃ events, (lines.foldl applyLine s).dispatched = s.dispatched ++ events ∧
      eventWeight events + (lines.foldl applyLine s).data.length = s.data.length + weight lines := by
  induction lines generalizing s with
  | nil => exact ⟨[], (List.append_nil _).symm, Nat.zero_add _⟩
  | cons line lines ih =>
    obtain ⟨hdata', first, hfirst, hweight⟩ := applyLine_accounts hs hdata line
    obtain ⟨events, hevents, hweights⟩ := ih (applyLine_firstLine s line) hdata'
    refine ⟨first ++ events, ?_, ?_⟩
    · rw [List.foldl_cons, hevents, hfirst, List.append_assoc]
    · rw [List.foldl_cons, eventWeight_append, weight_cons]
      omega

/-- After a blank line, a parser is between two events. -/
lemma clean_applyLine_blank {s : SseParser} (hs : s.firstLine = false) : (s.applyLine []).Clean := by
  rw [applyLine_blank hs, dispatch]
  by_cases hempty : s.data.isEmpty = true
  · rw [if_pos hempty]
    exact ⟨hs, List.isEmpty_iff.mp hempty, rfl, rfl⟩
  · rw [if_neg hempty]
    exact ⟨hs, rfl, rfl, rfl⟩

/-- Between two blank lines, all the weight of lines goes to events. -/
lemma foldl_applyLine_blank {s : SseParser} (hs : s.firstLine = false) (hdata : s.data = [])
    (lines : List Bytes) :
    ((lines ++ [[]]).foldl applyLine s).Clean ∧ ∃ events,
      ((lines ++ [[]]).foldl applyLine s).dispatched = s.dispatched ++ events ∧
        eventWeight events = weight lines := by
  have hclean : ((lines ++ [[]]).foldl applyLine s).Clean := by
    rw [List.foldl_append]
    exact clean_applyLine_blank (foldl_applyLine_firstLine hs lines)
  obtain ⟨events, hevents, hweight⟩ := foldl_applyLine_accounts hs (.inl hdata) (lines ++ [[]])
  refine ⟨hclean, events, hevents, ?_⟩
  have hblank : weight (lines ++ [[]]) = weight lines := by
    rw [weight, List.map_append, List.sum_append]
    rfl
  rw [hclean.data, hdata, hblank] at hweight
  exact hweight.trans (Nat.zero_add _)

/-! ### The events of calls -/

/-- The events of an event that is sent. -/
lemma foldl_formatSse_accounts {s : SseParser} (hs : s.Clean) {event : SseEvent}
    (hvalid : (WriterCall.send event).Valid) :
    ((linesOf (formatSse event)).foldl applyLine s).Clean ∧ ∃ events,
      ((linesOf (formatSse event)).foldl applyLine s).dispatched = s.dispatched ++ events ∧
        eventWeight events = weight (dataLines (bytes "data: ") false event.data) := by
  obtain ⟨hclosed, hannounced⟩ := announced_formatFields hs hvalid
  rw [(linesOf_formatSse hclosed).2, List.foldl_append, ← hannounced.dispatched]
  exact foldl_applyLine_blank hannounced.firstLine hannounced.data _

/-- The lines of a comment: one that is ignored, the extra ones and a blank line. -/
lemma linesOf_comment (value : Bytes) :
    Closed (WriterCall.comment value).written ∧ ∃ first,
      linesOf (WriterCall.comment value).written = (colon :: first) :: (extraLines value ++ [[]]) := by
  have hwritten : (WriterCall.comment value).written = bytes ": " ++ (value ++ [lf]) ++ [lf] := by
    simp [WriterCall.written]
  have hclosed : Closed (bytes ": " ++ (value ++ [lf])) :=
    .inr ⟨bytes ": " ++ value, (List.append_assoc _ _ _).symm⟩
  have hstart : linesOf (bytes ": " ++ (value ++ [lf])) =
      (splitLines (bytes ": " ++ []) false (value ++ [lf])).1 := rfl
  obtain ⟨first, rest, hlines⟩ := List.exists_cons_of_ne_nil (splitLines_ne_nil [] value)
  have hextra : extraLines value = rest := by rw [extraLines, hlines]; rfl
  rw [hwritten]
  refine ⟨.inr ⟨_, rfl⟩, sp :: first, ?_⟩
  rw [hclosed.linesOf_append, hstart, splitLines_prefix, hlines, hextra]
  rfl

/-- The events of a comment, and the id that it leaves. -/
lemma foldl_comment {s : SseParser} (hs : s.Clean) (value : Bytes) :
    ((linesOf (WriterCall.comment value).written).foldl applyLine s).Clean ∧
      ((linesOf (WriterCall.comment value).written).foldl applyLine s).lastId =
        (lastGivenId (extraLines value)).getD s.lastId ∧
      ∃ events, ((linesOf (WriterCall.comment value).written).foldl applyLine s).dispatched =
          s.dispatched ++ events ∧ eventWeight events = weight (extraLines value) := by
  obtain ⟨-, first, hlines⟩ := linesOf_comment value
  have hsame : { s with firstLine := false } = s := by rw [← hs.firstLine]
  have hstrip : stripMark s.firstLine (colon :: first) = colon :: first := by rw [hs.firstLine]; rfl
  have hignored : s.applyLine (colon :: first) = s := by
    unfold applyLine
    dsimp only
    rw [hstrip, hsame]
    rfl
  rw [hlines, List.foldl_cons, hignored]
  obtain ⟨hclean, hevents⟩ := foldl_applyLine_blank hs.firstLine hs.data (extraLines value)
  refine ⟨hclean, ?_, hevents⟩
  rw [lastId_foldl_applyLine hs.firstLine, lastGivenId, List.filterMap_append]
  have hblank : [[]].filterMap idField = [] := by decide
  rw [hblank, List.append_nil]
  rfl

/-- The events of a call. -/
lemma foldl_written {s : SseParser} (hs : s.Clean) {call : WriterCall} (hvalid : call.Valid) :
    Closed call.written ∧ ((linesOf call.written).foldl applyLine s).Clean ∧ ∃ events,
      ((linesOf call.written).foldl applyLine s).dispatched = s.dispatched ++ events ∧
        ∀ event ∈ call.event?,
          eventWeight events = weight (dataLines (bytes "data: ") false event.data) := by
  have hsend : ∀ event, (WriterCall.send event).Valid → Closed (formatSse event) ∧
      ((linesOf (formatSse event)).foldl applyLine s).Clean ∧ ∃ events,
        ((linesOf (formatSse event)).foldl applyLine s).dispatched = s.dispatched ++ events ∧
          eventWeight events = weight (dataLines (bytes "data: ") false event.data) :=
    fun event h => ⟨(linesOf_formatSse (announced_formatFields hs h).1).1,
      foldl_formatSse_accounts hs h⟩
  cases call with
  | send event =>
    obtain ⟨hclosed, hclean, events, hevents, hweight⟩ := hsend event hvalid
    refine ⟨hclosed, hclean, events, hevents, ?_⟩
    rintro _ ⟨rfl⟩
    exact hweight
  | data value =>
    obtain ⟨hclosed, hclean, events, hevents, hweight⟩ :=
      hsend { data := value } ⟨hvalid.event, hvalid.id, hvalid.retry⟩
    refine ⟨hclosed, hclean, events, hevents, ?_⟩
    rintro _ ⟨rfl⟩
    exact hweight
  | comment value =>
    obtain ⟨hclean, -, events, hevents, -⟩ := foldl_comment hs value
    exact ⟨(linesOf_comment value).1, hclean, events, hevents, fun event h => by cases h⟩

/-- The lines of all calls. -/
lemma linesOf_flatMap_written {s : SseParser} (hs : s.Clean) {calls : List WriterCall}
    (hvalid : ∀ call ∈ calls, call.Valid) :
    linesOf (calls.flatMap WriterCall.written) =
      calls.flatMap fun call => linesOf call.written := by
  induction calls with
  | nil => rfl
  | cons call calls ih =>
    have hclosed := (foldl_written hs (hvalid call List.mem_cons_self)).1
    rw [List.flatMap_cons, List.flatMap_cons, hclosed.linesOf_append,
      ih fun c hc => hvalid c (List.mem_cons_of_mem call hc)]

/-- Events have weight. -/
lemma ne_nil_of_eventWeight {events : List SseEvent} (h : 0 < eventWeight events) : events ≠ [] := by
  rintro rfl
  exact absurd h (by decide)

/-- Every event that is sent dispatches an event. -/
lemma length_expectedEvents_le {s : SseParser} (hs : s.Clean) (id : Bytes) {calls : List WriterCall}
    (hvalid : ∀ call ∈ calls, call.Valid) :
    ∃ events, ((calls.flatMap fun call => linesOf call.written).foldl applyLine s).dispatched =
      s.dispatched ++ events ∧ (expectedEvents id calls).length ≤ events.length := by
  induction calls generalizing s id with
  | nil => exact ⟨[], (List.append_nil _).symm, le_rfl⟩
  | cons call calls ih =>
    obtain ⟨-, hclean, events, hevents, hweight⟩ :=
      foldl_written hs (hvalid call List.mem_cons_self)
    have hlater := fun id' => ih hclean id' fun c hc => hvalid c (List.mem_cons_of_mem call hc)
    rw [List.flatMap_cons, List.foldl_append, expectedEvents]
    cases hcall : call.event? with
    | none =>
      obtain ⟨later, hlater, hle⟩ := hlater id
      refine ⟨events ++ later, by rw [hlater, hevents, List.append_assoc], ?_⟩
      rw [List.length_append]
      exact hle.trans (Nat.le_add_left _ _)
    | some event =>
      obtain ⟨later, hlater, hle⟩ := hlater (idAfter id event)
      have hpos : 0 < events.length := by
        refine List.length_pos_iff.mpr (ne_nil_of_eventWeight ?_)
        rw [hweight event hcall]
        exact weight_dataLines_pos event.data
      refine ⟨events ++ later, by rw [hlater, hevents, List.append_assoc], ?_⟩
      rw [List.length_append, List.length_cons]
      omega

/-- An event is dispatched as it is expected exactly if the id in force is known. -/
lemma expected_eq_iff (id readerId : Bytes) (event : SseEvent) :
    event.expected readerId = event.expected id ↔ (event.id = [] → readerId = id) := by
  unfold SseEvent.expected idAfter
  cases hid : event.id with
  | nil => simp
  | cons c rest => simp

/-- An event that is sent is dispatched as it is expected, before all others, exactly if its data
has no CR but before a LF and the id in force is known. -/
lemma dispatched_send_iff {s : SseParser} (hs : s.Clean) {event : SseEvent}
    (hvalid : (WriterCall.send event).Valid) (id : Bytes) (later expected : List SseEvent) :
    ((linesOf (formatSse event)).foldl applyLine s).dispatched ++ later =
        s.dispatched ++ event.expected id :: expected ↔
      crPaired event.data = true ∧ (event.id = [] → s.lastId = id) ∧ later = expected := by
  cases hpaired : crPaired event.data with
  | true =>
    obtain ⟨-, -, hdispatched⟩ := foldl_formatSse hs hvalid hpaired
    rw [hdispatched, List.append_assoc, List.append_cancel_left_eq, List.singleton_append,
      List.cons.injEq, expected_eq_iff]
    simp
  | false =>
    obtain ⟨-, events, hevents, hweight⟩ := foldl_formatSse_accounts hs hvalid
    have hlt := ((weight_dataLines event.data).1 []).2 hpaired
    have hpos := weight_dataLines_pos event.data
    rw [List.append_nil, List.length_nil, Nat.zero_add, ← hweight] at hlt
    rw [← hweight] at hpos
    obtain ⟨e, others, rfl⟩ := List.exists_cons_of_ne_nil (ne_nil_of_eventWeight hpos)
    refine iff_of_false (fun heq => ?_) (by simp)
    rw [hevents, List.append_assoc, List.append_cancel_left_eq, List.cons_append,
      List.cons.injEq] at heq
    -- the first event is shorter than what is expected
    rw [heq.1] at hlt
    simp only [eventWeight, SseEvent.expected, List.map_cons, List.sum_cons] at hlt
    omega

/-- Lines without data weigh nothing. -/
lemma weight_eq_zero_iff (lines : List Bytes) :
    weight lines = 0 ↔ ∀ line ∈ lines, fieldName line ≠ bytes "data" := by
  induction lines with
  | nil => simp [weight]
  | cons line lines ih =>
    rw [weight_cons, Nat.add_eq_zero_iff, ih, List.forall_mem_cons, dataWeight]
    by_cases hname : fieldName line = bytes "data" <;> simp [hname]

/-- Lines dispatch what is expected from the calls exactly if the calls do no harm. -/
lemma dispatched_eq_iff {s : SseParser} (hs : s.Clean) (id : Bytes) {calls : List WriterCall}
    (hvalid : ∀ call ∈ calls, call.Valid) :
    ((calls.flatMap fun call => linesOf call.written).foldl applyLine s).dispatched =
        s.dispatched ++ expectedEvents id calls ↔ Harmless id s.lastId calls := by
  induction calls generalizing s id with
  | nil => simp [expectedEvents, Harmless]
  | cons call calls ih =>
    have hrest : ∀ c ∈ calls, c.Valid := fun c hc => hvalid c (List.mem_cons_of_mem call hc)
    have hfirst := hvalid call List.mem_cons_self
    obtain ⟨-, hclean, -⟩ := foldl_written hs hfirst
    rw [List.flatMap_cons, List.foldl_append]
    have hsend : ∀ event, (WriterCall.send event).Valid → call.written = formatSse event →
        (((calls.flatMap fun call => linesOf call.written).foldl applyLine
          ((linesOf call.written).foldl applyLine s)).dispatched =
            s.dispatched ++ (event.expected id :: expectedEvents (idAfter id event) calls) ↔
          crPaired event.data = true ∧ (event.id = [] → s.lastId = id) ∧
            Harmless (idAfter id event) (idAfter s.lastId event) calls) := by
      intro event hevent hwritten
      obtain ⟨later, hlater, -⟩ := length_expectedEvents_le hclean (idAfter id event) hrest
      have hih := ih hclean (idAfter id event) hrest
      rw [hlater, List.append_cancel_left_eq] at hih
      rw [hlater, hwritten, dispatched_send_iff hs hevent]
      refine and_congr_right fun hpaired => and_congr_right fun _ => ?_
      rw [hih, hwritten, (foldl_formatSse hs hevent hpaired).2.1]
    cases call with
    | send event => exact hsend event hfirst rfl
    | data value =>
      refine (hsend { data := value } ⟨hfirst.event, hfirst.id, hfirst.retry⟩ rfl).trans ?_
      rw [Harmless]
      simp [idAfter]
    | comment value =>
      obtain ⟨-, hlastId, events, hevents, hweight⟩ := foldl_comment hs value
      obtain ⟨later, hlater, hlength⟩ := length_expectedEvents_le hclean id hrest
      have hexpected : expectedEvents id (.comment value :: calls) = expectedEvents id calls := rfl
      have hih := ih hclean id hrest
      rw [hlater, List.append_cancel_left_eq, hlastId] at hih
      rw [hlater, hevents, List.append_assoc, List.append_cancel_left_eq, hexpected, Harmless,
        ← weight_eq_zero_iff, ← hweight, ← hih]
      cases hnil : events with
      | nil => simp [eventWeight]
      | cons e others =>
        refine iff_of_false (fun heq => ?_) (by simp [eventWeight])
        have := congrArg List.length heq
        rw [List.length_append, List.length_cons] at this
        omega

/-! ### A writer and a reader -/

/-- The first line of a stream is its beginning. -/
lemma prefix_of_splitLines {line text first : Bytes} {rest : List Bytes}
    (h : (splitLines line false text).1 = first :: rest) : first <+: line ++ text := by
  induction text generalizing line with
  | nil => cases h
  | cons c text ih =>
    rw [splitLines, Bool.false_and, if_neg Bool.false_ne_true] at h
    split_ifs at h with hnewline
    · cases h
      exact List.prefix_append _ _
    · have := ih h
      rwa [List.append_assoc] at this

/-- What a call writes starts with the name of a field or with a colon. -/
lemma head_written (call : WriterCall) : ∃ c ≠ 0xef, call.written.head? = some c := by
  have hsend : ∀ event, ∃ c ≠ 0xef, (formatSse event).head? = some c := by
    intro event
    rw [formatSse, formatFields, flatMap_fieldLine_data, optionalLine, optionalLine]
    cases event.event.isEmpty with
    | false => exact ⟨0x65, by decide, rfl⟩
    | true =>
      cases event.id.isEmpty with
      | false => exact ⟨0x69, by decide, rfl⟩
      | true =>
        cases event.retry with
        | none => exact ⟨0x64, by decide, rfl⟩
        | some retry => exact ⟨0x72, by decide, rfl⟩
  cases call with
  | send event => exact hsend event
  | data value => exact hsend { data := value }
  | comment value => exact ⟨colon, by decide, rfl⟩

/-- What the calls write does not start with a byte order mark. -/
lemma completeLines_written (calls : List WriterCall) :
    completeLines (calls.flatMap WriterCall.written) =
      linesOf (calls.flatMap WriterCall.written) := by
  rw [linesOf, completeLines]
  cases hlines : (splitLines [] false (calls.flatMap WriterCall.written)).1 with
  | nil => rfl
  | cons first rest =>
    obtain ⟨after, hafter⟩ := prefix_of_splitLines hlines
    have hmark : byteOrderMark.isPrefixOf first = false := by
      refine Bool.eq_false_iff.mpr fun hmark => ?_
      obtain ⟨more, rfl⟩ := List.isPrefixOf_iff_prefix.mp hmark
      cases calls with
      | nil => cases hafter
      | cons call calls =>
        obtain ⟨c, hc, hhead⟩ := head_written call
        obtain ⟨tail, htail⟩ := List.head?_eq_some_iff.mp hhead
        rw [List.nil_append, List.flatMap_cons, htail] at hafter
        exact hc (List.cons.inj hafter).1.symm
    dsimp only
    rw [stripMark, hmark, Bool.and_false, if_neg Bool.false_ne_true]

/-- A reader that does not fail, and whose handlers do not throw, sees exactly one event for each
event that is sent, as it is expected, exactly if the calls do no harm. -/
theorem round_trip_iff (options : SseParserOptions) (handlers : List SseEvent → Option Thrown)
    (calls : List WriterCall) (chunks : List Bytes) (hvalid : ∀ call ∈ calls, call.Valid)
    (hchunks : chunks.flatten = calls.flatMap WriterCall.written)
    (h : (chunks.foldl feed (create options handlers)).failed = none) :
    (chunks.foldl feed (create options handlers)).dispatched =
        expectedEvents options.lastEventId calls ↔
      Harmless options.lastEventId options.lastEventId calls := by
  have hclean : Clean { create options handlers with firstLine := false } := ⟨rfl, rfl, rfl, rfl⟩
  have hlines : completeLines chunks.flatten =
      calls.flatMap fun call => linesOf call.written := by
    rw [hchunks, completeLines_written, linesOf_flatMap_written hclean hvalid]
  have hiff := dispatched_eq_iff hclean options.lastEventId hvalid
  rw [← hlines] at hiff
  have hdispatched := congrArg SseParser.dispatched (foldl_feed_of_ok h)
  rw [← hdispatched] at hiff
  exact hiff

/-- A CR in data forges the data and the id of events, and a second line of a comment forges an
event, although the reader does not fail. -/
theorem forged_by_data_and_comment :
    (feed (create {} fun _ => none)
        (WriterCall.data (bytes "a\rdata: b\r\rid: 7")).written).failed = none ∧
      (feed (create {} fun _ => none)
        (WriterCall.data (bytes "a\rdata: b\r\rid: 7")).written).dispatched ≠
        expectedEvents [] [.data (bytes "a\rdata: b\r\rid: 7")] ∧
      (feed (create {} fun _ => none)
        (WriterCall.comment (bytes "x\ndata: evil")).written).failed = none ∧
      (feed (create {} fun _ => none)
        (WriterCall.comment (bytes "x\ndata: evil")).written).dispatched ≠
        expectedEvents [] [.comment (bytes "x\ndata: evil")] := by
  refine ⟨?_, ?_, ?_, ?_⟩ <;> decide +kernel

/-- Texts with LFs, and a comment of one line, do no harm. -/
theorem round_trip_harmless :
    ([bytes ": x\n\nid: 1\ndata: a\r\nda", bytes "ta: b\n\n"].foldl feed
        (create {} fun _ => none)).dispatched =
      expectedEvents [] [.comment (bytes "x"), .send { data := bytes "a\r\nb", id := bytes "1" }] :=
  (round_trip_iff {} (fun _ => none)
    [.comment (bytes "x"), .send { data := bytes "a\r\nb", id := bytes "1" }]
    [bytes ": x\n\nid: 1\ndata: a\r\nda", bytes "ta: b\n\n"]
    (by
      intro call hcall
      fin_cases hcall
      · exact ⟨fun e he => by (cases he), fun e he => by (cases he), fun e he => by (cases he)⟩
      · refine ⟨?_, ?_, ?_⟩ <;> rintro e ⟨rfl⟩
        · decide +kernel
        · decide +kernel
        · rintro r ⟨⟩)
    (by decide +kernel) (by decide +kernel)).mpr
    ⟨by decide +kernel, by decide +kernel, fun _ => rfl, trivial⟩

end Chhttp.Sse
