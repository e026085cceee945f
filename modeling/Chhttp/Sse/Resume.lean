import Chhttp.Sse.Lines

/-!
# Resuming an event stream

When a connection ends, `SseClient` finishes its parser and asks the server to resume after
`last_event_id()`.  The parser adopts an id when its line ends, and `finish` keeps it, also when it
belongs to an event that has not been dispatched.

A parser that fails stops at the line that is too long, exceeds the limit of an event, or has its
handler throw.  The client reconnects all the same, with the id that the lines before it gave: the
lines that a parser takes (`takenLines`) decide, and a parser that does not fail takes all of them
(`takenLines_of_ok`).
-/

namespace Chhttp.Sse

open SseParser

/-! ### The source -/

/-- One connection of `SseClient::Impl::connect` that ends by itself: the parser, which starts with
the id that is held, after the chunks that have arrived. -/
def connection (options : SseParserOptions) (handlers : List SseEvent → Option Thrown)
    (received : List Bytes) : SseParser :=
  (received.foldl feed (create options handlers)).finish

/-- The `Last-Event-ID` of the next connection.  The source takes it from the parser, also after an
error. -/
def nextLastEventId (options : SseParserOptions) (handlers : List SseEvent → Option Thrown)
    (received : List Bytes) : Bytes :=
  (connection options handlers received).lastId

/-! ### Ids in a stream -/

/-- The id that a line gives. -/
def idField (line : Bytes) : Option Bytes :=
  if fieldName line = bytes "id" ∧ 0 ∉ fieldValue line then some (fieldValue line) else none

/-- The last id that is given by `lines`. -/
def lastGivenId (lines : List Bytes) : Option Bytes := (lines.filterMap idField).getLast?

/-- The id in force at the last dispatch point, the last blank line; before the first one it is the
id that is held. -/
def idAtDispatch (held : Bytes) (lines : List Bytes) : Bytes :=
  (lastGivenId (lines.rdropWhile fun line => !line.isEmpty)).getD held

/-- The lines of the event that is incomplete.  They stand behind the last blank line. -/
def incompleteEvent (lines : List Bytes) : List Bytes :=
  lines.rtakeWhile fun line => !line.isEmpty

/-- The size of an event, as its limit counts it. -/
def SseParser.eventSize (s : SseParser) : ℕ := s.data.length + s.eventType.length + s.lastId.length

/-- A line with a field that counts for the size of the event. -/
def CountsForSize (value : Bytes) : Prop :=
  fieldName value = bytes "data" ∨ fieldName value = bytes "event" ∨
    fieldName value = bytes "id" ∧ 0 ∉ fieldValue value

/-- A line at which a parser stops.  It is too long, or its field makes the event larger than the
limit, or it is a blank line that completes an event on which the handler throws.  `applyLine` is what
the line would do without the limits. -/
def SseParser.StopsAt (s : SseParser) (line : Bytes) : Prop :=
  let value := stripMark s.firstLine line
  s.options.maxLineSize < line.length ∨
    if value.isEmpty then
      s.data.isEmpty = false ∧ (s.handlers (s.applyLine line).dispatched).isSome = true
    else CountsForSize value ∧ s.options.maxEventSize < (s.applyLine line).eventSize

instance (value : Bytes) : Decidable (CountsForSize value) :=
  inferInstanceAs (Decidable (_ ∨ _ ∨ _))

instance (s : SseParser) (line : Bytes) : Decidable (s.StopsAt line) :=
  inferInstanceAs (Decidable (_ ∨ _))

/-- How many lines a parser takes before it stops at one. -/
def SseParser.takenCount : SseParser → List Bytes → ℕ
  | _, [] => 0
  | s, line :: rest => if s.StopsAt line then 0 else takenCount (s.applyLine line) rest + 1

/-- The complete lines of a stream that the parser of a connection takes.  A byte order mark counts
for the length of the first one. -/
def takenLines (options : SseParserOptions) (handlers : List SseEvent → Option Thrown)
    (stream : Bytes) : List Bytes :=
  (completeLines stream).take (takenCount (create options handlers) (splitLines [] false stream).1)

/-- A line that gives an id changes the id to it; no other line does. -/
lemma lastId_applyLine (s : SseParser) (line : Bytes) :
    (s.applyLine line).lastId = (idField (stripMark s.firstLine line)).getD s.lastId := by
  unfold applyLine
  dsimp only
  generalize stripMark s.firstLine line = value
  have hunnamed : fieldName value = [] → idField value = none := by
    intro hname
    rw [idField, hname, if_neg (fun hid => absurd hid.1 (by decide))]
  split_ifs with hempty hcomment
  · rw [hunnamed (by rw [List.isEmpty_iff.mp hempty]; rfl)]
    unfold dispatch
    split_ifs <;> rfl
  · obtain ⟨rest, rfl⟩ := List.head?_eq_some_iff.mp hcomment
    rw [hunnamed (by simp [fieldName])]
    rfl
  · unfold applyField
    rw [idField]
    by_cases hid : fieldName value = bytes "id" ∧ 0 ∉ fieldValue value
    · have hdata : ¬fieldName value = bytes "data" := by rw [hid.1]; decide
      have hevent : ¬fieldName value = bytes "event" := by rw [hid.1]; decide
      rw [if_neg hdata, if_neg hevent, if_pos hid, if_pos hid]
      rfl
    · rw [if_neg hid, if_neg hid]
      split_ifs
      · rfl
      · rfl
      · split <;> rfl
      · rfl

/-- The id after complete lines is the last one that they give. -/
lemma lastId_foldl_applyLine {s : SseParser} (h : s.firstLine = false) (lines : List Bytes) :
    (lines.foldl applyLine s).lastId = (lastGivenId lines).getD s.lastId := by
  induction lines generalizing s with
  | nil => rfl
  | cons line lines ih =>
    rw [List.foldl_cons, ih (applyLine_firstLine s line), lastId_applyLine, h]
    have hstrip : stripMark false line = line := rfl
    rw [hstrip, lastGivenId, lastGivenId, List.filterMap_cons]
    cases idField line with
    | none => rfl
    | some id => simp only [Option.getD_some, List.getLast?_cons]

/-- `finish` keeps the id and the error. -/
lemma finish_kept (s : SseParser) : s.finish.failed = s.failed ∧ s.finish.lastId = s.lastId := by
  unfold finish
  split_ifs <;> exact ⟨rfl, rfl⟩

/-! ### The lines that a parser takes -/

/-- A line that makes a parser fail leaves the id. -/
lemma lastId_of_failed {s : SseParser} {line : Bytes} (h : (s.processLine line).1 ≠ none) :
    (s.processLine line).2.lastId = s.lastId := by
  unfold processLine dispatch processField at h ⊢
  dsimp only at h ⊢
  split_ifs at h ⊢
  all_goals try rfl
  · exact absurd rfl h
  · split <;> rfl

/-- A field fails exactly when it counts for the size of the event and makes the event larger than
the limit. -/
lemma processField_isSome_iff (s : SseParser) (value : Bytes) :
    (s.processField (fieldName value) (fieldValue value)).1.isSome = true ↔
      CountsForSize value ∧
        s.options.maxEventSize < (s.applyField (fieldName value) (fieldValue value)).eventSize := by
  unfold processField applyField CountsForSize exceedsEventLimit eventSize
  by_cases hdata : fieldName value = bytes "data"
  · -- the first two comparisons of the source only keep its subtractions from wrapping
    rw [if_pos hdata, if_pos hdata]
    split_ifs with hlarge
    · simp only [decide_eq_true_eq] at hlarge
      refine iff_of_true rfl ⟨.inl hdata, ?_⟩
      simp only [List.length_append, List.length_singleton]
      omega
    · simp only [decide_eq_true_eq, not_or] at hlarge
      refine iff_of_false Bool.false_ne_true fun h => ?_
      have hsize := h.2
      simp only [List.length_append, List.length_singleton] at hsize
      omega
  rw [if_neg hdata, if_neg hdata]
  by_cases htype : fieldName value = bytes "event"
  · rw [if_pos htype, if_pos htype]
    split_ifs with hlarge
    · exact iff_of_true rfl ⟨.inr (.inl htype), of_decide_eq_true hlarge⟩
    · exact iff_of_false Bool.false_ne_true fun h => hlarge (decide_eq_true h.2)
  rw [if_neg htype, if_neg htype]
  by_cases hid : fieldName value = bytes "id" ∧ 0 ∉ fieldValue value
  · rw [if_pos hid, if_pos hid]
    split_ifs with hlarge
    · exact iff_of_true rfl ⟨.inr (.inr hid), of_decide_eq_true hlarge⟩
    · exact iff_of_false Bool.false_ne_true fun h => hlarge (decide_eq_true h.2)
  rw [if_neg hid, if_neg hid]
  have hcounts : ¬ (fieldName value = bytes "data" ∨ fieldName value = bytes "event" ∨
      fieldName value = bytes "id" ∧ 0 ∉ fieldValue value) := by
    rintro (h | h | h)
    · exact hdata h
    · exact htype h
    · exact hid h
  refine iff_of_false ?_ fun h => hcounts h.1
  split_ifs
  · cases parseRetry (fieldValue value) <;> exact Bool.false_ne_true
  · exact Bool.false_ne_true

/-- The parser stops at a line that is too long or that it fails on. -/
lemma stopsAt_iff (s : SseParser) (line : Bytes) :
    s.StopsAt line ↔
      s.options.maxLineSize < line.length ∨ (s.processLine line).1.isSome = true := by
  unfold StopsAt processLine applyLine
  dsimp only
  refine or_congr_right ?_
  by_cases hempty : (stripMark s.firstLine line).isEmpty = true
  · rw [if_pos hempty, if_pos hempty, if_pos hempty]
    unfold dispatch
    cases s.data.isEmpty <;> simp
  rw [if_neg hempty, if_neg hempty, if_neg hempty]
  by_cases hcomment : (stripMark s.firstLine line).head? = some colon
  · -- a comment has no field
    rw [if_pos hcomment, if_pos hcomment]
    obtain ⟨rest, hrest⟩ := List.head?_eq_some_iff.mp hcomment
    refine iff_of_false (fun h => ?_) Bool.false_ne_true
    have hname : fieldName (stripMark s.firstLine line) = [] := by
      rw [hrest]
      simp [fieldName]
    have hcounts := h.1
    rw [CountsForSize, hname] at hcounts
    rcases hcounts with h | h | ⟨h, -⟩ <;> cases h
  · rw [if_neg hcomment, if_neg hcomment]
    exact (processField_isSome_iff { s with firstLine := false } _).symm

/-- A line that is taken has its effect, and the count goes on behind it. -/
lemma takenCount_cons (s : SseParser) (line : Bytes) (rest : List Bytes) :
    s.takenCount (line :: rest) =
      if s.options.maxLineSize < line.length ∨ (s.processLine line).1.isSome = true then 0
      else takenCount (s.processLine line).2 rest + 1 := by
  rw [takenCount]
  by_cases hstops : s.StopsAt line
  · rw [if_pos hstops, if_pos ((stopsAt_iff s line).mp hstops)]
  · have hok := mt (stopsAt_iff s line).mpr hstops
    rw [if_neg hstops, if_neg hok,
      processLine_of_ok (Option.not_isSome_iff_eq_none.mp fun h => hok (.inr h))]

/-- A line that has begun only gets longer. -/
lemma takenCount_of_long {s : SseParser} {line : Bytes} (h : s.options.maxLineSize < line.length)
    (text : Bytes) : s.takenCount (splitLines line false text).1 = 0 := by
  have hlines := splitLines_prefix line [] text
  rw [List.append_nil] at hlines
  rw [hlines]
  cases (splitLines [] false text).1 with
  | nil => rfl
  | cons first rest =>
    rw [takenCount_cons, if_pos]
    left
    rw [List.length_append]
    omega

/-- The id after any bytes is the one after the lines that are taken, and a parser that has not
failed has taken all lines. -/
theorem lastId_foldl_step {s : SseParser} (h : s.failed = none)
    (hline : s.line.length ≤ s.options.maxLineSize) (fed : Bytes) :
    let lines := (splitLines s.line s.skipLf fed).1
    (fed.foldl step s).lastId =
        ((lines.take (s.core.takenCount lines)).foldl applyLine s.core).lastId ∧
      ((fed.foldl step s).failed = none → s.core.takenCount lines = lines.length) := by
  induction fed generalizing s with
  | nil => exact ⟨rfl, fun _ => rfl⟩
  | cons c rest ih =>
    dsimp only at ih ⊢
    rw [List.foldl_cons, step, if_neg (by simp [h]), splitLines]
    by_cases hskip : (s.skipLf && c == lf) = true
    · rw [if_pos hskip, if_pos hskip]
      exact @ih { s with skipLf := false } h hline
    rw [if_neg hskip, if_neg hskip, accept]
    by_cases hnewline : isNewline c = true
    · -- the line that waits is complete
      rw [if_pos hnewline, if_pos hnewline]
      dsimp only
      have hkept := processLine_kept { s with skipLf := false } s.line
      have hfail := @lastId_of_failed { s with skipLf := false } s.line
      have hcore : s.core.processLine s.line =
          ((processLine { s with skipLf := false } s.line).1,
            (processLine { s with skipLf := false } s.line).2.core) :=
        processLine_core { s with skipLf := false } s.line
      have happly := @endLine_of_ok { s with skipLf := false } s.line
      rw [takenCount_cons, hcore]
      rcases hprocess : processLine { s with skipLf := false } s.line with ⟨_ | e, t⟩
      · rw [hprocess] at hkept
        have hend : endLine { s with skipLf := false } s.line = t := by
          rw [endLine, if_neg (by simp [h])]
          simp only [hprocess]
        have hstart : s.core.applyLine s.line = t.core := by
          have ht := (happly (hend ▸ hkept.2.2.2.1.trans h)).2
          rw [← hend, ht]
          exact core_applyLine { s with skipLf := false } s.line
        rw [if_neg (by simpa [core] using hline)]
        obtain ⟨hid, hcount⟩ := @ih { t with line := [], skipLf := c == cr }
          (hkept.2.2.2.1.trans h) (Nat.zero_le _)
        refine ⟨?_, fun hok => congrArg Nat.succ (hcount hok)⟩
        rw [List.take_succ_cons, List.foldl_cons, hstart]
        exact hid
      · rw [hprocess] at hfail
        rw [if_pos (by simp)]
        dsimp only
        rw [foldl_step_of_failed rfl]
        exact ⟨hfail (by simp), fun hok => by cases hok⟩
    · rw [if_neg hnewline, if_neg hnewline]
      by_cases hlimit : s.options.maxLineSize ≤ s.line.length
      · -- the line is too long, and stays so whatever follows
        have hcount : s.core.takenCount (splitLines (s.line ++ [c]) false rest).1 = 0 :=
          takenCount_of_long (by rw [List.length_append]; exact Nat.lt_succ_of_le hlimit) rest
        rw [if_pos hlimit, foldl_step_of_failed rfl, hcount]
        exact ⟨rfl, fun hok => by cases hok⟩
      · rw [if_neg hlimit]
        refine @ih { s with line := s.line ++ [c], skipLf := false } h ?_
        rw [List.length_append]
        exact Nat.lt_of_not_le hlimit

/-- A parser that does not fail takes all lines.  The others are those behind the line at which the
parser failed. -/
theorem takenLines_of_ok {options : SseParserOptions} {handlers : List SseEvent → Option Thrown}
    {received : List Bytes} (h : (connection options handlers received).failed = none) :
    takenLines options handlers received.flatten = completeLines received.flatten := by
  have hsame := foldl_feed_same (bounded_create options handlers) received
  have hfed : (received.flatten.foldl step (create options handlers)).failed = none :=
    hsame.failed.symm.trans ((finish_kept _).1.symm.trans h)
  have hcount := (@lastId_foldl_step (create options handlers) rfl (Nat.zero_le _)
    received.flatten).2 hfed
  refine List.take_of_length_le (le_of_eq ?_)
  refine Eq.trans ?_ hcount.symm
  unfold completeLines
  show _ = (splitLines [] false received.flatten).1.length
  cases (splitLines [] false received.flatten).1 <;> rfl

/-- The id that the next connection sends is the last one of the lines that were taken.  It does not
ask whether the event of that line was ever dispatched; this is the difference to the claim. -/
theorem nextLastEventId_eq (options : SseParserOptions) (handlers : List SseEvent → Option Thrown)
    (received : List Bytes) :
    nextLastEventId options handlers received =
      (lastGivenId (takenLines options handlers received.flatten)).getD options.lastEventId := by
  have hsame := foldl_feed_same (bounded_create options handlers) received
  have hid : nextLastEventId options handlers received =
      (received.flatten.foldl step (create options handlers)).lastId :=
    (finish_kept _).2.trans (congrArg Observation.lastId hsame.observe)
  rw [hid, (@lastId_foldl_step (create options handlers) rfl (Nat.zero_le _) received.flatten).1,
    takenLines, completeLines]
  have hstart : (splitLines (create options handlers).line (create options handlers).skipLf
      received.flatten).1 = (splitLines [] false received.flatten).1 := rfl
  have hcore : (create options handlers).core = create options handlers := rfl
  rw [hstart, hcore]
  generalize takenCount (create options handlers) _ = count
  cases (splitLines [] false received.flatten).1 with
  | nil =>
    dsimp only
    rw [List.take_nil]
    rfl
  | cons first rest =>
    cases count with
    | zero => rfl
    | succ count =>
      -- only the first line can have a byte order mark
      rw [List.take_succ_cons, List.take_succ_cons, List.foldl_cons,
        lastId_foldl_applyLine (applyLine_firstLine _ first), lastId_applyLine, lastGivenId,
        lastGivenId, List.filterMap_cons]
      have hstrip : stripMark (create options handlers).firstLine first = stripMark true first := rfl
      rw [hstrip]
      cases idField (stripMark true first) with
      | none => rfl
      | some id => simp only [Option.getD_some, List.getLast?_cons]

/-- The last id of some lines is the last one after a point, or else the last one before it. -/
lemma lastGivenId_append (u v : List Bytes) (held : Bytes) :
    (lastGivenId (u ++ v)).getD held = (lastGivenId v).getD ((lastGivenId u).getD held) := by
  rw [lastGivenId, List.filterMap_append, List.getLast?_append, lastGivenId, lastGivenId]
  cases (v.filterMap idField).getLast? <;> rfl

/-- Lines without a blank one do not move the dispatch point. -/
lemma rdropWhile_append_of_nonblank {u v : List Bytes} (h : ∀ line ∈ v, line ≠ []) :
    (u ++ v).rdropWhile (fun line => !line.isEmpty) = u.rdropWhile fun line => !line.isEmpty := by
  rw [List.rdropWhile, List.rdropWhile, List.reverse_append, List.dropWhile_append_of_pos]
  intro line hline
  simpa using h line (List.mem_reverse.mp hline)

/-- A blank line moves it. -/
lemma rdropWhile_append_of_blank {u v : List Bytes} (h : [] ∈ v) :
    (u ++ v).rdropWhile (fun line => !line.isEmpty) =
      u ++ v.rdropWhile fun line => !line.isEmpty := by
  have hstops : (v.reverse.dropWhile fun line => !line.isEmpty).isEmpty = false := by
    rw [List.isEmpty_eq_false_iff, Ne, List.dropWhile_eq_nil_iff]
    intro hall
    have := hall [] (List.mem_reverse.mpr h)
    simp at this
  rw [List.rdropWhile, List.rdropWhile, List.reverse_append, List.dropWhile_append, hstops,
    if_neg Bool.false_ne_true, List.reverse_append, List.reverse_reverse]

/-- A default that is overridden only by itself. -/
lemma eq_getD_iff {held : Bytes} {given : Option Bytes} :
    given.getD held = held ↔ ∀ id ∈ given, id = held := by
  cases given <;> simp

/-- The next connection resumes at the last blank line that was received exactly if no other id is
given between it and the line where the parser stopped.  If the parser took all lines up to that
blank line and beyond, these are the lines of the incomplete event that it took.  If it failed
before, they are the lines from there to the blank line. -/
theorem resumes_at_dispatch_iff (options : SseParserOptions)
    (handlers : List SseEvent → Option Thrown) (received : List Bytes) :
    let lines := completeLines received.flatten
    let taken := takenLines options handlers received.flatten
    let left := lines.drop taken.length
    nextLastEventId options handlers received = idAtDispatch options.lastEventId lines ↔
      if [] ∈ left then
        ∀ id ∈ lastGivenId (left.rdropWhile fun line => !line.isEmpty),
          id = (lastGivenId taken).getD options.lastEventId
      else
        ∀ id ∈ lastGivenId (incompleteEvent taken), id = idAtDispatch options.lastEventId taken := by
  intro lines taken left
  have hlines : lines = taken ++ left := by
    have htake : taken <+: lines := List.take_prefix _ _
    rw [← List.prefix_append_drop htake]
  rw [nextLastEventId_eq]
  change (lastGivenId taken).getD _ = _ ↔ _
  by_cases hblank : [] ∈ left
  · rw [if_pos hblank, idAtDispatch, hlines, rdropWhile_append_of_blank hblank,
      lastGivenId_append, ← eq_getD_iff]
    exact eq_comm
  · have hnonblank : ∀ line ∈ left, line ≠ [] := by
      rintro line hline rfl
      exact hblank hline
    have hsplit : taken = taken.rdropWhile (fun line => !line.isEmpty) ++ incompleteEvent taken := by
      rw [incompleteEvent, List.rdropWhile, List.rtakeWhile, ← List.reverse_append,
        List.takeWhile_append_dropWhile, List.reverse_reverse]
    have hsame : idAtDispatch options.lastEventId lines = idAtDispatch options.lastEventId taken := by
      rw [idAtDispatch, hlines, rdropWhile_append_of_nonblank hnonblank, idAtDispatch]
    have hnext : (lastGivenId taken).getD options.lastEventId =
        (lastGivenId (incompleteEvent taken)).getD (idAtDispatch options.lastEventId taken) := by
      conv_lhs => rw [hsplit]
      rw [lastGivenId_append, idAtDispatch]
    rw [if_neg hblank, hsame, hnext, eq_getD_iff]

/-- An id whose event is cut off is sent with the next request.  The server goes on behind that
event, which the client has never seen. -/
theorem cut_off_event_skipped :
    nextLastEventId {} (fun _ => none) [bytes "id: 1\ndata: a\n\n", bytes "id: 2\ndata: b\n"] =
        bytes "2" ∧
      nextLastEventId {} (fun _ => none) [bytes "id: 1\ndata: a\n\n", bytes "id: 2\ndata: b\n"] ≠
        idAtDispatch [] (completeLines (bytes "id: 1\ndata: a\n\nid: 2\ndata: b\n")) := by
  constructor <;> decide +kernel

/-- An event that exceeds the limit makes the parser fail, and the next connection resumes at the
blank line before it, although its id was received. -/
theorem resumes_at_dispatch_of_failed :
    (connection { maxEventSize := 8 } (fun _ => none)
        [bytes "id: 1\ndata: a\n\ndata: 12345678\nid: 2\n"]).failed.isSome = true ∧
      nextLastEventId { maxEventSize := 8 } (fun _ => none)
          [bytes "id: 1\ndata: a\n\ndata: 12345678\nid: 2\n"] =
        idAtDispatch [] (completeLines (bytes "id: 1\ndata: a\n\ndata: 12345678\nid: 2\n")) := by
  refine ⟨by decide +kernel, ?_⟩
  refine (resumes_at_dispatch_iff { maxEventSize := 8 } (fun _ => none)
    [bytes "id: 1\ndata: a\n\ndata: 12345678\nid: 2\n"]).mpr ?_
  decide +kernel

end Chhttp.Sse
