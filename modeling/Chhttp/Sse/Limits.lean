import Chhttp.Sse.Fragments

/-!
# The limits of the parser of event streams

In every reachable state the line that waits, and the data, the type and the id of the event, are
within their limits (`Within`), whatever the calls were.  The checks do not underflow: `checkedSub`
and `checkedAdd` fail where a `std::size_t` would wrap around, and with them the checks have the
same result.

A parser with larger limits is the measure of what is lost: until the parser fails it is in the same
state (`Follows`), so nothing is cut, and what it has dispatched when it fails is the beginning of
what the other dispatches.
-/

namespace Chhttp.Sse.SseParser

/-! ### Bounds -/

/-- The sizes are within the limits.  The line that is being read, and the fields of the event that
is being put together, each have a limit. -/
structure Within (s : SseParser) : Prop where
  given : s.options.lastEventId.length ≤ s.options.maxEventSize
  line : s.line.length ≤ s.options.maxLineSize
  event : s.data.length + s.eventType.length + s.lastId.length ≤ s.options.maxEventSize

/-- A field is taken over within the limit. -/
lemma Within.processField {s : SseParser} (h : s.Within) (field value : Bytes) :
    (s.processField field value).2.Within := by
  obtain ⟨hgiven, hline, hevent⟩ := h
  unfold SseParser.processField
  split_ifs with hdata hlarge htype hlarge hid hlarge hretry
  · exact ⟨hgiven, hline, hevent⟩
  · refine ⟨hgiven, hline, ?_⟩
    simp only [exceedsEventLimit, decide_eq_true_eq, not_or] at hlarge
    simp only [List.length_append, List.length_singleton]
    omega
  · exact ⟨hgiven, hline, hevent⟩
  · refine ⟨hgiven, hline, ?_⟩
    simpa [exceedsEventLimit] using hlarge
  · exact ⟨hgiven, hline, hevent⟩
  · refine ⟨hgiven, hline, ?_⟩
    simpa [exceedsEventLimit] using hlarge
  · split
    · exact ⟨hgiven, hline, hevent⟩
    · exact ⟨hgiven, hline, hevent⟩
  · exact ⟨hgiven, hline, hevent⟩

/-- A dispatched event takes no space. -/
lemma Within.dispatch {s : SseParser} (h : s.Within) : s.dispatch.2.Within := by
  have hevent := h.event
  unfold SseParser.dispatch
  by_cases hdata : s.data.isEmpty = true
  · rw [if_pos hdata]
    refine ⟨h.given, h.line, ?_⟩
    simp only [List.length_nil]
    omega
  · rw [if_neg hdata]
    refine ⟨h.given, h.line, ?_⟩
    simp only [List.length_nil]
    omega

/-- A line is processed within the limits. -/
lemma Within.processLine {s : SseParser} (h : s.Within) (value : Bytes) :
    (s.processLine value).2.Within := by
  have hs : Within { s with firstLine := false } := ⟨h.given, h.line, h.event⟩
  unfold SseParser.processLine
  dsimp only
  split_ifs with hempty hcomment
  · exact hs.dispatch
  · exact hs
  · exact hs.processField _ _

/-- What is left of an iteration, or what it leaves, is within the limits. -/
lemma Within.feedLine {s : SseParser} (h : s.Within) (bytes : Bytes) :
    match SseParser.feedLine s bytes with
    | .leave t => t.Within
    | .again v => v.1.Within := by
  unfold SseParser.feedLine
  dsimp only
  cases hend : bytes.findIdx? isNewline with
  | none =>
    dsimp only [Option.getD_none]
    split_ifs with hlong
    · exact ⟨h.given, h.line, h.event⟩
    · refine ⟨h.given, ?_, h.event⟩
      simp only [List.length_append]
      omega
  | some n =>
    obtain ⟨hn, -⟩ := List.findIdx?_eq_some_iff_getElem.mp hend
    dsimp only [Option.getD_some]
    by_cases hlong : s.options.maxLineSize < n ∨ s.options.maxLineSize - n < s.line.length
    · rw [if_pos hlong]
      exact ⟨h.given, h.line, h.event⟩
    rw [if_neg hlong]
    -- the line that waits may grow by the segment
    have hline : Within (if s.line.isEmpty then s else { s with line := s.line ++ bytes.take n }) := by
      split_ifs
      · exact h
      · refine ⟨h.given, ?_, h.event⟩
        simp only [List.length_append, List.length_take]
        omega
    obtain ⟨line, hstate, hvalue⟩ := line_of_segment s (bytes.take n)
    rw [hstate] at hline
    have hprocessed := hline.processLine (s.line ++ bytes.take n)
    simp only [hstate, hvalue]
    cases hresult : SseParser.processLine { s with line := line } (s.line ++ bytes.take n) with
    | mk error t =>
      rw [hresult] at hprocessed
      cases error with
      | some e => exact ⟨hprocessed.given, hprocessed.line, hprocessed.event⟩
      | none => exact ⟨hprocessed.given, Nat.zero_le _, hprocessed.event⟩

/-- A call of `feed` stays within the limits. -/
lemma Within.feed {s : SseParser} (h : s.Within) (bytes : Bytes) : (s.feed bytes).Within := by
  unfold SseParser.feed
  split_ifs with hfailed
  · exact h
  have hskip : ∀ s : SseParser, s.Within → Within { s with skipLf := false } :=
    fun s h => ⟨h.given, h.line, h.event⟩
  refine Loop.run_induct feedStep_decreases (P := fun v r => v.1.Within → r.Within) ?_ ?_ (s, bytes) h
  · rintro ⟨s, bytes⟩ r hleave h
    unfold feedStep at hleave
    dsimp only at hleave
    split_ifs at hleave with hempty hskipped
    · cases hleave
      exact h
    · cases hleave
      exact hskip s h
    · have hstep := (hskip s h).feedLine (s.skipLineFeed bytes)
      rwa [hleave] at hstep
  · rintro ⟨s, bytes⟩ v r hagain ih h
    unfold feedStep at hagain
    dsimp only at hagain
    split_ifs at hagain with hempty hskipped
    have hstep := (hskip s h).feedLine (s.skipLineFeed bytes)
    rw [hagain] at hstep
    exact ih hstep

/-- Every call stays within the limits. -/
lemma Within.call {s : SseParser} (h : s.Within) (c : Call) : (s.call c).Within := by
  cases c with
  | feed bytes => exact h.feed bytes
  | finish =>
    unfold SseParser.call SseParser.finish
    dsimp only
    split_ifs
    · exact h
    · have hevent := h.event
      refine ⟨h.given, Nat.zero_le _, ?_⟩
      simp only [List.length_nil]
      omega
  | reset =>
    refine ⟨h.given, Nat.zero_le _, ?_⟩
    simpa [SseParser.call, SseParser.reset] using h.given

/-! ### The arithmetic of the checks -/

/-- The loop of `exceeds_event_limit`. -/
def sizesExceed : (remaining : ℕ) → List ℕ → Option Bool
  | _, [] => some false
  | remaining, size :: sizes =>
    if remaining < size then some true
    else (checkedSub remaining size).bind fun remaining => sizesExceed remaining sizes

/-- The check of a data field. -/
def dataExceeds (s : SseParser) (value : Bytes) : Option Bool :=
  if s.options.maxEventSize ≤ value.length then some true
  else
    (checkedSub s.options.maxEventSize value.length).bind fun rest =>
      (checkedSub rest 1).bind fun rest =>
        if rest < s.data.length then some true
        else
          (checkedAdd s.data.length value.length).bind fun dataSize =>
            (checkedAdd dataSize 1).bind fun dataSize =>
              sizesExceed s.options.maxEventSize [dataSize, s.eventType.length, s.lastId.length]

/-- The check of a field.  It is none where a subtraction of the source would wrap. -/
def fieldExceeds (s : SseParser) (field value : Bytes) : Option Bool :=
  if field = bytes "data" then s.dataExceeds value
  else if field = bytes "event" then
    sizesExceed s.options.maxEventSize [s.data.length, value.length, s.lastId.length]
  else if field = bytes "id" ∧ 0 ∉ value then
    sizesExceed s.options.maxEventSize [s.data.length, s.eventType.length, value.length]
  else some false

/-- The check of `count` more bytes of a line.  It is none where a subtraction of the source would
wrap. -/
def lineExceeds (s : SseParser) (count : ℕ) : Option Bool :=
  if s.options.maxLineSize < count then some true
  else (checkedSub s.options.maxLineSize count).map fun rest => decide (rest < s.line.length)

/-- Sizes exceed the limit if their sum does. -/
lemma sizesExceed_eq (remaining : ℕ) (sizes : List ℕ) :
    sizesExceed remaining sizes = some (decide (remaining < sizes.sum)) := by
  induction sizes generalizing remaining with
  | nil => simp [sizesExceed]
  | cons size sizes ih =>
    rw [sizesExceed, List.sum_cons]
    split_ifs with h
    · rw [Option.some.injEq, eq_comm, decide_eq_true_eq]
      omega
    · rw [checkedSub, if_pos (by omega), Option.bind_some, ih, Option.some.injEq]
      exact decide_eq_decide.mpr (by omega)

/-- Three sizes. -/
lemma sizesExceed_event (s : SseParser) (a b c : ℕ) :
    sizesExceed s.options.maxEventSize [a, b, c] = some (s.exceedsEventLimit a b c) := by
  rw [sizesExceed_eq, exceedsEventLimit]
  simp [Nat.add_assoc]

/-- The check of a data field does not wrap around. -/
lemma dataExceeds_eq (s : SseParser) (hlimit : s.options.maxEventSize < 2 ^ 64) (value : Bytes) :
    s.dataExceeds value = some (decide (s.options.maxEventSize ≤ value.length ∨
      s.options.maxEventSize - value.length - 1 < s.data.length ∨
      s.exceedsEventLimit (s.data.length + value.length + 1) s.eventType.length s.lastId.length)) := by
  unfold dataExceeds
  by_cases hvalue : s.options.maxEventSize ≤ value.length
  · rw [if_pos hvalue, decide_eq_true (.inl hvalue)]
  rw [if_neg hvalue, checkedSub, if_pos (by omega), Option.bind_some, checkedSub,
    if_pos (by omega), Option.bind_some]
  by_cases hdata : s.options.maxEventSize - value.length - 1 < s.data.length
  · rw [if_pos hdata, decide_eq_true (.inr (.inl hdata))]
  rw [if_neg hdata, checkedAdd, if_pos (by omega), Option.bind_some, checkedAdd,
    if_pos (by omega), Option.bind_some, sizesExceed_event, Option.some.injEq, eq_comm]
  simp [hvalue, hdata]

/-- No check of a field wraps around.  No subtraction is made before the comparison that makes it
safe, and the sums of the data do not exceed the limit. -/
lemma fieldExceeds_eq (s : SseParser) (hlimit : s.options.maxEventSize < 2 ^ 64)
    (field value : Bytes) :
    s.fieldExceeds field value = some (s.processField field value).1.isSome := by
  unfold fieldExceeds processField
  by_cases hdata : field = bytes "data"
  · rw [if_pos hdata, if_pos hdata, dataExceeds_eq s hlimit]
    split_ifs with hlarge
    · rw [decide_eq_true hlarge]
      rfl
    · rw [decide_eq_false hlarge]
      rfl
  rw [if_neg hdata, if_neg hdata]
  by_cases htype : field = bytes "event"
  · rw [if_pos htype, if_pos htype, sizesExceed_event]
    split_ifs with hlarge
    · rw [hlarge]
      rfl
    · rw [Bool.eq_false_iff.mpr hlarge]
      rfl
  rw [if_neg htype, if_neg htype]
  by_cases hid : field = bytes "id" ∧ 0 ∉ value
  · rw [if_pos hid, if_pos hid, sizesExceed_event]
    split_ifs with hlarge
    · rw [hlarge]
      rfl
    · rw [Bool.eq_false_iff.mpr hlarge]
      rfl
  rw [if_neg hid, if_neg hid]
  split_ifs with hretry
  · cases parseRetry value <;> rfl
  · rfl

/-- Nor does the check of a line. -/
lemma lineExceeds_eq (s : SseParser) (count : ℕ) :
    s.lineExceeds count = some (decide (s.options.maxLineSize < count ∨
      s.options.maxLineSize - count < s.line.length)) := by
  unfold lineExceeds
  split_ifs with hcount
  · rw [decide_eq_true (.inl hcount)]
  · rw [checkedSub, if_pos (by omega), Option.map_some]
    simp [hcount]

/-! ### Larger limits -/

/-- The parser with other limits.  Comparing it with the parser itself shows that the limits are the
only difference. -/
def withLimits (s : SseParser) (maxLineSize maxEventSize : ℕ) : SseParser :=
  { s with options := { s.options with maxLineSize, maxEventSize } }

/-- Something is larger than the limits.  It is said of the parser without limits, so it is about
the stream and not about the checks. -/
def Exceeds (options : SseParserOptions) (t : SseParser) : Prop :=
  options.maxLineSize < t.line.length ∨
    options.maxEventSize < t.data.length + t.eventType.length + t.lastId.length

/-- `t` has larger limits than `s`, and it has dispatched the same events as long as `s` did not
fail. -/
structure Follows (maxLineSize maxEventSize : ℕ) (s t : SseParser) : Prop where
  line : s.options.maxLineSize ≤ maxLineSize
  event : s.options.maxEventSize ≤ maxEventSize
  bounded : s.Bounded
  bounded' : t.Bounded
  dispatched : s.dispatched <+: t.dispatched
  eq : s.failed = none → t = s.withLimits maxLineSize maxEventSize

variable {maxLineSize maxEventSize : ℕ} {s t : SseParser}

/-- With larger limits, a field that is taken over is taken over alike. -/
lemma processField_withLimits (hevent : s.options.maxEventSize ≤ maxEventSize) (field value : Bytes)
    (h : (s.processField field value).1 = none) :
    (s.withLimits maxLineSize maxEventSize).processField field value =
      (none, (s.processField field value).2.withLimits maxLineSize maxEventSize) := by
  have hmono : ∀ a b c, s.exceedsEventLimit a b c = false →
      (s.withLimits maxLineSize maxEventSize).exceedsEventLimit a b c = false := by
    intro a b c h
    rw [exceedsEventLimit, decide_eq_false_iff_not] at h ⊢
    change ¬maxEventSize < a + b + c
    omega
  unfold processField at *
  by_cases hdata : field = bytes "data"
  · rw [if_pos hdata] at h ⊢
    rw [if_pos hdata]
    split_ifs at h with hlarge
    rw [if_neg hlarge]
    rw [not_or, not_or, Bool.not_eq_true] at hlarge
    refine if_neg ?_
    rw [not_or, not_or, Bool.not_eq_true]
    refine ⟨?_, ?_, hmono _ _ _ hlarge.2.2⟩
    · simp only [withLimits]
      omega
    · simp only [withLimits]
      omega
  rw [if_neg hdata] at h ⊢
  rw [if_neg hdata]
  by_cases htype : field = bytes "event"
  · rw [if_pos htype] at h ⊢
    rw [if_pos htype]
    split_ifs at h with hlarge
    rw [if_neg hlarge]
    exact if_neg (by rw [Bool.not_eq_true] at hlarge ⊢; exact hmono _ _ _ hlarge)
  rw [if_neg htype] at h ⊢
  rw [if_neg htype]
  by_cases hid : field = bytes "id" ∧ 0 ∉ value
  · rw [if_pos hid] at h ⊢
    rw [if_pos hid]
    split_ifs at h with hlarge
    rw [if_neg hlarge]
    exact if_neg (by rw [Bool.not_eq_true] at hlarge ⊢; exact hmono _ _ _ hlarge)
  rw [if_neg hid, if_neg hid]
  split_ifs with hretry
  · cases parseRetry value <;> rfl
  · rfl

/-- A field dispatches nothing. -/
lemma dispatched_processField (s : SseParser) (field value : Bytes) :
    (s.processField field value).2.dispatched = s.dispatched := by
  unfold processField
  split_ifs
  all_goals try rfl
  cases parseRetry value <;> rfl

/-- With larger limits, a line that is processed is processed alike. -/
lemma processLine_withLimits (hevent : s.options.maxEventSize ≤ maxEventSize) (value : Bytes)
    (h : (s.processLine value).1 = none) :
    (s.withLimits maxLineSize maxEventSize).processLine value =
      (none, (s.processLine value).2.withLimits maxLineSize maxEventSize) := by
  unfold processLine at *
  have hfirst : (s.withLimits maxLineSize maxEventSize).firstLine = s.firstLine := rfl
  rw [hfirst]
  dsimp only at h ⊢
  split_ifs at h ⊢ with hempty hcomment
  · unfold dispatch at *
    by_cases hdata : s.data.isEmpty = true
    · have hdata' : (s.withLimits maxLineSize maxEventSize).data.isEmpty = true := hdata
      rw [if_pos hdata, if_pos hdata']
      rfl
    · have hdata' : ¬(s.withLimits maxLineSize maxEventSize).data.isEmpty = true := hdata
      rw [if_neg hdata] at h
      rw [if_neg hdata, if_neg hdata']
      exact Prod.ext h rfl
  · rfl
  · exact processField_withLimits (s := { s with firstLine := false }) hevent _ _ h

/-- With other limits, a line dispatches the same. -/
lemma dispatched_processLine (s : SseParser) (value : Bytes) :
    ((s.withLimits maxLineSize maxEventSize).processLine value).2.dispatched =
      (s.processLine value).2.dispatched := by
  unfold processLine
  have hfirst : (s.withLimits maxLineSize maxEventSize).firstLine = s.firstLine := rfl
  rw [hfirst]
  dsimp only
  split_ifs with hempty hcomment
  · unfold dispatch
    by_cases hdata : s.data.isEmpty = true
    · have hdata' : (s.withLimits maxLineSize maxEventSize).data.isEmpty = true := hdata
      rw [if_pos hdata, if_pos hdata']
      rfl
    · have hdata' : ¬(s.withLimits maxLineSize maxEventSize).data.isEmpty = true := hdata
      rw [if_neg hdata, if_neg hdata']
      rfl
  · rfl
  · rw [dispatched_processField, dispatched_processField]
    rfl

/-- What was dispatched is not taken back.  Events are only ever appended. -/
lemma dispatched_step (s : SseParser) (c : UInt8) : s.dispatched <+: (step s c).dispatched := by
  have hline : ∀ value, s.dispatched <+:
      (processLine { s with skipLf := false } value).2.dispatched := by
    intro value
    unfold processLine
    dsimp only
    split_ifs with hempty hcomment
    · unfold dispatch
      dsimp only
      split_ifs
      · exact List.prefix_refl _
      all_goals exact List.prefix_append _ _
    · exact List.prefix_refl _
    · rw [dispatched_processField]
  unfold step
  split_ifs with hfailed hskip
  · exact List.prefix_refl _
  · exact List.prefix_refl _
  · unfold accept
    have hprocessed := hline s.line
    split_ifs with hnewline hlong
    · dsimp only
      cases hresult : processLine { s with skipLf := false } s.line with
      | mk error t =>
        rw [hresult] at hprocessed
        cases error with
        | none => exact hprocessed
        | some e => exact hprocessed
    · exact List.prefix_refl _
    · exact List.prefix_refl _

/-- A byte that is accepted is accepted with larger limits. -/
lemma accept_withLimits (hline : s.options.maxLineSize ≤ maxLineSize)
    (hevent : s.options.maxEventSize ≤ maxEventSize) (c : UInt8) :
    (accept s c).dispatched = (accept (s.withLimits maxLineSize maxEventSize) c).dispatched ∧
      ((accept s c).failed = none → accept (s.withLimits maxLineSize maxEventSize) c =
        (accept s c).withLimits maxLineSize maxEventSize) := by
  unfold accept
  by_cases hnewline : isNewline c = true
  · rw [if_pos hnewline, if_pos hnewline]
    have hsame := @dispatched_processLine maxLineSize maxEventSize s s.line
    have hprocessed := @processLine_withLimits maxLineSize maxEventSize s hevent s.line
    have hwait : (s.withLimits maxLineSize maxEventSize).line = s.line := rfl
    rw [hwait]
    cases hresult : s.processLine s.line with
    | mk error u =>
      rw [hresult] at hsame hprocessed
      cases error with
      | some e =>
        refine ⟨?_, fun h => by cases h⟩
        cases hresult' : (s.withLimits maxLineSize maxEventSize).processLine s.line with
        | mk error' u' =>
          rw [hresult'] at hsame
          cases error' with
          | some e' => exact hsame.symm
          | none => exact hsame.symm
      | none =>
        rw [hprocessed rfl]
        exact ⟨rfl, fun _ => rfl⟩
  rw [if_neg hnewline, if_neg hnewline]
  by_cases hlong : s.options.maxLineSize ≤ s.line.length
  · rw [if_pos hlong]
    refine ⟨?_, fun h => by cases h⟩
    split_ifs <;> rfl
  · have hshort : ¬(s.withLimits maxLineSize maxEventSize).options.maxLineSize ≤
        (s.withLimits maxLineSize maxEventSize).line.length := by
      change ¬maxLineSize ≤ s.line.length
      omega
    rw [if_neg hlong, if_neg hshort]
    exact ⟨rfl, fun _ => rfl⟩

/-- A byte does not change the options. -/
lemma options_step (s : SseParser) (c : UInt8) : (step s c).options = s.options := by
  unfold step accept
  dsimp only
  split_ifs
  all_goals try rfl
  have hkept := (processLine_kept { s with skipLf := false } s.line).1
  cases hresult : processLine { s with skipLf := false } s.line with
  | mk error u =>
    rw [hresult] at hkept
    cases error with
    | some e => exact hkept
    | none => exact hkept

/-- A byte, with larger limits. -/
lemma step_withLimits (hline : s.options.maxLineSize ≤ maxLineSize)
    (hevent : s.options.maxEventSize ≤ maxEventSize) (hfailed : s.failed = none) (c : UInt8) :
    (s.step c).dispatched = ((s.withLimits maxLineSize maxEventSize).step c).dispatched ∧
      ((s.step c).failed = none → (s.withLimits maxLineSize maxEventSize).step c =
        (s.step c).withLimits maxLineSize maxEventSize) := by
  have hstep : ∀ u : SseParser, u.failed = none → u.step c =
      if (u.skipLf && c == lf) = true then { u with skipLf := false }
      else accept { u with skipLf := false } c :=
    fun u hu => if_neg (by rw [hu]; simp)
  have hfailed' : (s.withLimits maxLineSize maxEventSize).failed = none := hfailed
  have hskip' : (s.withLimits maxLineSize maxEventSize).skipLf = s.skipLf := rfl
  rw [hstep s hfailed, hstep _ hfailed', hskip']
  by_cases hskip : (s.skipLf && c == lf) = true
  · rw [if_pos hskip, if_pos hskip]
    exact ⟨rfl, fun _ => rfl⟩
  · rw [if_neg hskip, if_neg hskip]
    exact accept_withLimits (s := { s with skipLf := false }) hline hevent c

/-- Larger limits, byte by byte. -/
lemma Follows.step (h : Follows maxLineSize maxEventSize s t) (c : UInt8) :
    Follows maxLineSize maxEventSize (s.step c) (t.step c) := by
  have hsame := h.eq
  cases hfailed : s.failed with
  | some e =>
    have hstays : s.step c = s := if_pos (by rw [hfailed]; rfl)
    rw [hstays]
    exact ⟨h.line, h.event, h.bounded, h.bounded'.step c,
      h.dispatched.trans (dispatched_step t c), fun hnone => by rw [hfailed] at hnone; cases hnone⟩
  | none =>
    obtain rfl := hsame hfailed
    obtain ⟨hdispatched, heq⟩ := step_withLimits h.line h.event hfailed c
    refine ⟨by rw [options_step]; exact h.line, by rw [options_step]; exact h.event,
      h.bounded.step c, h.bounded'.step c, ?_, heq⟩
    rw [hdispatched]

/-- Parsers that look the same are followed alike. -/
lemma Follows.congr {s' t' : SseParser} (h : Follows maxLineSize maxEventSize s t)
    (hs : Same s' s) (ht : Same t' t) (hbounded : s'.Bounded) (hbounded' : t'.Bounded) :
    Follows maxLineSize maxEventSize s' t' := by
  have hoptions : s'.options = s.options := congrArg Prod.fst hs.setup
  have hdispatched : s'.dispatched = s.dispatched := congrArg Observation.dispatched hs.observe
  have hdispatched' : t'.dispatched = t.dispatched := congrArg Observation.dispatched ht.observe
  refine ⟨hoptions ▸ h.line, hoptions ▸ h.event, hbounded, hbounded', ?_, fun hnone => ?_⟩
  · rw [hdispatched, hdispatched']
    exact h.dispatched
  · have heq := h.eq (hs.failed ▸ hnone)
    have hnone' : t'.failed = none := by
      rw [ht.failed, heq]
      exact hs.failed ▸ hnone
    rw [ht.eq hnone', heq, hs.eq hnone]

/-- Larger limits, chunk by chunk. -/
lemma Follows.feed (h : Follows maxLineSize maxEventSize s t) (bytes : Bytes) :
    Follows maxLineSize maxEventSize (s.feed bytes) (t.feed bytes) := by
  have hsteps : Follows maxLineSize maxEventSize (bytes.foldl SseParser.step s)
      (bytes.foldl SseParser.step t) := by
    have hall : ∀ s t, Follows maxLineSize maxEventSize s t →
        Follows maxLineSize maxEventSize (bytes.foldl SseParser.step s)
          (bytes.foldl SseParser.step t) := by
      induction bytes with
      | nil => exact fun s t h => h
      | cons c bytes ih => exact fun s t h => ih _ _ (h.step c)
    exact hall s t h
  exact hsteps.congr (feed_same_foldl h.bounded bytes) (feed_same_foldl h.bounded' bytes)
    (h.bounded.feed bytes) (h.bounded'.feed bytes)

/-- Larger limits, call by call. -/
lemma Follows.call (h : Follows maxLineSize maxEventSize s t) {c : Call} (hc : c ≠ .reset) :
    Follows maxLineSize maxEventSize (s.call c) (t.call c) := by
  cases c with
  | feed bytes => exact h.feed bytes
  | reset => exact absurd rfl hc
  | finish =>
    have hbounded : ∀ s : SseParser, s.Bounded → s.finish.Bounded := by
      intro s hs
      unfold SseParser.finish
      split_ifs
      · exact hs
      · exact fun _ => Nat.zero_le _
    have hdispatched : ∀ s : SseParser, s.finish.dispatched = s.dispatched := by
      intro s
      unfold SseParser.finish
      split_ifs <;> rfl
    have hoptions : s.finish.options = s.options := by
      unfold SseParser.finish
      split_ifs <;> rfl
    have hsame := h.eq
    change Follows maxLineSize maxEventSize s.finish t.finish
    refine ⟨by rw [hoptions]; exact h.line, by rw [hoptions]; exact h.event, hbounded s h.bounded,
      hbounded t h.bounded', ?_, fun hnone => ?_⟩
    · rw [hdispatched, hdispatched]
      exact h.dispatched
    · cases hfailed : s.failed with
      | some e =>
        have hstays : s.finish = s := if_pos (by rw [hfailed]; rfl)
        rw [hstays, hfailed] at hnone
        cases hnone
      | none =>
        obtain rfl := hsame hfailed
        have hfinish : ∀ u : SseParser, u.failed = none → u.finish =
            { u with line := [], data := [], eventType := [], eventRetry := none, skipLf := false } :=
          fun u hu => if_neg (by rw [hu]; simp)
        rw [hfinish s hfailed, hfinish (s.withLimits maxLineSize maxEventSize) hfailed]
        rfl

/-- Larger limits, for any calls but a reset. -/
lemma Follows.calls (h : Follows maxLineSize maxEventSize s t) {calls : List Call}
    (hcalls : .reset ∉ calls) :
    Follows maxLineSize maxEventSize (calls.foldl SseParser.call s)
      (calls.foldl SseParser.call t) := by
  induction calls generalizing s t with
  | nil => exact h
  | cons c calls ih =>
    rw [List.mem_cons, not_or] at hcalls
    exact ih (h.call fun heq => hcalls.1 heq.symm) hcalls.2

/-! ### Calls -/

/-- A parser within its limits has a bounded line. -/
lemma Within.bounded (h : s.Within) : s.Bounded := fun _ => h.line

/-- A call does not change the options. -/
lemma options_call (h : s.Bounded) (c : Call) : (s.call c).options = s.options := by
  cases c with
  | feed bytes =>
    have hsteps : ∀ s : SseParser, (bytes.foldl step s).options = s.options := by
      induction bytes with
      | nil => exact fun s => rfl
      | cons c bytes ih => exact fun s => (ih (s.step c)).trans (options_step s c)
    exact (congrArg Prod.fst (feed_same_foldl h bytes).setup).trans (hsteps s)
  | finish =>
    unfold call finish
    dsimp only
    split_ifs <;> rfl
  | reset => rfl

/-- Calls stay within the limits. -/
lemma Within.calls (h : s.Within) (calls : List Call) :
    (calls.foldl SseParser.call s).Within ∧
      (calls.foldl SseParser.call s).options = s.options := by
  induction calls generalizing s with
  | nil => exact ⟨h, rfl⟩
  | cons c calls ih =>
    obtain ⟨hwithin, hoptions⟩ := ih (h.call c)
    exact ⟨hwithin, hoptions.trans (options_call h.bounded c)⟩

/-- An error stays. -/
lemma call_of_failed (h : s.failed.isSome = true) {c : Call} (hc : c ≠ .reset) : s.call c = s := by
  cases c with
  | feed bytes => exact if_pos h
  | finish => exact if_pos h
  | reset => exact absurd rfl hc

/-- Two chunks fail if the first one does. -/
lemma failed_of_feed (h : s.Bounded) {a : Bytes} (ha : (s.feed a).failed.isSome = true) (b : Bytes) :
    (s.feed (a ++ b)).failed.isSome = true := by
  have hchunks := (foldl_feed_same h [a, b]).trans
    (feed_same_foldl h [a, b].flatten).symm
  have htwo : [a, b].flatten = a ++ b := by simp
  have hstays : (s.feed a).feed b = s.feed a := if_pos ha
  rw [List.foldl_cons, List.foldl_cons, List.foldl_nil, hstays, htwo] at hchunks
  rw [← hchunks.failed]
  exact ha

/-- Whatever the calls are, what a parser keeps is within its limits, and no check wraps around.  An
error stays.  From a parser that has not failed on, any calls but a reset dispatch what a parser with
larger limits dispatches, until the limits are exceeded: then there is an error. -/
theorem memory_bounded (options : SseParserOptions) (handlers : List SseEvent → Option Thrown)
    (hid : options.lastEventId.length ≤ options.maxEventSize) (calls : List Call) :
    let s := calls.foldl call (create options handlers)
    (s.line.length ≤ options.maxLineSize ∧
      s.data.length + s.eventType.length + s.lastId.length ≤ options.maxEventSize) ∧
    (options.maxEventSize < 2 ^ 64 → ∀ v : SseParser, v.options = options →
      (∀ field value, v.fieldExceeds field value = some (v.processField field value).1.isSome) ∧
      ∀ count, v.lineExceeds count = some (decide (v.options.maxLineSize < count ∨
        v.options.maxLineSize - count < v.line.length))) ∧
    (s.failed.isSome → ∀ c, c ≠ .reset → s.call c = s) ∧
    (s.failed = none → ∀ maxLineSize maxEventSize, options.maxLineSize ≤ maxLineSize →
      options.maxEventSize ≤ maxEventSize → ∀ later : List Call, .reset ∉ later →
      let u := later.foldl call s
      let t := later.foldl call (s.withLimits maxLineSize maxEventSize)
      u.dispatched <+: t.dispatched ∧
        (u.failed = none → t = u.withLimits maxLineSize maxEventSize) ∧
        ∀ a b, Exceeds options (t.feed a) → (u.feed (a ++ b)).failed.isSome) := by
  intro s
  have hcreate : (create options handlers).Within :=
    ⟨hid, Nat.zero_le _, by simpa [create] using hid⟩
  obtain ⟨hwithin, hoptions⟩ := hcreate.calls calls
  change s.Within at hwithin
  change s.options = options at hoptions
  refine ⟨⟨hoptions ▸ hwithin.line, hoptions ▸ hwithin.event⟩, ?_, fun h c hc => call_of_failed h hc,
    ?_⟩
  · rintro hlimit v rfl
    exact ⟨fieldExceeds_eq v hlimit, lineExceeds_eq v⟩
  · intro hfailed maxLineSize maxEventSize hline hevent later hlater u t
    have hstart : Follows maxLineSize maxEventSize s (s.withLimits maxLineSize maxEventSize) :=
      ⟨hoptions ▸ hline, hoptions ▸ hevent, hwithin.bounded,
        fun _ => hwithin.line.trans (hoptions ▸ hline), List.prefix_refl _, fun _ => rfl⟩
    have hfollows : Follows maxLineSize maxEventSize u t := hstart.calls hlater
    refine ⟨hfollows.dispatched, hfollows.eq, fun a b hexceeds => ?_⟩
    obtain ⟨hu, huoptions⟩ := hwithin.calls later
    refine failed_of_feed hfollows.bounded ?_ b
    by_contra hnone
    rw [Option.not_isSome_iff_eq_none] at hnone
    -- the two parsers agree behind `a`, and one of them is within its limits
    have hafter : (u.feed a).Within := hu.feed a
    have hafterOptions : (u.feed a).options = options :=
      (options_call hu.bounded (.feed a)).trans (huoptions.trans hoptions)
    rw [(hfollows.feed a).eq hnone] at hexceeds
    obtain hlong | hlarge := hexceeds
    · have := hafter.line
      rw [hafterOptions] at this
      exact absurd hlong (Nat.not_lt.mpr this)
    · have := hafter.event
      rw [hafterOptions] at this
      exact absurd hlarge (Nat.not_lt.mpr this)

/-- A small limit for events. -/
def smallOptions : SseParserOptions := { maxEventSize := 5, lastEventId := bytes "i" }

/-- A parser with this limit, behind a first data line. -/
def oneLine : SseParser := (create smallOptions fun _ => none).feed (bytes "data:abc\n")

/-- The first data line is within the small limit, the second one is too much: the parser fails and
stays so, while one with a larger limit goes on. -/
theorem memory_bounded_of_two_lines :
    oneLine.failed = none ∧
      oneLine.data.length + oneLine.eventType.length + oneLine.lastId.length ≤ 5 ∧
      ((oneLine.withLimits (1024 * 1024) 100).feed (bytes "data:d\n")).failed = none ∧
      (oneLine.feed (bytes "data:d\n" ++ bytes "\n")).failed.isSome ∧
      ∀ c, c ≠ .reset → (oneLine.feed (bytes "data:d\n" ++ bytes "\n")).call c =
        oneLine.feed (bytes "data:d\n" ++ bytes "\n") := by
  have hid : smallOptions.lastEventId.length ≤ smallOptions.maxEventSize := by decide
  have hnone : oneLine.failed = none := rfl
  have hlarger : ((oneLine.withLimits (1024 * 1024) 100).feed (bytes "data:d\n")).failed = none := rfl
  have hexceeds : Exceeds smallOptions
      ((oneLine.withLimits (1024 * 1024) 100).feed (bytes "data:d\n")) := .inr (by decide +kernel)
  obtain ⟨⟨-, hsize⟩, -, -, hagrees⟩ :=
    memory_bounded smallOptions (fun _ => none) hid [.feed (bytes "data:abc\n")]
  obtain ⟨-, -, hfails⟩ :=
    hagrees hnone (1024 * 1024) 100 le_rfl (by decide) [] List.not_mem_nil
  have hfailed := hfails (bytes "data:d\n") (bytes "\n") hexceeds
  obtain ⟨-, -, hstays, -⟩ := memory_bounded smallOptions (fun _ => none) hid
    [.feed (bytes "data:abc\n"), .feed (bytes "data:d\n" ++ bytes "\n")]
  exact ⟨hnone, hsize, hlarger, hfailed, hstays hfailed⟩

end Chhttp.Sse.SseParser
