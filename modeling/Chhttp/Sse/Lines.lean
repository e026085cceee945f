import Chhttp.Sse.Fragments

/-!
# The lines of an event stream

`splitLines` cuts a stream into its lines, which end with CR LF, CR or LF.  As long as the parser
does not fail, all that a stream does to it, apart from the line that waits, is the effect of its
complete lines (`core_foldl_step`).
-/

namespace Chhttp.Sse

/-! ### Lines -/

/-- The complete lines of a stream and the incomplete one at its end, after `line` has been read,
and a CR if `skipLf` says so. -/
def splitLines : (line : Bytes) → (skipLf : Bool) → Bytes → List Bytes × Bytes
  | line, _, [] => ([], line)
  | line, skipLf, c :: rest =>
    if skipLf && c == lf then splitLines line false rest
    else if SseParser.isNewline c then
      let r := splitLines [] (c == cr) rest
      (line :: r.1, r.2)
    else splitLines (line ++ [c]) false rest

/-- A stream with every line end read as LF, after a CR if `skipLf` says so. -/
def normalizeFrom : (skipLf : Bool) → Bytes → Bytes
  | _, [] => []
  | skipLf, c :: rest =>
    if skipLf && c == lf then normalizeFrom false rest
    else if SseParser.isNewline c then lf :: normalizeFrom (c == cr) rest
    else c :: normalizeFrom false rest

/-- The complete lines of a stream.  A byte order mark in front of the first one is removed, and
what is behind the last line end is not among them. -/
def completeLines (stream : Bytes) : List Bytes :=
  match (splitLines [] false stream).1 with
  | [] => []
  | first :: rest => SseParser.stripMark true first :: rest

/-- A text with every CR LF, lone CR and LF read as LF. -/
def normalizeNewlines (text : Bytes) : Bytes := normalizeFrom false text

example : normalizeNewlines (bytes "a\r\nb\rc\nd\n\re") = bytes "a\nb\nc\nd\n\ne" := by decide +kernel

/-- Without a line that waits, nothing is kept across a LF. -/
lemma splitLines_append_lf {line : Bytes} {skipLf : Bool} (h : skipLf = true → line = [])
    (u v : Bytes) :
    splitLines line skipLf (u ++ lf :: v) =
      ((splitLines line skipLf (u ++ [lf])).1 ++ (splitLines [] false v).1,
        (splitLines [] false v).2) := by
  induction u generalizing line skipLf with
  | nil =>
    rw [List.nil_append, List.nil_append, splitLines, splitLines]
    cases skipLf with
    | true => rw [h rfl]; rfl
    | false => rfl
  | cons c u ih =>
    rw [List.cons_append, List.cons_append, splitLines, splitLines]
    split_ifs with hskip hnewline
    · have hline : line = [] := h (by simp only [Bool.and_eq_true] at hskip; exact hskip.1)
      exact ih fun _ => hline
    · dsimp only
      rw [ih fun _ => rfl]
      rfl
    · exact ih fun hfalse => by cases hfalse

/-- A first line that waits is a prefix of the first line. -/
lemma splitLines_prefix (before line text : Bytes) :
    (splitLines (before ++ line) false text).1 =
      match (splitLines line false text).1 with
      | [] => []
      | first :: rest => (before ++ first) :: rest := by
  induction text generalizing line with
  | nil => rfl
  | cons c text ih =>
    rw [splitLines, splitLines, Bool.false_and, if_neg Bool.false_ne_true,
      if_neg Bool.false_ne_true]
    by_cases hnewline : SseParser.isNewline c = true
    · rw [if_pos hnewline, if_pos hnewline]
    · rw [if_neg hnewline, if_neg hnewline, List.append_assoc, ih]

/-- A LF ends a first line. -/
lemma splitLines_ne_nil (line text : Bytes) : (splitLines line false (text ++ [lf])).1 ≠ [] := by
  induction text generalizing line with
  | nil => exact List.cons_ne_nil _ _
  | cons c text ih =>
    rw [List.cons_append, splitLines, Bool.false_and, if_neg Bool.false_ne_true]
    split_ifs
    · exact List.cons_ne_nil _ _
    · exact ih _

/-- A text without line ends is a line. -/
lemma splitLines_plain {text : Bytes} (h : ∀ c ∈ text, SseParser.isNewline c = false)
    (line rest : Bytes) :
    splitLines line false (text ++ lf :: rest) =
      ((line ++ text) :: (splitLines [] false rest).1, (splitLines [] false rest).2) := by
  induction text generalizing line with
  | nil => rw [List.append_nil]; rfl
  | cons c text ih =>
    rw [List.cons_append, splitLines, Bool.false_and, if_neg Bool.false_ne_true,
      h c List.mem_cons_self, if_neg Bool.false_ne_true,
      ih fun d hd => h d (List.mem_cons_of_mem c hd), List.append_assoc]
    rfl

namespace SseParser

/-! ### The effect of lines -/

/-- A parser without the line that waits. -/
def core (s : SseParser) : SseParser := { s with line := [], skipLf := false }

/-- A complete line. -/
def endLine (s : SseParser) (line : Bytes) : SseParser :=
  if s.failed.isSome then s
  else
    match s.processLine line with
    | (some e, s) => { s with failed := some e }
    | (none, s) => s

/-- A line does not depend on what waits. -/
lemma processLine_core (s : SseParser) (line : Bytes) :
    s.core.processLine line = ((s.processLine line).1, (s.processLine line).2.core) := by
  unfold core processLine dispatch processField exceedsEventLimit
  dsimp only
  split_ifs
  all_goals try rfl
  split <;> rfl

/-- Failing is final. -/
lemma failed_of_foldl_step {s : SseParser} {bytes : Bytes} (h : (bytes.foldl step s).failed = none) :
    s.failed = none := by
  cases hfailed : s.failed with
  | none => rfl
  | some e =>
    rw [foldl_step_of_failed (by rw [hfailed]; rfl), hfailed] at h
    cases h

/-- A parser that does not fail has made the effects of its complete lines.  An unfinished line has
no effect yet, so what is left over does not matter for the events. -/
theorem core_foldl_step {s : SseParser} {bytes : Bytes} (h : (bytes.foldl step s).failed = none) :
    (bytes.foldl step s).core = (splitLines s.line s.skipLf bytes).1.foldl endLine s.core := by
  induction bytes generalizing s with
  | nil => rfl
  | cons c rest ih =>
    rw [List.foldl_cons] at h ⊢
    have hstep := failed_of_foldl_step h
    have hfailed : s.failed = none := @failed_of_foldl_step s [c] hstep
    rw [ih h]
    have hcases : step s c =
        if s.skipLf && c == lf then { s with skipLf := false }
        else accept { s with skipLf := false } c := by
      rw [step, if_neg (by simp [hfailed])]
    rw [hcases] at hstep ⊢
    rw [splitLines]
    generalize ht : { s with skipLf := false } = t at hstep ⊢
    have hcore : s.core = t.core := ht ▸ rfl
    have hline : s.line = t.line := ht ▸ rfl
    have hfailed' : t.core.failed = none := ht ▸ hfailed
    rw [hcore, hline]
    split_ifs at hstep ⊢ with hskip hnewline
    · rw [← ht]
    · rw [accept, if_pos hnewline] at hstep ⊢
      rw [List.foldl_cons, endLine, if_neg (by simp [hfailed']), processLine_core]
      rcases hprocess : t.processLine t.line with ⟨_ | e, u⟩
      · rfl
      · rw [hprocess] at hstep
        cases hstep
    · rw [accept, if_neg hnewline] at hstep ⊢
      split_ifs at hstep ⊢ with hlimit
      rw [← ht]
      rfl

/-- The same for chunks that arrive one after the other. -/
theorem core_foldl_feed {s : SseParser} (hbounded : s.Bounded) {chunks : List Bytes}
    (h : (chunks.foldl feed s).failed = none) :
    (chunks.foldl feed s).core =
      (splitLines s.line s.skipLf chunks.flatten).1.foldl endLine s.core := by
  have hsame := foldl_feed_same hbounded chunks
  rw [hsame.eq h]
  exact core_foldl_step (hsame.failed ▸ h)

/-- The effect of a field within the limits. -/
def applyField (s : SseParser) (field value : Bytes) : SseParser :=
  if field = bytes "data" then { s with data := s.data ++ value ++ [lf] }
  else if field = bytes "event" then { s with eventType := value }
  else if field = bytes "id" ∧ 0 ∉ value then { s with lastId := value }
  else if field = bytes "retry" then
    match parseRetry value with
    | none => s
    | some delay => { s with retryDelay := some delay, eventRetry := some delay }
  else s

/-- A field that does not fail has this effect. -/
lemma processField_of_ok {s : SseParser} {field value : Bytes}
    (h : (s.processField field value).1 = none) :
    (s.processField field value).2 = s.applyField field value := by
  unfold processField at h ⊢
  unfold applyField
  split_ifs at h ⊢
  all_goals try rfl
  cases parseRetry value <;> rfl

/-- The effect of a complete line on a parser that it does not fail. -/
def applyLine (s : SseParser) (line : Bytes) : SseParser :=
  let value := stripMark s.firstLine line
  let s := { s with firstLine := false }
  if value.isEmpty then s.dispatch.2
  else if value.head? = some colon then s
  else s.applyField (fieldName value) (fieldValue value)

/-- Its effect does not depend on the line that waits. -/
lemma core_applyLine (s : SseParser) (line : Bytes) :
    s.core.applyLine line = (s.applyLine line).core := by
  unfold core applyLine applyField dispatch
  dsimp only
  split_ifs
  all_goals try rfl
  split <;> rfl

/-- A line on which the parser does not fail has this effect. -/
lemma processLine_of_ok {s : SseParser} {line : Bytes} (h : (s.processLine line).1 = none) :
    (s.processLine line).2 = s.applyLine line := by
  unfold processLine at h ⊢
  unfold applyLine
  dsimp only at h ⊢
  split_ifs at h ⊢
  · rfl
  · rfl
  · exact processField_of_ok h

/-- A complete line that does not fail has this effect.  It is where the limits are checked;
`applyLine` is the effect without them. -/
theorem endLine_of_ok {s : SseParser} {line : Bytes} (h : (s.endLine line).failed = none) :
    s.failed = none ∧ s.endLine line = s.applyLine line := by
  unfold endLine at h ⊢
  split_ifs at h ⊢ with hfailed
  · rw [h] at hfailed
    cases hfailed
  · refine ⟨Option.not_isSome_iff_eq_none.mp hfailed, ?_⟩
    rcases hprocess : s.processLine line with ⟨_ | e, t⟩
    · have hok : (s.processLine line).1 = none := by rw [hprocess]
      have ht : t = (s.processLine line).2 := by rw [hprocess]
      dsimp only
      rw [ht]
      exact processLine_of_ok hok
    · rw [hprocess] at h
      cases h

/-- Failing is final. -/
lemma failed_of_foldl_endLine {s : SseParser} {lines : List Bytes}
    (h : (lines.foldl endLine s).failed = none) : s.failed = none := by
  induction lines generalizing s with
  | nil => exact h
  | cons line lines ih => exact (endLine_of_ok (ih h)).1

/-- Complete lines that do not fail have their effects.  So behind this theorem the limits are out
of the way. -/
theorem foldl_endLine_of_ok {s : SseParser} {lines : List Bytes}
    (h : (lines.foldl endLine s).failed = none) :
    lines.foldl endLine s = lines.foldl applyLine s := by
  induction lines generalizing s with
  | nil => rfl
  | cons line lines ih =>
    rw [List.foldl_cons] at h ⊢
    rw [List.foldl_cons, ih h, (endLine_of_ok (failed_of_foldl_endLine h)).2]

/-- After its first line, a parser takes lines as they are. -/
lemma applyLine_firstLine (s : SseParser) (line : Bytes) : (s.applyLine line).firstLine = false := by
  unfold applyLine applyField dispatch
  dsimp only
  split_ifs
  all_goals try rfl
  split <;> rfl

/-- Lines do not make a line the first one. -/
lemma foldl_applyLine_firstLine {s : SseParser} (hs : s.firstLine = false) (lines : List Bytes) :
    (lines.foldl applyLine s).firstLine = false := by
  induction lines generalizing s with
  | nil => exact hs
  | cons line lines ih => exact ih (applyLine_firstLine s line)

/-- What the complete lines of a stream do to a new parser that does not fail; only the first line
can have a byte order mark. -/
theorem foldl_feed_of_ok {options : SseParserOptions} {handlers : List SseEvent → Option Thrown}
    {chunks : List Bytes} (h : (chunks.foldl feed (create options handlers)).failed = none) :
    { (chunks.foldl feed (create options handlers)).core with firstLine := false } =
      (completeLines chunks.flatten).foldl applyLine
        { create options handlers with firstLine := false } := by
  have hcore := core_foldl_feed (bounded_create options handlers) h
  have hok : ((splitLines [] false chunks.flatten).1.foldl endLine
      (create options handlers).core).failed = none := hcore ▸ h
  have heffect := hcore.trans (foldl_endLine_of_ok hok)
  rw [heffect, completeLines]
  have hstart : (splitLines (create options handlers).line (create options handlers).skipLf
      chunks.flatten).1 = (splitLines [] false chunks.flatten).1 := rfl
  rw [hstart]
  cases (splitLines [] false chunks.flatten).1 with
  | nil => rfl
  | cons first rest =>
    have hfirst : ((first :: rest).foldl applyLine (create options handlers).core).firstLine = false :=
      foldl_applyLine_firstLine (applyLine_firstLine _ first) rest
    have hsame : ∀ s : SseParser, s.firstLine = false → { s with firstLine := false } = s :=
      fun s hs => by rw [← hs]
    exact hsame _ hfirst

end SseParser

end Chhttp.Sse
