import Chhttp.Sse.Parser

/-!
# Event streams that arrive in fragments

`step` is the parser as a machine that takes one byte at a time.  A loop of `feed` makes the steps of
its bytes (`feed_same_foldl`), up to what a parser that has failed keeps of the line it failed on,
which nothing reads.  A sequence of calls makes the steps of all its bytes, so it does not matter how
they are cut.
-/

namespace Chhttp.Sse.SseParser

/-! ### What can be observed -/

/-- What callers see of a parser: the events, the error, `last_event_id()` and `retry()`.  It leaves
out the buffers, which do depend on the chunks once the parser has failed. -/
structure Observation where
  dispatched : List SseEvent
  failed : Option ErrorInfo
  lastId : Bytes
  retryDelay : Option ℤ
  deriving DecidableEq

/-- The observation of a parser. -/
def observe (s : SseParser) : Observation where
  dispatched := s.dispatched
  failed := s.failed
  lastId := s.lastId
  retryDelay := s.retryDelay

/-- What a parser starts with. -/
def setup (s : SseParser) : SseParserOptions × (List SseEvent → Option Thrown) :=
  (s.options, s.handlers)

/-- Two parsers look the same, and are the same unless they have failed.  A parser that failed in
the middle of a chunk has dropped the rest of it, so its buffers may differ; nobody can tell. -/
structure Same (s t : SseParser) : Prop where
  setup : s.setup = t.setup
  observe : s.observe = t.observe
  eq : s.failed = none → s = t

/-- A parser looks like itself. -/
lemma Same.refl (s : SseParser) : Same s s := ⟨rfl, rfl, fun _ => rfl⟩

/-- Two parsers that look the same have failed alike. -/
lemma Same.failed {s t : SseParser} (h : Same s t) : s.failed = t.failed :=
  congrArg Observation.failed h.observe

/-- The relation is symmetric. -/
lemma Same.symm {s t : SseParser} (h : Same s t) : Same t s :=
  ⟨h.setup.symm, h.observe.symm, fun ht => (h.eq (h.failed.trans ht)).symm⟩

/-- The relation is transitive. -/
lemma Same.trans {s t u : SseParser} (h : Same s t) (h' : Same t u) : Same s u :=
  ⟨h.setup.trans h'.setup, h.observe.trans h'.observe,
    fun hs => (h.eq hs).trans (h'.eq (h.failed ▸ hs))⟩

/-- A parser that has failed, with any line. -/
lemma same_of_failed {s : SseParser} {e : ErrorInfo} (line line' : Bytes) (skipLf skipLf' : Bool) :
    Same { s with failed := some e, line := line, skipLf := skipLf }
      { s with failed := some e, line := line', skipLf := skipLf' } :=
  ⟨rfl, rfl, fun h => by cases h⟩

/-! ### Bytes -/

/-- One byte that is not skipped. -/
def accept (s : SseParser) (c : UInt8) : SseParser :=
  if isNewline c then
    match s.processLine s.line with
    | (some e, s) => { s with failed := some e }
    | (none, s) => { s with line := [], skipLf := c == cr }
  else if s.options.maxLineSize ≤ s.line.length then { s with failed := some lineTooLong }
  else { s with line := s.line ++ [c] }

/-- One byte. -/
def step (s : SseParser) (c : UInt8) : SseParser :=
  if s.failed.isSome then s
  else if s.skipLf && c == lf then { s with skipLf := false }
  else accept { s with skipLf := false } c

/-- A parser that has failed stays as it is. -/
lemma foldl_step_of_failed {s : SseParser} (h : s.failed.isSome = true) (bytes : Bytes) :
    bytes.foldl step s = s := by
  induction bytes with
  | nil => rfl
  | cons c bytes ih => rw [List.foldl_cons, step, if_pos h, ih]

/-- A line does not depend on the line that waits. -/
lemma processField_line (s : SseParser) (field value line : Bytes) :
    processField { s with line := line } field value =
      ((s.processField field value).1, { (s.processField field value).2 with line := line }) := by
  unfold processField exceedsEventLimit
  dsimp only
  split_ifs
  all_goals try rfl
  split <;> rfl

/-- Nor does a line that ends. -/
lemma processLine_line (s : SseParser) (value line : Bytes) :
    processLine { s with line := line } value =
      ((s.processLine value).1, { (s.processLine value).2 with line := line }) := by
  unfold processLine dispatch
  dsimp only
  split_ifs
  all_goals try rfl
  exact processField_line { s with firstLine := false } _ _ line

/-- What a line does not change. -/
lemma processLine_kept (s : SseParser) (value : Bytes) :
    (s.processLine value).2.options = s.options ∧ (s.processLine value).2.handlers = s.handlers ∧
      (s.processLine value).2.line = s.line ∧ (s.processLine value).2.failed = s.failed ∧
      (s.processLine value).2.skipLf = s.skipLf := by
  unfold processLine dispatch processField
  dsimp only
  split_ifs
  all_goals try exact ⟨rfl, rfl, rfl, rfl, rfl⟩
  split <;> exact ⟨rfl, rfl, rfl, rfl, rfl⟩

/-- A byte that is not the second half of a line end. -/
lemma step_of_ready {s : SseParser} (hfailed : s.failed = none) (hskip : s.skipLf = false)
    (c : UInt8) : step s c = accept s c := by
  have hready : { s with skipLf := false } = s := by rw [← hskip]
  rw [step, if_neg (by simp [hfailed]), if_neg (by simp [hskip]), hready]

/-- The second half of a line end is skipped. -/
lemma foldl_step_skip {s : SseParser} (hfailed : s.failed = none) {bytes : Bytes} (h : bytes ≠ []) :
    bytes.foldl step s = (s.skipLineFeed bytes).foldl step { s with skipLf := false } := by
  obtain ⟨c, rest, rfl⟩ := List.exists_cons_of_ne_nil h
  rw [skipLineFeed, List.head?_cons, List.tail_cons]
  by_cases hskip : (s.skipLf && some c == some lf) = true
  · have hskip' : (s.skipLf && c == lf) = true := by simpa using hskip
    rw [if_pos hskip, List.foldl_cons, step, if_neg (by simp [hfailed]), if_pos hskip']
  · have hskip' : ¬(s.skipLf && c == lf) = true := by simpa using hskip
    have hready := @step_of_ready { s with skipLf := false } hfailed rfl c
    rw [if_neg hskip, List.foldl_cons, List.foldl_cons, hready, step, if_neg (by simp [hfailed]),
      if_neg hskip']

/-- The bytes of a line wait, up to the limit. -/
lemma foldl_step_segment {s : SseParser} (hfailed : s.failed = none) (hskip : s.skipLf = false)
    {segment : Bytes} (h : ∀ c ∈ segment, isNewline c = false)
    (hlimit : s.line.length + segment.length ≤ s.options.maxLineSize) :
    segment.foldl step s = { s with line := s.line ++ segment } := by
  induction segment generalizing s with
  | nil => rw [List.foldl_nil, List.append_nil]
  | cons c segment ih =>
    rw [List.length_cons] at hlimit
    have hstep : step s c = { s with line := s.line ++ [c] } := by
      rw [step_of_ready hfailed hskip, accept, h c List.mem_cons_self, if_neg Bool.false_ne_true,
        if_neg (by omega)]
    have hrest : ∀ d ∈ segment, isNewline d = false := fun d hd => h d (List.mem_cons_of_mem c hd)
    have htail := @ih { s with line := s.line ++ [c] } hfailed hskip hrest (by simp; omega)
    rw [List.foldl_cons, hstep, htail, List.append_assoc]
    rfl

/-- A line beyond the limit fails, whatever follows. -/
lemma foldl_step_tooLong {s : SseParser} (hfailed : s.failed = none) (hskip : s.skipLf = false)
    {segment : Bytes} (h : ∀ c ∈ segment, isNewline c = false) (rest : Bytes)
    (hline : s.line.length ≤ s.options.maxLineSize)
    (hlimit : s.options.maxLineSize < s.line.length + segment.length) :
    Same { s with failed := some lineTooLong } ((segment ++ rest).foldl step s) := by
  induction segment generalizing s with
  | nil =>
    rw [List.length_nil] at hlimit
    omega
  | cons c segment ih =>
    rw [List.length_cons] at hlimit
    rw [List.cons_append, List.foldl_cons, step_of_ready hfailed hskip, accept,
      h c List.mem_cons_self, if_neg Bool.false_ne_true]
    by_cases hfull : s.options.maxLineSize ≤ s.line.length
    · rw [if_pos hfull, foldl_step_of_failed rfl]
      exact Same.refl _
    · rw [if_neg hfull]
      have hrest : ∀ d ∈ segment, isNewline d = false := fun d hd => h d (List.mem_cons_of_mem c hd)
      have htail := @ih { s with line := s.line ++ [c] } hfailed hskip hrest (by simp; omega)
        (by simp; omega)
      exact (same_of_failed s.line (s.line ++ [c]) s.skipLf s.skipLf).trans htail

/-- The end of a line, which has waited in part. -/
lemma step_newline {s : SseParser} (hfailed : s.failed = none) (hskip : s.skipLf = false)
    (segment : Bytes) {c : UInt8} (h : isNewline c = true) :
    step { s with line := s.line ++ segment } c =
      match s.processLine (s.line ++ segment) with
      | (some e, t) => { t with failed := some e, line := s.line ++ segment }
      | (none, t) => { t with line := [], skipLf := c == cr } := by
  have hready := @step_of_ready { s with line := s.line ++ segment } hfailed hskip c
  rw [hready, accept, if_pos h, processLine_line]
  rcases s.processLine (s.line ++ segment) with ⟨_ | e, t⟩ <;> rfl

/-- The line that ends, wherever it was. -/
lemma line_of_segment (s : SseParser) (segment : Bytes) :
    ∃ line, (if s.line.isEmpty then s else { s with line := s.line ++ segment }) =
        { s with line := line } ∧
      (if line.isEmpty then segment else line) = s.line ++ segment := by
  by_cases h : s.line = []
  · exact ⟨s.line, by rw [if_pos (by simpa using h)], by rw [h]; rfl⟩
  · refine ⟨s.line ++ segment, by rw [if_neg (by simpa using h)], ?_⟩
    rw [if_neg (by simp [h])]

/-- The bytes up to a line end make their steps. -/
lemma feedLine_spec {s : SseParser} (bytes : Bytes) (hfailed : s.failed = none)
    (hskip : s.skipLf = false) (hline : s.line.length ≤ s.options.maxLineSize) :
    match feedLine s bytes with
    | .leave r => Same r (bytes.foldl step s)
    | .again (s', rest) => bytes.foldl step s = rest.foldl step s' ∧ s'.failed = none ∧
        s'.line.length ≤ s'.options.maxLineSize := by
  unfold feedLine
  dsimp only
  cases hend : bytes.findIdx? isNewline with
  | none =>
    have hnone : ∀ c ∈ bytes, isNewline c = false := by simpa using hend
    dsimp only [Option.getD_none]
    split_ifs with hlimit
    · have := foldl_step_tooLong hfailed hskip hnone [] hline (by omega)
      rwa [List.append_nil] at this
    · rw [foldl_step_segment hfailed hskip hnone (by omega)]
      exact Same.refl _
  | some n =>
    obtain ⟨hn, hnewline, hbefore⟩ := List.findIdx?_eq_some_iff_getElem.mp hend
    have hsegment : ∀ c ∈ bytes.take n, isNewline c = false := by
      intro c hc
      obtain ⟨i, hi, rfl⟩ := List.mem_iff_getElem.mp hc
      rw [List.length_take] at hi
      rw [List.getElem_take]
      simpa using hbefore i (by omega)
    have hlength : (bytes.take n).length = n := by
      rw [List.length_take]
      omega
    have hsplit : bytes = bytes.take n ++ bytes[n] :: bytes.drop (n + 1) := by
      rw [List.getElem_cons_drop, List.take_append_drop]
    dsimp only [Option.getD_some]
    -- a line above the limit fails in the middle of the segment, byte by byte too
    by_cases hlimit : s.options.maxLineSize < n ∨ s.options.maxLineSize - n < s.line.length
    · rw [if_pos hlimit]
      have := foldl_step_tooLong hfailed hskip hsegment (bytes[n] :: bytes.drop (n + 1)) hline
        (by rw [hlength]; omega)
      rwa [← hsplit] at this
    rw [if_neg hlimit]
    have hsteps : bytes.foldl step s = (bytes.drop (n + 1)).foldl step
        (step { s with line := s.line ++ bytes.take n } bytes[n]) := by
      conv_lhs => rw [hsplit]
      rw [List.foldl_append, foldl_step_segment hfailed hskip hsegment (by rw [hlength]; omega),
        List.foldl_cons]
    rw [hsteps, step_newline hfailed hskip (bytes.take n) hnewline]
    obtain ⟨line, hstate, hvalue⟩ := line_of_segment s (bytes.take n)
    simp only [hstate, hvalue, processLine_line]
    have hkept := (processLine_kept s (s.line ++ bytes.take n)).2.2.2.1
    -- the line is complete: its event is handed on, or refused
    rcases hprocess : s.processLine (s.line ++ bytes.take n) with ⟨_ | e, t⟩
    · rw [hprocess] at hkept
      dsimp only
      rw [List.getElem?_eq_getElem hn]
      exact ⟨rfl, hkept.trans hfailed, Nat.zero_le _⟩
    · dsimp only
      rw [foldl_step_of_failed rfl]
      exact same_of_failed _ _ _ _

/-- One iteration of the loop of `feed` makes the steps of the bytes that it consumes. -/
lemma feedStep_spec {s : SseParser} (bytes : Bytes) (hfailed : s.failed = none)
    (hline : s.line.length ≤ s.options.maxLineSize) :
    match feedStep (s, bytes) with
    | .leave r => Same r (bytes.foldl step s)
    | .again (s', rest) => bytes.foldl step s = rest.foldl step s' ∧ s'.failed = none ∧
        s'.line.length ≤ s'.options.maxLineSize := by
  unfold feedStep
  dsimp only
  by_cases hempty : bytes = []
  · subst hempty
    exact Same.refl s
  rw [if_neg (by simpa using hempty), foldl_step_skip hfailed hempty]
  by_cases hskipped : (s.skipLineFeed bytes).isEmpty = true
  · rw [if_pos hskipped, List.isEmpty_iff.mp hskipped]
    exact Same.refl _
  rw [if_neg hskipped]
  exact @feedLine_spec { s with skipLf := false } (s.skipLineFeed bytes) hfailed rfl hline

/-- The line that waits is within the limit, unless the parser has failed. -/
def Bounded (s : SseParser) : Prop := s.failed = none → s.line.length ≤ s.options.maxLineSize

/-- A loop of `feed` makes the steps of its bytes.  The source looks for line ends and copies whole
segments; byte by byte it comes to the same. -/
theorem feed_same_foldl {s : SseParser} (hbounded : s.Bounded) (bytes : Bytes) :
    Same (s.feed bytes) (bytes.foldl step s) := by
  unfold feed
  split_ifs with hfailed
  · rw [foldl_step_of_failed hfailed]
    exact Same.refl s
  rw [Option.not_isSome_iff_eq_none] at hfailed
  refine Loop.run_induct feedStep_decreases
    (P := fun v r => v.1.failed = none → v.1.line.length ≤ v.1.options.maxLineSize →
      Same r (v.2.foldl step v.1)) ?_ ?_ (s, bytes) hfailed (hbounded hfailed)
  · rintro ⟨s, bytes⟩ r hleave hfailed hline
    have hspec := feedStep_spec bytes hfailed hline
    rw [hleave] at hspec
    exact hspec
  · rintro ⟨s, bytes⟩ ⟨s', rest⟩ r hagain ih hfailed hline
    have hspec := feedStep_spec bytes hfailed hline
    rw [hagain] at hspec
    obtain ⟨hsteps, hfailed', hbounded'⟩ := hspec
    dsimp only at ih ⊢
    rw [hsteps]
    exact ih hfailed' hbounded'

/-! ### Calls -/

/-- A new parser has no line. -/
lemma bounded_create (options : SseParserOptions) (handlers : List SseEvent → Option Thrown) :
    (create options handlers).Bounded := fun _ => Nat.zero_le _

/-- A byte is kept only within the limit. -/
lemma Bounded.step {s : SseParser} (h : s.Bounded) (c : UInt8) : (step s c).Bounded := by
  unfold SseParser.step
  split_ifs with hfailed
  · exact h
  · exact h
  · intro hnone
    unfold accept at hnone ⊢
    dsimp only at hnone ⊢
    split_ifs at hnone ⊢ with hnewline hlimit
    · split at hnone
      · cases hnone
      · exact Nat.zero_le _
    · simp only [List.length_append, List.length_singleton]
      omega

/-- So are the bytes of a chunk. -/
lemma Bounded.feed {s : SseParser} (h : s.Bounded) (bytes : Bytes) : (s.feed bytes).Bounded := by
  have hsame := feed_same_foldl h bytes
  intro hfailed
  have hbounded : (bytes.foldl SseParser.step s).Bounded := by
    clear hsame hfailed
    induction bytes generalizing s with
    | nil => exact h
    | cons c bytes ih => exact ih (h.step c)
  rw [hsame.eq hfailed]
  exact hbounded (hsame.failed ▸ hfailed)

/-- Parsers that look the same look the same after the same bytes. -/
lemma Same.feed {s t : SseParser} (h : Same s t) (bytes : Bytes) :
    Same (s.feed bytes) (t.feed bytes) := by
  cases hfailed : s.failed with
  | none =>
    rw [h.eq hfailed]
    exact Same.refl _
  | some e =>
    have hs : s.feed bytes = s := if_pos (by rw [hfailed]; rfl)
    have ht : t.feed bytes = t := if_pos (by rw [← h.failed, hfailed]; rfl)
    rw [hs, ht]
    exact h

/-- Chunks make the steps of their bytes.  So two ways of cutting the same bytes are the same
parser, which is what the claim on chunks needs. -/
theorem foldl_feed_same {s : SseParser} (h : s.Bounded) (chunks : List Bytes) :
    Same (chunks.foldl SseParser.feed s) (chunks.flatten.foldl step s) := by
  induction chunks using List.reverseRecOn with
  | nil => exact Same.refl s
  | append_singleton chunks chunk ih =>
    have hbounded : ∀ chunks : List Bytes, (chunks.foldl SseParser.feed s).Bounded := by
      intro chunks
      induction chunks using List.reverseRecOn with
      | nil => exact h
      | append_singleton chunks chunk ih =>
        rw [List.foldl_append]
        exact ih.feed chunk
    rw [List.foldl_append, List.flatten_append, List.flatten_singleton, List.foldl_append]
    refine (feed_same_foldl (hbounded chunks) chunk).trans ?_
    cases hfailed : (chunks.foldl SseParser.feed s).failed with
    | none =>
      rw [ih.eq hfailed]
      exact Same.refl _
    | some e =>
      rw [foldl_step_of_failed (by rw [hfailed]; rfl),
        foldl_step_of_failed (by rw [← ih.failed, hfailed]; rfl)]
      exact ih

/-- What callers do with a parser.  After `reset` a parser is as it was made, with the id of its
options. -/
inductive Call where
  | feed (bytes : Bytes)
  | finish
  | reset

/-- The effect of a call. -/
def call (s : SseParser) : Call → SseParser
  | .feed bytes => s.feed bytes
  | .finish => s.finish
  | .reset => s.reset

/-- Parsers that look the same look the same after the same call. -/
lemma Same.call {s t : SseParser} (h : Same s t) (c : Call) : Same (s.call c) (t.call c) := by
  cases c with
  | feed bytes => exact h.feed bytes
  | finish =>
    cases hfailed : s.failed with
    | none =>
      rw [h.eq hfailed]
      exact Same.refl _
    | some e =>
      have hs : s.finish = s := if_pos (by rw [hfailed]; rfl)
      have ht : t.finish = t := if_pos (by rw [← h.failed, hfailed]; rfl)
      rw [SseParser.call, SseParser.call, hs, ht]
      exact h
  | reset =>
    have hoptions : s.options = t.options := congrArg Prod.fst h.setup
    have hhandlers : s.handlers = t.handlers := congrArg Prod.snd h.setup
    have hdispatched : s.dispatched = t.dispatched := congrArg Observation.dispatched h.observe
    have heq : s.reset = t.reset := by
      simp only [SseParser.reset, hoptions, hhandlers, hdispatched]
    rw [SseParser.call, SseParser.call, heq]
    exact Same.refl _

/-- However the bytes of an event stream are cut, the parser dispatches the same events, fails
alike, and looks the same after all calls that may follow. -/
theorem chunking_invisible (options : SseParserOptions)
    (handlers : List SseEvent → Option Thrown) (chunks : List Bytes) (calls : List Call) :
    (calls.foldl call (chunks.foldl SseParser.feed (create options handlers))).observe =
      (calls.foldl call ((create options handlers).feed chunks.flatten)).observe := by
  have hbounded := bounded_create options handlers
  have hsame : Same (chunks.foldl SseParser.feed (create options handlers))
      ((create options handlers).feed chunks.flatten) :=
    (foldl_feed_same hbounded chunks).trans (feed_same_foldl hbounded chunks.flatten).symm
  have hcalls : ∀ s t, Same s t → Same (calls.foldl call s) (calls.foldl call t) := by
    induction calls with
    | nil => exact fun s t h => h
    | cons c calls ih => exact fun s t h => ih (s.call c) (t.call c) (h.call c)
  exact (hcalls _ _ hsame).observe

end Chhttp.Sse.SseParser
