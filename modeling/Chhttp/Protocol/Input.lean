import Chhttp.Lib.Fragment
import Chhttp.Lib.Loop
import Chhttp.Protocol.Lines

/-!
# Incremental input: heads and lines

A connection's input is a `Fragment.Source` of bytes: the `ReadBuffer` and the outcomes of the
calls of `timed_read` to come.  Timeouts, deadlines and cancellation reach the readers as failed
reads, so the clock does not appear.

`readHeadBytes` and `readLine` search the buffer, and read more of the connection only while the
end is missing.  Both remember how far they have searched.
-/

namespace Chhttp

open ListSearch Fragment

/-- A connection and its `ReadBuffer`, as the readers see them. -/
abbrev Input := Source UInt8 ErrorInfo

/-! ### The source -/

/-- `buffered_head_bytes`: the head through the line end of its last field. -/
def bufferedHeadBytes (buffer : Bytes) (headEnd maxHeaderSize : ℕ) : Result Bytes :=
  if maxHeaderSize < headEnd + 4 then
    .error (protocolError "HTTP headers exceed configured limit")
  else .ok (buffer.take (headEnd + 2))

/-- One iteration of `read_head_bytes`; the state is `search_from` and the input. -/
def headBytesStep (maxHeaderSize : ℕ) : ℕ × Input → Loop.Next (ℕ × Input) (Result Bytes × Input)
  | (searchFrom, input) =>
    match findFrom crlfCrlf input.buffer searchFrom with
    | some headEnd => .leave (bufferedHeadBytes input.buffer headEnd maxHeaderSize, input)
    | none =>
      if maxHeaderSize ≤ input.buffer.length then
        .leave (.error (protocolError "HTTP headers exceed configured limit"), input)
      else
        match input.read with
        | (.failed e, input) => .leave (.error e, input)
        | (.eof, input) =>
          .leave (.error (protocolError "Connection closed during HTTP headers"), input)
        | (.data chunk, rest) =>
          -- natural subtraction stops at zero, like the source's two conditionals on the size
          .again (input.buffer.length - 3, rest.append chunk)

/-- An iteration that repeats has not found the end, and has read from the connection. -/
lemma headBytesStep_again {maxHeaderSize searchFrom searchFrom' : ℕ} {input input' : Input}
    (h : headBytesStep maxHeaderSize (searchFrom, input) = .again (searchFrom', input')) :
    findFrom crlfCrlf input.buffer searchFrom = none ∧ searchFrom' = input.buffer.length - 3 ∧
      ∃ chunk rest, input.read = (.data chunk, rest) ∧ input' = rest.append chunk := by
  simp only [headBytesStep] at h
  split at h
  · cases h
  · rename_i hnone
    split_ifs at h
    split at h
    · cases h
    · cases h
    · rename_i chunk rest hread
      cases h
      exact ⟨hnone, rfl, chunk, rest, hread, rfl⟩

/-- Every iteration that repeats has read from the connection. -/
lemma headBytesStep_decreases (maxHeaderSize : ℕ) :
    Loop.Decreases (headBytesStep maxHeaderSize) fun s => s.2.reads.length := by
  rintro ⟨searchFrom, input⟩ ⟨searchFrom', input'⟩ h
  obtain ⟨-, -, chunk, rest, hread, rfl⟩ := headBytesStep_again h
  exact (Source.reads_read hread).2

/-- `read_head_bytes`. -/
def readHeadBytes (maxHeaderSize : ℕ) (input : Input) : Result Bytes × Input :=
  Loop.run (headBytesStep maxHeaderSize) (fun s => s.2.reads.length)
    (headBytesStep_decreases maxHeaderSize) (0, input)

/-- The head at the front of the buffer, read to its end if it is not complete. -/
def takeHeadBytes (maxHeaderSize : ℕ) (input : Input) : Result Bytes × Input :=
  match find crlfCrlf input.buffer with
  | some bufferedEnd => (bufferedHeadBytes input.buffer bufferedEnd maxHeaderSize, input)
  | none => readHeadBytes maxHeaderSize input

/-- One iteration of `read_line`; the state is `search_from` and the input. -/
def lineStep (maxLength : ℕ) : ℕ × Input → Loop.Next (ℕ × Input) (Result Bytes × Input)
  | (searchFrom, input) =>
    match findFrom crlf input.buffer searchFrom with
    | some lineEnd =>
      if maxLength < lineEnd then
        .leave (.error (protocolError "HTTP line exceeds configured limit"), input)
      else .leave (.ok (input.buffer.take lineEnd), input.consume (lineEnd + 2))
    | none =>
      if (findFrom [lf] input.buffer searchFrom).isSome then
        .leave (.error (protocolError "Bare LF in HTTP message"), input)
      else if maxLength < input.buffer.length ∧
          (input.buffer.length - maxLength ≠ 1 ∨ input.buffer.getLast? ≠ some cr) then
        .leave (.error (protocolError "HTTP line exceeds configured limit"), input)
      else
        match input.read with
        | (.failed e, input) => .leave (.error e, input)
        | (.eof, input) => .leave (.error (protocolError "Unexpected end of HTTP line"), input)
        | (.data chunk, rest) => .again (input.buffer.length - 1, rest.append chunk)

/-- An iteration that repeats has not found a line end, and has read from the connection. -/
lemma lineStep_again {maxLength searchFrom searchFrom' : ℕ} {input input' : Input}
    (h : lineStep maxLength (searchFrom, input) = .again (searchFrom', input')) :
    findFrom crlf input.buffer searchFrom = none ∧ searchFrom' = input.buffer.length - 1 ∧
      ∃ chunk rest, input.read = (.data chunk, rest) ∧ input' = rest.append chunk := by
  simp only [lineStep] at h
  split at h
  · split_ifs at h
  · rename_i hnone
    split_ifs at h
    split at h
    · cases h
    · cases h
    · rename_i chunk rest hread
      cases h
      exact ⟨hnone, rfl, chunk, rest, hread, rfl⟩

/-- Every iteration that repeats has read from the connection. -/
lemma lineStep_decreases (maxLength : ℕ) :
    Loop.Decreases (lineStep maxLength) fun s => s.2.reads.length := by
  rintro ⟨searchFrom, input⟩ ⟨searchFrom', input'⟩ h
  obtain ⟨-, -, chunk, rest, hread, rfl⟩ := lineStep_again h
  exact (Source.reads_read hread).2

/-- `read_line`. -/
def readLine (maxLength : ℕ) (input : Input) : Result Bytes × Input :=
  Loop.run (lineStep maxLength) (fun s => s.2.reads.length) (lineStep_decreases maxLength)
    (0, input)

/-! ### Heads -/

/-- The outcome of looking for a head: if the result is a head, it ends at the first double line
end of what there is to read, within the limit, and nothing has been consumed. -/
structure HeadTaken (maxHeaderSize : ℕ) (input : Input) (view : Bytes) (after : Input) : Prop where
  found : ∃ n, find crlfCrlf after.buffer = some n ∧ n + 4 ≤ maxHeaderSize ∧
    view = after.buffer.take (n + 2)
  available : after.available = input.available

/-- A buffered head is a head taken. -/
lemma headTaken_of_buffered {maxHeaderSize n : ℕ} {input : Input} {view : Bytes}
    (hn : find crlfCrlf input.buffer = some n)
    (h : bufferedHeadBytes input.buffer n maxHeaderSize = .ok view) :
    HeadTaken maxHeaderSize input view input := by
  unfold bufferedHeadBytes at h
  split_ifs at h
  cases h
  exact ⟨⟨n, hn, by omega, rfl⟩, rfl⟩

/-- Resuming the search three bytes before the old end of the buffer finds the first end of a
head. -/
lemma findFrom_crlfCrlf_read {input rest : Input} {chunk : Bytes}
    (h : find crlfCrlf input.buffer = none) (hread : input.read = (.data chunk, rest)) :
    findFrom crlfCrlf (rest.append chunk).buffer (input.buffer.length - 3) =
      find crlfCrlf (rest.append chunk).buffer := by
  rw [Source.append_buffer, (Source.reads_read hread).1]
  by_cases hlen : 3 < input.buffer.length
  · exact findFrom_append_of_none chunk h (by rw [crlfCrlf_length]; omega) (by omega)
  · rw [Nat.sub_eq_zero_of_le (by omega), findFrom_zero]

/-- What `read_head_bytes` returns is a head.  It ends before the first empty line of the stream,
and the empty line itself is still in the buffer. -/
theorem headTaken_of_readHeadBytes {maxHeaderSize : ℕ} {input after : Input} {view : Bytes}
    (h : readHeadBytes maxHeaderSize input = (.ok view, after)) :
    HeadTaken maxHeaderSize input view after := by
  -- the invariant: skipping what was searched before does not change the outcome of the search
  let Post : ℕ × Input → Result Bytes × Input → Prop := fun s a =>
    findFrom crlfCrlf s.2.buffer s.1 = find crlfCrlf s.2.buffer →
      ∀ view after, a = (.ok view, after) → HeadTaken maxHeaderSize s.2 view after
  have hrun : Post (0, input) (readHeadBytes maxHeaderSize input) := by
    refine Loop.run_induct (headBytesStep_decreases maxHeaderSize) ?_ ?_ (0, input)
    · rintro ⟨searchFrom, s⟩ a hb hinv view after rfl
      simp only at hinv
      simp only [headBytesStep, hinv] at hb
      split at hb
      · rename_i n hn
        simp only [Loop.Next.leave.injEq, Prod.mk.injEq] at hb
        obtain ⟨hview, rfl⟩ := hb
        exact headTaken_of_buffered hn hview
      · split_ifs at hb
        · cases hb
        · split at hb <;> cases hb
    · rintro ⟨searchFrom, s⟩ ⟨searchFrom', s'⟩ a hb ih hinv view after ha
      obtain ⟨hnone, rfl, chunk, rest, hread, rfl⟩ := headBytesStep_again hb
      have hnext := ih (findFrom_crlfCrlf_read (hinv.symm.trans hnone) hread) view after ha
      exact ⟨hnext.found, hnext.available.trans (Source.available_read hread)⟩
  exact hrun (findFrom_zero _ _) view after h

/-- What is found in the buffer is found at the same place in all there is to read. -/
lemma find_available {pat : Bytes} {input : Input} {n : ℕ} (h : find pat input.buffer = some n) :
    find pat input.available = some n :=
  find_append_of_some h _

/-- A head within the limit is found, however it arrives.  A search that starts again near the end
of the old buffer finds the same empty line as one over everything. -/
theorem readHeadBytes_of_find {maxHeaderSize n : ℕ} {input : Input}
    (h : find crlfCrlf input.available = some n) (hn : n + 4 ≤ maxHeaderSize) :
    ∃ view after, readHeadBytes maxHeaderSize input = (.ok view, after) ∧
      HeadTaken maxHeaderSize input view after := by
  let Post : ℕ × Input → Result Bytes × Input → Prop := fun s a =>
    findFrom crlfCrlf s.2.buffer s.1 = find crlfCrlf s.2.buffer →
      find crlfCrlf s.2.available = some n →
        ∃ view after, a = (.ok view, after)
  have hrun : Post (0, input) (readHeadBytes maxHeaderSize input) := by
    refine Loop.run_induct (headBytesStep_decreases maxHeaderSize) ?_ ?_ (0, input)
    · rintro ⟨searchFrom, s⟩ a hb hinv havail
      simp only at hinv havail
      simp only [headBytesStep, hinv] at hb
      split at hb
      · rename_i m hm
        have hmn := find_available hm
        rw [havail] at hmn
        cases hmn
        rw [bufferedHeadBytes, if_neg (by omega)] at hb
        cases hb
        exact ⟨_, _, rfl⟩
      · rename_i hnone
        have hlt := length_lt_of_find_append hnone havail
        rw [crlfCrlf_length] at hlt
        rw [if_neg (by omega)] at hb
        have hsettled : ¬ s.Settled := by
          intro hs
          rw [hs.available_eq, hnone] at havail
          cases havail
        obtain ⟨chunk, rest, hread⟩ := Source.exists_read_of_not_settled hsettled
        rw [hread] at hb
        cases hb
    · rintro ⟨searchFrom, s⟩ ⟨searchFrom', s'⟩ a hb ih hinv havail
      obtain ⟨hnone, rfl, chunk, rest, hread, rfl⟩ := headBytesStep_again hb
      exact ih (findFrom_crlfCrlf_read (hinv.symm.trans hnone) hread)
        ((congrArg (find crlfCrlf) (Source.available_read hread)).trans havail)
  obtain ⟨view, after, hr⟩ := hrun (findFrom_zero _ _) h
  exact ⟨view, after, hr, headTaken_of_readHeadBytes hr⟩

/-- A head taken from the buffer or read to its end. -/
theorem headTaken_of_takeHeadBytes {maxHeaderSize : ℕ} {input after : Input} {view : Bytes}
    (h : takeHeadBytes maxHeaderSize input = (.ok view, after)) :
    HeadTaken maxHeaderSize input view after := by
  unfold takeHeadBytes at h
  split at h
  · rename_i n hn
    simp only [Prod.mk.injEq] at h
    obtain ⟨hview, rfl⟩ := h
    exact headTaken_of_buffered hn hview
  · exact headTaken_of_readHeadBytes h

/-- A head within the limit is taken, however it arrives. -/
theorem takeHeadBytes_of_find {maxHeaderSize n : ℕ} {input : Input}
    (h : find crlfCrlf input.available = some n) (hn : n + 4 ≤ maxHeaderSize) :
    ∃ view after, takeHeadBytes maxHeaderSize input = (.ok view, after) ∧
      HeadTaken maxHeaderSize input view after := by
  unfold takeHeadBytes
  split
  · rename_i m hm
    have hmn := find_available hm
    rw [h] at hmn
    cases hmn
    have hview : bufferedHeadBytes input.buffer n maxHeaderSize =
        .ok (input.buffer.take (n + 2)) := by
      rw [bufferedHeadBytes, if_neg (by omega)]
    rw [hview]
    exact ⟨_, _, rfl, headTaken_of_buffered hm hview⟩
  · exact readHeadBytes_of_find h hn

/-- The bytes of a head and its end: what is left to read when both are consumed. -/
theorem HeadTaken.consume {maxHeaderSize : ℕ} {input after : Input} {view : Bytes}
    (h : HeadTaken maxHeaderSize input view after) :
    input.available = view ++ (crlf ++ (after.consume (view.length + 2)).available) ∧
      view.length + 2 ≤ maxHeaderSize := by
  obtain ⟨⟨n, hn, hmax, rfl⟩, havail⟩ := h
  have hfit := find_add_length_le hn
  rw [crlfCrlf_length] at hfit
  have hlen : (after.buffer.take (n + 2)).length = n + 2 := by
    rw [List.length_take]
    omega
  rw [← havail, hlen]
  refine ⟨?_, by omega⟩
  have hsplit : after.buffer.take (n + 2 + 2) = after.buffer.take (n + 2) ++ crlf := by
    obtain ⟨t, ht⟩ := ((find_eq_some_iff).mp hn).2.1
    have htwo : (after.buffer.drop (n + 2)).take 2 = crlf := by
      rw [← List.drop_drop, ← ht]
      rfl
    rw [List.take_add, htwo]
  rw [Source.available_consume after (n + 2 + 2), hsplit, List.append_assoc]

/-! ### Lines -/

/-- Resuming the search at the last byte of the old buffer finds the first line end. -/
lemma findFrom_crlf_read {input rest : Input} {chunk : Bytes}
    (h : find crlf input.buffer = none) (hread : input.read = (.data chunk, rest)) :
    findFrom crlf (rest.append chunk).buffer (input.buffer.length - 1) =
      find crlf (rest.append chunk).buffer := by
  rw [Source.append_buffer, (Source.reads_read hread).1]
  by_cases hlen : 0 < input.buffer.length
  · exact findFrom_append_of_none chunk h (by rw [crlf_length]; omega) (by omega)
  · rw [Nat.sub_eq_zero_of_le (by omega), findFrom_zero]

/-- A line that is complete in the buffer is taken from it.  The search of a complete line does not
look for a bare LF, so one in the middle of the line stays. -/
theorem readLine_buffered {maxLength n : ℕ} {input : Input} (h : find crlf input.buffer = some n)
    (hn : n ≤ maxLength) :
    readLine maxLength input = (.ok (input.buffer.take n), input.consume (n + 2)) := by
  have hstep : lineStep maxLength (0, input) =
      .leave (.ok (input.buffer.take n), input.consume (n + 2)) := by
    simp only [lineStep, findFrom_zero, h]
    rw [if_neg (by omega)]
  exact Loop.run_of_leave (lineStep_decreases maxLength) hstep

/-- LF in an incomplete line is an error.  This is where the outcome depends on the cut: the same
bytes with their CR LF in the buffer are a line. -/
theorem readLine_bareLf {maxLength : ℕ} {input : Input} (h : find crlf input.buffer = none)
    (hlf : lf ∈ input.buffer) :
    readLine maxLength input = (.error (protocolError "Bare LF in HTTP message"), input) := by
  have hfound : (find [lf] input.buffer).isSome = true := by
    rw [Option.isSome_iff_ne_none, Ne, find_singleton_eq_none]
    exact not_not.mpr hlf
  have hstep : lineStep maxLength (0, input) =
      .leave (.error (protocolError "Bare LF in HTTP message"), input) := by
    simp only [lineStep, findFrom_zero, h, hfound, if_true]
  exact Loop.run_of_leave (lineStep_decreases maxLength) hstep

/-- What `read_line` returns is the text before the first line end of what there is to read.  The
line may hold a bare LF, if it was complete when it was looked at. -/
theorem readLine_sound {maxLength : ℕ} {input after : Input} {line : Bytes}
    (h : readLine maxLength input = (.ok line, after)) :
    LineText line ∧ line.length ≤ maxLength ∧ input.Took (line ++ crlf) after := by
  let Post : ℕ × Input → Result Bytes × Input → Prop := fun s a =>
    findFrom crlf s.2.buffer s.1 = find crlf s.2.buffer →
      ∀ line after, a = (.ok line, after) → LineText line ∧ line.length ≤ maxLength ∧
        s.2.Took (line ++ crlf) after
  have hrun : Post (0, input) (readLine maxLength input) := by
    refine Loop.run_induct (lineStep_decreases maxLength) ?_ ?_ (0, input)
    · rintro ⟨searchFrom, s⟩ a hb hinv line after rfl
      simp only at hinv
      simp only [lineStep, hinv] at hb
      split at hb
      · rename_i n hn
        split_ifs at hb with hmax
        · cases hb
        · cases hb
          have hfit := find_add_length_le hn
          rw [crlf_length] at hfit
          refine ⟨lineText_take_of_find hn, by rw [List.length_take]; omega, ?_⟩
          have htake : s.buffer.take (n + 2) = s.buffer.take n ++ crlf := by
            obtain ⟨t, ht⟩ := ((find_eq_some_iff).mp hn).2.1
            rw [List.take_add, ← ht]
            rfl
          have htook := Source.took_consume (s := s) hfit
          rwa [htake] at htook
      · split_ifs at hb
        · cases hb
        · cases hb
        · split at hb <;> cases hb
    · rintro ⟨searchFrom, s⟩ ⟨searchFrom', s'⟩ a hb ih hinv line after ha
      obtain ⟨hnone, rfl, chunk, rest, hread, rfl⟩ := lineStep_again hb
      replace hnone := hinv.symm.trans hnone
      obtain ⟨hline, hlen, htook⟩ := ih (findFrom_crlf_read hnone hread) line after ha
      refine ⟨hline, hlen, Source.took_of_read hread ?_ htook⟩
      -- the line end was not in the old buffer
      have hfind : find crlf (s.buffer ++ arriving s.reads) = some line.length := by
        have havail := (Source.available_read hread).symm.trans htook.available
        rw [Source.available] at havail
        rw [havail, List.append_assoc]
        exact find_crlf_of_lineText hline _
      have hlt := length_lt_of_find_append hnone hfind
      rw [List.length_append]
      exact hlt
  exact hrun (findFrom_zero _ _) line after h

/-- A buffer without a line end that starts with a line shows at most the line and its CR. -/
lemma buffer_prefix_of_no_crlf {line rest buffer more : Bytes}
    (havail : buffer ++ more = line ++ (crlf ++ rest)) (hline : LineText line)
    (hnone : find crlf buffer = none) : buffer <+: line ++ [cr] := by
  have hfind : find crlf (buffer ++ more) = some line.length := by
    rw [havail]
    exact find_crlf_of_lineText hline rest
  have hlt := length_lt_of_find_append hnone hfind
  rw [crlf_length] at hlt
  have hbuffer : buffer <+: (line ++ [cr]) ++ ([lf] ++ rest) :=
    ⟨more, by rw [havail]; simp [crlf]⟩
  exact List.prefix_of_prefix_length_le hbuffer (List.prefix_append _ _) (by simp; omega)

/-- A line without LF and within the limit is read, however it arrives. -/
theorem readLine_complete {maxLength : ℕ} {input : Input} {line rest : Bytes}
    (h : input.available = line ++ (crlf ++ rest)) (hline : LineText line) (hlf : lf ∉ line)
    (hlen : line.length ≤ maxLength) :
    ∃ after, readLine maxLength input = (.ok line, after) ∧ input.Took (line ++ crlf) after := by
  let Post : ℕ × Input → Result Bytes × Input → Prop := fun s a =>
    findFrom crlf s.2.buffer s.1 = find crlf s.2.buffer →
      s.2.available = line ++ (crlf ++ rest) → ∃ after, a = (.ok line, after)
  have hrun : Post (0, input) (readLine maxLength input) := by
    refine Loop.run_induct (lineStep_decreases maxLength) ?_ ?_ (0, input)
    · rintro ⟨searchFrom, s⟩ a hb hinv havail
      simp only at hinv havail
      simp only [lineStep, hinv] at hb
      -- the first CR LF of everything that arrives is the end of the line
      have hfind : find crlf s.available = some line.length := by
        rw [havail]
        exact find_crlf_of_lineText hline rest
      split at hb
      · rename_i n hn
        have hn' := find_available hn
        rw [hfind] at hn'
        cases hn'
        rw [if_neg (by omega)] at hb
        cases hb
        have htake : s.available.take line.length = s.buffer.take line.length := by
          have hfit := find_add_length_le hn
          exact List.take_append_of_le_length (by omega)
        rw [← htake, havail, List.take_left]
        exact ⟨_, rfl⟩
      · rename_i hnone
        have hbuffer := buffer_prefix_of_no_crlf havail hline hnone
        -- the buffer is a front of the line and its CR: no bare LF, and no line too long yet
        have hnolf : (findFrom [lf] s.buffer searchFrom).isSome = false := by
          rw [Option.isSome_eq_false_iff, Option.isNone_iff_eq_none, findFrom,
            Option.map_eq_none_iff, find_singleton_eq_none]
          intro hmem
          have := hbuffer.subset (List.mem_of_mem_drop hmem)
          rw [List.mem_append, List.mem_singleton] at this
          rcases this with hmem' | hcr
          · exact hlf hmem'
          · exact absurd hcr (by decide)
        have hshort : ¬ (maxLength < s.buffer.length ∧
            (s.buffer.length - maxLength ≠ 1 ∨ s.buffer.getLast? ≠ some cr)) := by
          have hle := hbuffer.length_le
          rw [List.length_append, List.length_singleton] at hle
          rintro ⟨hmax, hone | hlast⟩
          · omega
          · have heq : s.buffer = line ++ [cr] :=
              hbuffer.eq_of_length (by rw [List.length_append, List.length_singleton]; omega)
            rw [heq] at hlast
            simp at hlast
        rw [hnolf] at hb
        simp only [Bool.false_eq_true, if_false] at hb
        rw [if_neg hshort] at hb
        -- the transport is not at its end, for the line is not complete
        have hsettled : ¬ s.Settled := by
          intro hs
          rw [hs.available_eq, hnone] at hfind
          cases hfind
        obtain ⟨chunk, more, hread⟩ := Source.exists_read_of_not_settled hsettled
        rw [hread] at hb
        cases hb
    · rintro ⟨searchFrom, s⟩ ⟨searchFrom', s'⟩ a hb ih hinv havail
      obtain ⟨hnone, rfl, chunk, more, hread, rfl⟩ := lineStep_again hb
      exact ih (findFrom_crlf_read (hinv.symm.trans hnone) hread)
        ((Source.available_read hread).trans havail)
  obtain ⟨after, hread⟩ := hrun (findFrom_zero _ _) h
  exact ⟨after, hread, (readLine_sound hread).2.2⟩

/-- A line that has been received with its end stands in the buffer. -/
lemma find_crlf_buffer {input : Input} {line rest : Bytes}
    (h : input.available = line ++ (crlf ++ rest)) (hline : LineText line)
    (hlen : line.length + 2 ≤ input.buffer.length) :
    find crlf input.buffer = some line.length ∧ input.buffer.take line.length = line := by
  have htake : ∀ n ≤ input.buffer.length, input.buffer.take n = input.available.take n := by
    intro n hn
    exact (List.take_append_of_le_length hn).symm
  constructor
  · have hsplit : input.buffer = line ++ (crlf ++ input.buffer.drop (line.length + 2)) := by
      have hhead : input.buffer.take (line.length + 2) = line ++ crlf := by
        rw [htake _ hlen, h]
        simpa using take_line line rest 0
      conv_lhs => rw [← List.take_append_drop (line.length + 2) input.buffer, hhead]
      rw [List.append_assoc]
    rw [hsplit]
    exact find_crlf_of_lineText hline _
  · rw [htake _ (by omega), h, List.take_left]

/-- A line within the limit is read if it has been received whole, or if it has no LF. -/
theorem readLine_of_lineText {maxLength : ℕ} {input : Input} {line rest : Bytes}
    (h : input.available = line ++ (crlf ++ rest)) (hline : LineText line)
    (hcut : lf ∉ line ∨ line.length + 2 ≤ input.buffer.length) (hlen : line.length ≤ maxLength) :
    ∃ after, readLine maxLength input = (.ok line, after) ∧ input.Took (line ++ crlf) after := by
  rcases hcut with hlf | hbuffer
  · exact readLine_complete h hline hlf hlen
  · obtain ⟨hfind, htake⟩ := find_crlf_buffer h hline hbuffer
    have hread := readLine_buffered hfind hlen
    rw [htake] at hread
    exact ⟨_, hread, (readLine_sound hread).2.2⟩

end Chhttp
