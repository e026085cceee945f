import Chhttp.Protocol.Decoding

/-!
# Streaming decompression

The class `StreamingDecoder` over an arbitrary compression library.  A `Codec` answers every call
with counts and a status, as a function of all earlier calls; it stays in its buffers, and it
consumes something between two ends of a stream.

Every call of `feed` ends: its loop has a measure made of the input that is left, the output that
may still come, and whether another stream may end without input (`feedStep_decreases`).  What is
handed out never exceeds the limit, over all calls (`StreamingDecoder.feeds_bounded`).
-/

namespace Chhttp

/-! ### The compression libraries -/

/-- `StreamingDecoder::Kind`, with `gzip_`.  The three libraries differ in what ends a stream, and
whether another stream may follow it. -/
inductive DecoderKind where
  | zlib (gzip : Bool)
  | brotli
  | zstd
  deriving DecidableEq

/-- What `inflate` returns; other results come with `zlib_.msg`, if it is set. -/
inductive ZlibStatus where
  | ok | bufError | streamEnd
  | other (msg : Option String)

/-- What `BrotliDecoderDecompressStream` returns. -/
inductive BrotliStatus where
  | error | success | needsMoreInput | needsMoreOutput

/-- What `ZSTD_decompressStream` returns: an error with its name, or a hint, which is zero at the
end of a frame. -/
inductive ZstdStatus where
  | error (name : String)
  | remaining (hint : ℕ)

/-- The results of a library. -/
def CodecStatus : DecoderKind → Type
  | .zlib _ => ZlibStatus
  | .brotli => BrotliStatus
  | .zstd => ZstdStatus

/-- The text of a result that is an error. -/
def CodecStatus.message : {kind : DecoderKind} → CodecStatus kind → Option String
  | .zlib _, .other msg => some (msg.getD "Invalid zlib stream")
  | .brotli, BrotliStatus.error => some "Invalid Brotli stream"
  | .zstd, ZstdStatus.error name => some name
  | .zlib _, .ok | .zlib _, .bufError | .zlib _, .streamEnd => none
  | .brotli, .success | .brotli, .needsMoreInput | .brotli, .needsMoreOutput => none
  | .zstd, .remaining _ => none

/-- A result reports the end of a stream.  How a library says this is different for each of the
three. -/
def CodecStatus.ended : {kind : DecoderKind} → CodecStatus kind → Bool
  | .zlib _, .streamEnd => true
  | .brotli, .success => true
  | .zstd, .remaining hint => hint == 0
  | .zlib _, .ok | .zlib _, .bufError | .zlib _, .other _ => false
  | .brotli, BrotliStatus.error | .brotli, .needsMoreInput | .brotli, .needsMoreOutput => false
  | .zstd, ZstdStatus.error _ => false

/-- The size of `buffer`. -/
def decoderBuffer : ℕ := 32 * 1024

/-- `needs_output`. -/
def CodecStatus.needsOutput : {kind : DecoderKind} → CodecStatus kind → ℕ → Bool
  | .zlib _, _, produced => produced == decoderBuffer
  | .brotli, .needsMoreOutput, _ => true
  | .brotli, BrotliStatus.error, _ | .brotli, .success, _ | .brotli, .needsMoreInput, _ => false
  | .zstd, _, produced => produced == decoderBuffer

/-- A call of a library: the input it was given, and its answer.  The list of calls is the state of
the library: its answers may depend on everything it was given before. -/
structure CodecCall (kind : DecoderKind) where
  input : Bytes
  consumed : ℕ
  output : Bytes
  status : CodecStatus kind

/-- A byte was consumed since the last end of a stream, if there was one.  The last call is the first
of the list. -/
def consumedSinceEnd {kind : DecoderKind} : List (CodecCall kind) → Bool
  | [] => true
  | call :: calls => !call.status.ended && (decide (0 < call.consumed) || consumedSinceEnd calls)

/-- A compression library.  Its answer to an input, and whether `inflateReset` succeeds, are
functions of the calls before. -/
structure Codec (kind : DecoderKind) where
  answer : List (CodecCall kind) → Bytes → CodecCall kind
  reset : List (CodecCall kind) → Bool
  consumed_le : ∀ calls input, (answer calls input).consumed ≤ input.length
  output_le : ∀ calls input, (answer calls input).output.length ≤ decoderBuffer
  /-- Between two ends of a stream, a byte is consumed. -/
  advances : ∀ calls input, (answer calls input).status.ended = true →
    0 < (answer calls input).consumed ∨ consumedSinceEnd calls = true

/-! ### The source -/

/-- `StreamingDecoder`, with the calls of its library and the blocks that it has handed out.  What
the library keeps inside is not modelled; its answers are a function of the calls so far. -/
structure StreamingDecoder (kind : DecoderKind) where
  maxOutput : ℕ
  totalOutput : ℕ := 0
  finished : Bool := false
  calls : List (CodecCall kind) := []
  handed : List Bytes := []

/-- The decompression errors. -/
def compressionError (message : String) : ErrorInfo := { code := .compression, message }

/-- The kind of decoder that `StreamingDecoder::create` chooses. -/
def decoderKind (encoding : Bytes) : Option DecoderKind :=
  if lower encoding = bytes "gzip" then some (.zlib true)
  else if lower encoding = bytes "deflate" then some (.zlib false)
  else if lower encoding = bytes "br" then some .brotli
  else if lower encoding = bytes "zstd" then some .zstd
  else none

/-- The error of a library that cannot be initialized. -/
def initializeError : DecoderKind → ErrorInfo
  | .zlib _ => compressionError "Unable to initialize streaming zlib decoder"
  | .brotli => compressionError "Unable to initialize streaming Brotli decoder"
  | .zstd => compressionError "Unable to initialize streaming Zstd decoder"

namespace StreamingDecoder

variable {kind : DecoderKind}

/-- What one `feed` comes to: its error, the input that is left, and the decoder.  Without an error
all input has been consumed. -/
structure Fed (kind : DecoderKind) where
  error : Option ErrorInfo
  input : Bytes
  decoder : StreamingDecoder kind

/-- The input that is offered to the library: zlib counts it in a `uInt`. -/
def offered (kind : DecoderKind) (input : Bytes) : Bytes :=
  match kind with
  | .zlib _ => input.take (2 ^ 32 - 1)
  | _ => input

/-- The start of an iteration: whether it begins another stream, and the error if it must not. -/
def restartError (codec : Codec kind) (d : StreamingDecoder kind) : Option ErrorInfo :=
  if !d.finished then none
  else
    match kind with
    | .zlib true =>
      if codec.reset d.calls then none else some (compressionError "Unable to reset gzip member")
    | .zlib false => some (compressionError "Compressed stream contains trailing data")
    | .brotli => some (compressionError "Compressed stream contains trailing data")
    | .zstd => none

/-- The decoder after a call of the library. -/
def called (d : StreamingDecoder kind) (call : CodecCall kind) : StreamingDecoder kind :=
  { d with finished := call.status.ended, calls := call :: d.calls }

/-- The decoder after the output of the call was counted and handed out. -/
def received (d : StreamingDecoder kind) (call : CodecCall kind) : StreamingDecoder kind :=
  { d.called call with
    totalOutput := d.totalOutput + call.output.length
    handed := if call.output.length = 0 then d.handed else d.handed ++ [call.output] }

/-- The output of a call would exceed the limit. -/
def exceeds (d : StreamingDecoder kind) (produced : ℕ) : Bool :=
  decide (d.maxOutput < produced) || decide (d.maxOutput - produced < d.totalOutput)

/-- What follows a call of the library. -/
def afterCall (consume : List Bytes → Option ErrorInfo) (call : CodecCall kind) (input : Bytes)
    (d : StreamingDecoder kind) : Loop.Next (Bytes × StreamingDecoder kind) (Fed kind) :=
  let rest := input.drop call.consumed
  let produced := call.output.length
  match call.status.message with
  | some message =>
    .leave { error := some (compressionError message), input := rest, decoder := d.called call }
  | none =>
    if d.exceeds produced then
      .leave { error := some { code := .bodyTooLarge, message := "Decompressed body exceeds limit" },
               input := rest, decoder := d.called call }
    else
      match if produced = 0 then none else consume (d.received call).handed with
      | some e => .leave { error := some e, input := rest, decoder := d.received call }
      | none =>
        if call.status.ended then
          if rest.isEmpty then .leave { error := none, input := rest, decoder := d.received call }
          else .again (rest, d.received call)
        else if rest.isEmpty && !call.status.needsOutput produced then
          .leave { error := none, input := rest, decoder := d.received call }
        else if rest.length = input.length ∧ produced = 0 then
          .leave { error := some (compressionError "Compressed decoder made no progress"),
                   input := rest, decoder := d.received call }
        else .again (rest, d.received call)

/-- One iteration of the loop of `feed`.  It may begin another stream, and then calls the library
once. -/
def feedStep (codec : Codec kind) (consume : List Bytes → Option ErrorInfo)
    (s : Bytes × StreamingDecoder kind) : Loop.Next (Bytes × StreamingDecoder kind) (Fed kind) :=
  if s.2.finished && s.1.isEmpty then .leave { error := none, input := s.1, decoder := s.2 }
  else
    match restartError codec s.2 with
    | some e => .leave { error := some e, input := s.1, decoder := s.2 }
    | none => afterCall consume (codec.answer s.2.calls (offered kind s.1)) s.1 s.2

/-- The measure of the loop: the input that is left, the output that may still come, and whether a
stream may end without input. -/
def feedMeasure (s : Bytes × StreamingDecoder kind) : ℕ :=
  2 * s.1.length + (s.2.maxOutput - s.2.totalOutput) + (consumedSinceEnd s.2.calls).toNat

/-- What a call of the library can lead to: an error before its output counts, the end of the loop,
or another iteration after a step forward. -/
lemma afterCall_cases (consume : List Bytes → Option ErrorInfo) (call : CodecCall kind) (input : Bytes)
    (d : StreamingDecoder kind) :
    (∃ e, afterCall consume call input d =
      .leave { error := some e, input := input.drop call.consumed, decoder := d.called call }) ∨
    d.totalOutput + call.output.length ≤ d.maxOutput ∧
      ((∃ error, (error = none → input.drop call.consumed = []) ∧ afterCall consume call input d =
        .leave { error, input := input.drop call.consumed, decoder := d.received call }) ∨
      (call.status.ended = true ∨ (input.drop call.consumed).length ≠ input.length ∨
          call.output.length ≠ 0) ∧
        afterCall consume call input d = .again (input.drop call.consumed, d.received call)) := by
  unfold afterCall
  dsimp only
  cases call.status.message with
  | some message => exact .inl ⟨_, rfl⟩
  | none =>
    dsimp only
    by_cases hexceeds : d.exceeds call.output.length = true
    · rw [if_pos hexceeds]
      exact .inl ⟨_, rfl⟩
    rw [if_neg hexceeds]
    have hlimit : d.totalOutput + call.output.length ≤ d.maxOutput := by
      simp only [exceeds, Bool.or_eq_true, decide_eq_true_eq, not_or] at hexceeds
      omega
    refine .inr ⟨hlimit, ?_⟩
    cases if call.output.length = 0 then none else consume (d.received call).handed with
    | some e => exact .inl ⟨some e, by simp, rfl⟩
    | none =>
      dsimp only
      by_cases hended : call.status.ended = true
      · rw [if_pos hended]
        by_cases hempty : (input.drop call.consumed).isEmpty = true
        · rw [if_pos hempty]
          exact .inl ⟨none, fun _ => List.isEmpty_iff.mp hempty, rfl⟩
        · rw [if_neg hempty]
          exact .inr ⟨.inl hended, rfl⟩
      · rw [if_neg hended]
        by_cases hdrained :
            ((input.drop call.consumed).isEmpty && !call.status.needsOutput call.output.length) = true
        · rw [if_pos hdrained]
          rw [Bool.and_eq_true] at hdrained
          exact .inl ⟨none, fun _ => List.isEmpty_iff.mp hdrained.1, rfl⟩
        · rw [if_neg hdrained]
          by_cases hstuck : (input.drop call.consumed).length = input.length ∧ call.output.length = 0
          · rw [if_pos hstuck]
            exact .inl ⟨_, by simp, rfl⟩
          · rw [if_neg hstuck]
            exact .inr ⟨.inr (not_and_or.mp hstuck), rfl⟩

/-- What is offered is not more than the input. -/
lemma length_offered_le (input : Bytes) : (offered kind input).length ≤ input.length := by
  unfold offered
  cases kind with
  | zlib gzip => exact List.length_take_le' _ _
  | brotli => exact le_rfl
  | zstd => exact le_rfl

/-- A step forward lowers the measure.  Without such a step the loop leaves, so it cannot go on for
ever. -/
lemma feedMeasure_received {codec : Codec kind} {input : Bytes} {d : StreamingDecoder kind}
    {call : CodecCall kind} (hcall : call = codec.answer d.calls (offered kind input))
    (hlimit : d.totalOutput + call.output.length ≤ d.maxOutput)
    (h : call.status.ended = true ∨ (input.drop call.consumed).length ≠ input.length ∨
      call.output.length ≠ 0) :
    feedMeasure (input.drop call.consumed, d.received call) < feedMeasure (input, d) := by
  have hconsumed : call.consumed ≤ input.length := by
    rw [hcall]
    exact (codec.consumed_le _ _).trans (length_offered_le input)
  have hadvances : call.status.ended = true → 0 < call.consumed ∨ consumedSinceEnd d.calls = true := by
    intro hended
    rw [hcall] at hended ⊢
    exact codec.advances _ _ hended
  have hflag : consumedSinceEnd (call :: d.calls) =
      (!call.status.ended && (decide (0 < call.consumed) || consumedSinceEnd d.calls)) := rfl
  simp only [feedMeasure, received, called, hflag, List.length_drop] at h ⊢
  by_cases hzero : call.consumed = 0
  · -- without input, either this was the end that needs none, or something came out
    simp only [hzero, lt_self_iff_false, decide_false, Bool.false_or, false_or, Nat.sub_zero,
      ne_eq, not_true_eq_false] at h hadvances ⊢
    cases hended : call.status.ended with
    | true =>
      rw [hadvances hended, Bool.not_true, Bool.false_and, Bool.toNat_false, Bool.toNat_true]
      omega
    | false =>
      have houtput : call.output.length ≠ 0 := by
        rw [hended] at h
        exact h.resolve_left Bool.false_ne_true
      rw [Bool.not_false, Bool.true_and]
      omega
  · have hflags := (!call.status.ended && (decide (0 < call.consumed) ||
      consumedSinceEnd d.calls)).toNat_le
    omega

/-- An iteration that repeats has called the library, within the limit. -/
lemma feedStep_again {codec : Codec kind} {consume : List Bytes → Option ErrorInfo} {input : Bytes}
    {d : StreamingDecoder kind} {s : Bytes × StreamingDecoder kind}
    (h : feedStep codec consume (input, d) = .again s) :
    ∃ call, call = codec.answer d.calls (offered kind input) ∧
      d.totalOutput + call.output.length ≤ d.maxOutput ∧
      (call.status.ended = true ∨ (input.drop call.consumed).length ≠ input.length ∨
        call.output.length ≠ 0) ∧
      s = (input.drop call.consumed, d.received call) := by
  unfold feedStep at h
  dsimp only at h
  split_ifs at h with hdone
  cases hrestart : restartError codec d with
  | some e =>
    rw [hrestart] at h
    cases h
  | none =>
    rw [hrestart] at h
    dsimp only at h
    rcases afterCall_cases consume (codec.answer d.calls (offered kind input)) input d with
      ⟨e, hleave⟩ | ⟨hlimit, ⟨error, -, hleave⟩ | ⟨hforward, hagain⟩⟩
    · rw [hleave] at h
      cases h
    · rw [hleave] at h
      cases h
    · rw [hagain] at h
      cases h
      exact ⟨_, rfl, hlimit, hforward, rfl⟩

/-- The loop of `feed` ends, whatever the library does.  An iteration that is not the last one
consumes input, or uses up room for output, or begins another stream. -/
theorem feedStep_decreases (codec : Codec kind) (consume : List Bytes → Option ErrorInfo) :
    Loop.Decreases (feedStep codec consume) feedMeasure := by
  rintro ⟨input, d⟩ s h
  obtain ⟨call, hcall, hlimit, hforward, rfl⟩ := feedStep_again h
  exact feedMeasure_received hcall hlimit hforward

/-- `StreamingDecoder::feed`; with `finish` it is an error if the stream has not ended. -/
def feed (codec : Codec kind) (consume : List Bytes → Option ErrorInfo) (input : Bytes)
    (finish : Bool) (d : StreamingDecoder kind) : Fed kind :=
  let fed := Loop.run (feedStep codec consume) feedMeasure (feedStep_decreases codec consume) (input, d)
  if fed.error.isNone && (finish && !fed.decoder.finished) then
    { fed with error := some (compressionError "Truncated compressed stream") }
  else fed

/-! ### Bounds -/

/-- A decoder that has kept its limit, and that is finished only after the end of a stream.  No
block is empty or longer than the buffer of the source, and the counter of the output is the length
of all blocks. -/
structure Bounded (d : StreamingDecoder kind) : Prop where
  blocks : ∀ b ∈ d.handed, b ≠ [] ∧ b.length ≤ decoderBuffer
  total : d.handed.flatten.length = d.totalOutput
  limit : d.totalOutput ≤ d.maxOutput
  ended : d.finished = true → ∃ call calls, d.calls = call :: calls ∧ call.status.ended = true

/-- A new decoder has handed out nothing. -/
lemma bounded_new (maxOutput : ℕ) : (({ maxOutput } : StreamingDecoder kind)).Bounded where
  blocks := by simp
  total := rfl
  limit := Nat.zero_le _
  ended := by simp

/-- A call alone hands out nothing. -/
lemma Bounded.called {d : StreamingDecoder kind} (h : d.Bounded) (call : CodecCall kind) :
    (d.called call).Bounded where
  blocks := h.blocks
  total := h.total
  limit := h.limit
  ended := fun hended => ⟨call, d.calls, rfl, hended⟩

/-- Output within the limit is handed out in a block that fits the buffer. -/
lemma Bounded.received {d : StreamingDecoder kind} (h : d.Bounded) {call : CodecCall kind}
    (houtput : call.output.length ≤ decoderBuffer)
    (hlimit : d.totalOutput + call.output.length ≤ d.maxOutput) : (d.received call).Bounded where
  blocks := by
    unfold StreamingDecoder.received
    dsimp only
    split_ifs with hzero
    · exact h.blocks
    · intro b hb
      rcases List.mem_append.mp hb with hb | hb
      · exact h.blocks b hb
      · rw [List.mem_singleton] at hb
        subst hb
        exact ⟨fun hnil => hzero (by rw [hnil]; rfl), houtput⟩
  total := by
    unfold StreamingDecoder.received
    dsimp only
    split_ifs with hzero
    · rw [h.total, hzero, Nat.add_zero]
    · rw [List.flatten_append, List.length_append, h.total]
      simp
  limit := hlimit
  ended := fun hended => ⟨call, d.calls, rfl, hended⟩

/-- Blocks are only added to what was handed out. -/
lemma handed_received (d : StreamingDecoder kind) (call : CodecCall kind) :
    d.handed <+: (d.received call).handed := by
  unfold StreamingDecoder.received
  dsimp only
  split_ifs
  · exact List.prefix_rfl
  · exact List.prefix_append _ _

/-- What a loop of `feed` comes to, from a decoder and an input.  The blocks handed out before stay,
and the number of calls is bounded by the input and by the room for output. -/
structure FedFrom (s : Bytes × StreamingDecoder kind) (fed : Fed kind) : Prop where
  bounded : s.2.Bounded → fed.decoder.Bounded
  maxOutput : fed.decoder.maxOutput = s.2.maxOutput
  input : fed.error = none → fed.input = []
  handed : s.2.handed <+: fed.decoder.handed
  calls : fed.decoder.calls.length ≤ s.2.calls.length + feedMeasure s + 1

/-- The loop of `feed`. -/
lemma fedFrom_run (codec : Codec kind) (consume : List Bytes → Option ErrorInfo)
    (s : Bytes × StreamingDecoder kind) :
    FedFrom s (Loop.run (feedStep codec consume) feedMeasure (feedStep_decreases codec consume) s) := by
  refine Loop.run_induct (feedStep_decreases codec consume) ?_ ?_ s
  · rintro ⟨input, d⟩ fed h
    unfold feedStep at h
    dsimp only at h
    by_cases hdone : (d.finished && input.isEmpty) = true
    · rw [if_pos hdone] at h
      cases h
      rw [Bool.and_eq_true] at hdone
      exact ⟨id, rfl, fun _ => List.isEmpty_iff.mp hdone.2, List.prefix_rfl, by dsimp only; omega⟩
    rw [if_neg hdone] at h
    cases hrestart : restartError codec d with
    | some e =>
      rw [hrestart] at h
      cases h
      exact ⟨id, rfl, by simp, List.prefix_rfl, by dsimp only; omega⟩
    | none =>
      rw [hrestart] at h
      dsimp only at h
      have hlength : (d.calls.length + 1) ≤ d.calls.length + feedMeasure (input, d) + 1 := by omega
      rcases afterCall_cases consume (codec.answer d.calls (offered kind input)) input d with
        ⟨e, hleave⟩ | ⟨hlimit, ⟨error, hinput, hleave⟩ | ⟨-, hagain⟩⟩
      · rw [hleave] at h
        cases h
        exact ⟨fun hbounded => hbounded.called _, rfl, by simp, List.prefix_rfl, hlength⟩
      · rw [hleave] at h
        cases h
        exact ⟨fun hbounded => hbounded.received (codec.output_le _ _) hlimit, rfl, hinput,
          handed_received d _, hlength⟩
      · rw [hagain] at h
        cases h
  · rintro ⟨input, d⟩ s' fed h ih
    have hdecreases := feedStep_decreases codec consume _ _ h
    obtain ⟨call, rfl, hlimit, -, rfl⟩ := feedStep_again h
    refine ⟨fun hbounded => ih.bounded (hbounded.received (codec.output_le _ _) hlimit),
      ih.maxOutput, ih.input, (handed_received d _).trans ih.handed, ih.calls.trans ?_⟩
    have hcalls : (d.received (codec.answer d.calls (offered kind input))).calls.length =
        d.calls.length + 1 := rfl
    dsimp only at hcalls hdecreases ⊢
    omega

/-- What one `feed` comes to. -/
lemma fedFrom_feed (codec : Codec kind) (consume : List Bytes → Option ErrorInfo) (input : Bytes)
    (finish : Bool) (d : StreamingDecoder kind) :
    FedFrom (input, d) (d.feed codec consume input finish) ∧
      ((d.feed codec consume input finish).error = none → finish = true →
        (d.feed codec consume input finish).decoder.finished = true) := by
  have hrun := fedFrom_run codec consume (input, d)
  unfold feed
  dsimp only
  generalize Loop.run (feedStep codec consume) feedMeasure (feedStep_decreases codec consume)
    (input, d) = fed at hrun ⊢
  by_cases htruncated : (fed.error.isNone && (finish && !fed.decoder.finished)) = true
  · rw [if_pos htruncated]
    exact ⟨⟨hrun.bounded, hrun.maxOutput, by simp, hrun.handed, hrun.calls⟩, by simp⟩
  · rw [if_neg htruncated]
    refine ⟨hrun, fun herror hfinish => ?_⟩
    rw [herror, hfinish] at htruncated
    simpa using htruncated

/-! ### Several blocks -/

/-- One call of `feed`: a block, `finish`, and the consumer.  The consumer sees the blocks so far,
and may stop the decoding with an error. -/
structure Feed where
  input : Bytes
  finish : Bool
  consume : List Bytes → Option ErrorInfo

/-- The decoder after calls of `feed`.  Errors do not stop it: the invariant holds whatever a caller
does after an error. -/
def feedAll (codec : Codec kind) (feeds : List Feed) (d : StreamingDecoder kind) :
    StreamingDecoder kind :=
  feeds.foldl (fun d f => (d.feed codec f.consume f.input f.finish).decoder) d

/-- Calls of `feed` keep the limit. -/
lemma bounded_feedAll (codec : Codec kind) (feeds : List Feed) {d : StreamingDecoder kind}
    (h : d.Bounded) : (d.feedAll codec feeds).Bounded ∧
      (d.feedAll codec feeds).maxOutput = d.maxOutput := by
  induction feeds generalizing d with
  | nil => exact ⟨h, rfl⟩
  | cons f feeds ih =>
    have hfeed := (fedFrom_feed codec f.consume f.input f.finish d).1
    obtain ⟨hbounded, hmax⟩ := ih (hfeed.bounded h)
    exact ⟨hbounded, hmax.trans hfeed.maxOutput⟩

/-- **Streaming decompression.**  For every library, every limit and every sequence of blocks: the
loop of `feed` ends, after at most as many calls of the library as its measure allows; the blocks
that are handed out fit the buffer, and all of them together fit the limit; a call that reports no
error has consumed its input, and with `finish` the last report of the library was an end. -/
theorem feeds_bounded (codec : Codec kind) (maxOutput : ℕ) (feeds : List Feed) (f : Feed) :
    let d := StreamingDecoder.feedAll codec feeds { maxOutput }
    let fed := d.feed codec f.consume f.input f.finish
    Loop.Decreases (feedStep codec f.consume) feedMeasure ∧
    fed.decoder.calls.length ≤ d.calls.length + 2 * f.input.length + maxOutput + 2 ∧
    (∀ b ∈ fed.decoder.handed, b ≠ [] ∧ b.length ≤ 32 * 1024) ∧
    fed.decoder.handed.flatten.length ≤ maxOutput ∧
    (fed.error = none → fed.input = [] ∧ (f.finish = true →
      ∃ call calls, fed.decoder.calls = call :: calls ∧ call.status.ended = true)) := by
  intro d fed
  obtain ⟨hd, hmax⟩ := bounded_feedAll codec feeds (@bounded_new kind maxOutput)
  obtain ⟨hfed, hfinish⟩ := fedFrom_feed codec f.consume f.input f.finish d
  have hbounded := hfed.bounded hd
  refine ⟨feedStep_decreases codec f.consume, ?_, hbounded.blocks, ?_, fun herror =>
    ⟨hfed.input herror, fun hlast => hbounded.ended (hfinish herror hlast)⟩⟩
  · have hcalls : fed.decoder.calls.length ≤ d.calls.length + feedMeasure (f.input, d) + 1 :=
      hfed.calls
    have hflag := Bool.toNat_le (consumedSinceEnd d.calls)
    have hbudget : d.maxOutput = maxOutput := hmax
    unfold feedMeasure at hcalls
    dsimp only at hcalls
    rw [hbudget] at hcalls
    omega
  · have hlimit := hbounded.limit
    rw [hbounded.total]
    exact hlimit.trans (le_of_eq (hfed.maxOutput.trans hmax))

/-- The library on the zlib stream of the text `a`. -/
def letterCodec : Codec (.zlib false) where
  answer calls input :=
    if calls.isEmpty ∧ input = [0x78, 0x9c, 0x4b, 0x04, 0x00, 0x00, 0x62, 0x00, 0x62] then
      { input, consumed := 9, output := bytes "a", status := ZlibStatus.streamEnd }
    else { input, consumed := 0, output := [], status := ZlibStatus.bufError }
  reset _ := true
  consumed_le := by
    intro calls input
    split_ifs with h
    · rw [h.2]
      decide
    · exact Nat.zero_le _
  output_le := by
    intro calls input
    have hletter : (bytes "a").length ≤ decoderBuffer := by decide
    split_ifs
    · exact hletter
    · exact Nat.zero_le _
  advances := by
    intro calls input
    split_ifs
    · exact fun _ => .inl (Nat.succ_pos 8)
    · exact fun h => absurd h Bool.false_ne_true

/-- One call decodes the stream to its end. -/
theorem feeds_bounded_of_letter :
    (feed letterCodec (fun _ => none) [0x78, 0x9c, 0x4b, 0x04, 0x00, 0x00, 0x62, 0x00, 0x62] true
      { maxOutput := 10 }).input = [] :=
  ((feeds_bounded letterCodec 10 []
    { input := [0x78, 0x9c, 0x4b, 0x04, 0x00, 0x00, 0x62, 0x00, 0x62], finish := true,
      consume := fun _ => none }).2.2.2.2 (by decide +kernel)).1

end StreamingDecoder

/-! ### The decoder of a body -/

open StreamingDecoder

/-- The calls of `feed` for blocks that are all accepted. -/
def blockFeeds (blocks : List Bytes) : List Feed :=
  blocks.map fun input => { input, finish := false, consume := fun _ => none }

/-- The decoder before the last call of `feed`, and that call: the last block, or the end. -/
def lastFeed {kind : DecoderKind} (codec : Codec kind) (maxOutput : ℕ) (blocks : List Bytes)
    (finish : Bool) : StreamingDecoder kind × Fed kind :=
  let d := StreamingDecoder.feedAll codec
    (blockFeeds (if finish then blocks else blocks.dropLast)) { maxOutput }
  (d, d.feed codec (fun _ => none) (if finish then [] else blocks.getLast?.getD []) finish)

/-- The `StreamingDecoder` that the readers of bodies use; a library that cannot be initialized is
missing. -/
def Decoder.ofCodecs (codecs : ∀ kind, Option (Codec kind)) : Decoder where
  create encoding _ :=
    match decoderKind encoding with
    | none => some (compressionError "Unsupported content encoding")
    | some kind => if (codecs kind).isNone then some (initializeError kind) else none
  feed encoding maxOutput blocks finish :=
    match decoderKind encoding with
    | none => ([], none)
    | some kind =>
      match codecs kind with
      | none => ([], none)
      | some codec =>
        let (d, fed) := lastFeed codec maxOutput blocks finish
        (fed.decoder.handed.drop d.handed.length, fed.error)

/-- The blocks of one call and those of the calls before fit the limit together. -/
lemma lastFeed_bounded {kind : DecoderKind} (codec : Codec kind) (maxOutput : ℕ) (blocks : List Bytes)
    (finish : Bool) :
    ∃ new, (lastFeed codec maxOutput blocks finish).2.decoder.handed =
        (lastFeed codec maxOutput blocks finish).1.handed ++ new ∧
      (∀ b ∈ new, b ≠ [] ∧ b.length ≤ 32 * 1024) ∧
      (lastFeed codec maxOutput blocks finish).1.handed.flatten.length + new.flatten.length ≤
        maxOutput := by
  unfold lastFeed
  dsimp only
  obtain ⟨hd, hmax⟩ := bounded_feedAll codec
    (blockFeeds (if finish then blocks else blocks.dropLast)) (@bounded_new kind maxOutput)
  generalize StreamingDecoder.feedAll codec _ _ = d at hd hmax ⊢
  obtain ⟨hfed, -⟩ := fedFrom_feed codec (fun _ => none)
    (if finish then [] else blocks.getLast?.getD []) finish d
  have hbounded := hfed.bounded hd
  obtain ⟨new, hnew⟩ := hfed.handed
  refine ⟨new, hnew.symm, fun b hb => hbounded.blocks b ?_, ?_⟩
  · rw [← hnew]
    exact List.mem_append_right _ hb
  · have hlimit := hbounded.limit
    rw [← hbounded.total, ← hnew, List.flatten_append, List.length_append] at hlimit
    exact hlimit.trans (le_of_eq (hfed.maxOutput.trans hmax))

/-- The decoder of a body hands out short blocks within the limit. -/
theorem Decoder.ofCodecs_bounded (codecs : ∀ kind, Option (Codec kind)) (encoding : Bytes)
    (maxOutput : ℕ) (blocks : List Bytes) (finish : Bool) :
    (∀ b ∈ ((Decoder.ofCodecs codecs).feed encoding maxOutput blocks finish).1,
      b ≠ [] ∧ b.length ≤ 32 * 1024) ∧
    ((Decoder.ofCodecs codecs).feed encoding maxOutput blocks finish).1.flatten.length ≤ maxOutput := by
  unfold Decoder.ofCodecs
  dsimp only
  cases decoderKind encoding with
  | none => simp
  | some kind =>
    dsimp only
    cases codecs kind with
    | none => simp
    | some codec =>
      obtain ⟨new, hnew, hblocks, hlimit⟩ := lastFeed_bounded codec maxOutput blocks finish
      dsimp only
      rw [hnew, List.drop_left]
      exact ⟨hblocks, by omega⟩

end Chhttp
