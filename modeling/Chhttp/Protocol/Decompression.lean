import Chhttp.Protocol.StreamingDecoder

/-!
# Decompression

What the class `StreamingDecoder` makes of valid compressed data.  `Codec.Decodes` is what the
compression libraries promise: within a stream a call goes on with it, as far as the input and the
buffer allow, and it reports the end with the last byte of the code and of the text.

The blocks of a body are arbitrary cuts of its code, and the code may consist of several streams in a
row where the format allows it.  The decoder hands out exactly the text (`decodeBody_streams`): it
succeeds if and only if the code ends where a stream ends and the text is within the limit.
-/

namespace Chhttp

variable {kind : DecoderKind}

/-! ### Streams -/

/-- Streams of this kind may follow each other: gzip members and Zstd frames.  A Brotli or a zlib
stream ends the body. -/
def DecoderKind.concatenates : DecoderKind → Bool
  | .zlib gzip => gzip
  | .brotli => false
  | .zstd => true

/-- The code of streams in a row; a stream is given by its code and its text. -/
def codes (streams : List (Bytes × Bytes)) : Bytes := streams.flatMap Prod.fst

/-- The text of streams in a row. -/
def texts (streams : List (Bytes × Bytes)) : Bytes := streams.flatMap Prod.snd

/-- The input runs along the code: it is a part of it from its front, or goes beyond it. -/
def Along (input code : Bytes) : Prop := input <+: code ∨ code <+: input

/-- What a compression library promises about valid streams.  `Stream code text` are the streams of
its format, and `pending calls code text` says that the calls have led into a stream of which `code`
has not been consumed and `text` has not come out. -/
structure Codec.Decodes (codec : Codec kind) (Stream : Bytes → Bytes → Prop)
    (pending : List (CodecCall kind) → Bytes → Bytes → Prop) : Prop where
  nonempty : ∀ {code text}, Stream code text → code ≠ []
  start : ∀ {code text}, Stream code text → pending [] code text
  message : ∀ {calls code text input}, pending calls code text → Along input code →
    (codec.answer calls input).status.message = none
  output : ∀ {calls code text input}, pending calls code text → Along input code →
    (codec.answer calls input).output <+: text
  consumed : ∀ {calls code text input}, pending calls code text → Along input code →
    (codec.answer calls input).consumed ≤ code.length
  /-- More output is announced only when some came. -/
  produces : ∀ {calls code text input}, pending calls code text → Along input code →
    (codec.answer calls input).status.needsOutput (codec.answer calls input).output.length = true →
    (codec.answer calls input).output ≠ []
  /-- At its end, a stream has been consumed and has come out. -/
  ended : ∀ {calls code text input}, pending calls code text → Along input code →
    (codec.answer calls input).status.ended = true →
    (codec.answer calls input).consumed = code.length ∧ (codec.answer calls input).output = text
  goesOn : ∀ {calls code text input}, pending calls code text → Along input code →
    (codec.answer calls input).status.ended = false →
    pending (codec.answer calls input :: calls) (code.drop (codec.answer calls input).consumed)
      (text.drop (codec.answer calls input).output.length)
  /-- A call that does not wait for room in the buffer waits for input. -/
  waits : ∀ {calls code text input}, pending calls code text → Along input code →
    (codec.answer calls input).status.ended = false →
    (codec.answer calls input).status.needsOutput (codec.answer calls input).output.length = false →
    (codec.answer calls input).consumed = input.length ∧
      (codec.answer calls input).consumed < code.length
  /-- After the end of a stream another one may begin, for gzip after a reset. -/
  again : ∀ {calls code text input code' text'}, kind.concatenates = true →
    pending calls code text → Along input code → (codec.answer calls input).status.ended = true →
    Stream code' text' → codec.reset (codec.answer calls input :: calls) = true ∧
      pending (codec.answer calls input :: calls) code' text'

/-- Codes in a row. -/
lemma codes_append (streams streams' : List (Bytes × Bytes)) :
    codes (streams ++ streams') = codes streams ++ codes streams' := List.flatMap_append

/-- The code of a stream and of those behind it. -/
lemma codes_cons (stream : Bytes × Bytes) (streams : List (Bytes × Bytes)) :
    codes (stream :: streams) = stream.1 ++ codes streams := List.flatMap_cons

/-- The text of a stream and of those behind it. -/
lemma texts_cons (stream : Bytes × Bytes) (streams : List (Bytes × Bytes)) :
    texts (stream :: streams) = stream.2 ++ texts streams := List.flatMap_cons

/-- Two beginnings of the same bytes. -/
lemma along_of_append {input code more rest : Bytes} (h : input ++ more = code ++ rest) :
    Along input code :=
  List.prefix_or_prefix_of_prefix (List.prefix_append input more) (h ▸ List.prefix_append code rest)

namespace StreamingDecoder

/-- What is offered is the beginning of the input. -/
lemma offered_begins (input : Bytes) : offered kind input <+: input := by
  unfold offered
  cases kind with
  | zlib gzip => exact List.take_prefix _ _
  | brotli => exact List.prefix_rfl
  | zstd => exact List.prefix_rfl

/-- Some of an input is offered. -/
lemma offered_ne_nil {input : Bytes} (h : input ≠ []) : offered kind input ≠ [] := by
  unfold offered
  cases kind with
  | zlib gzip =>
    rw [ne_eq, List.take_eq_nil_iff, not_or]
    exact ⟨by norm_num, h⟩
  | brotli => exact h
  | zstd => exact h

/-- What is offered runs along the code as the input does. -/
lemma along_offered {input code : Bytes} (h : Along input code) : Along (offered kind input) code := by
  rcases h with h | h
  · exact .inl ((offered_begins input).trans h)
  · exact List.prefix_or_prefix_of_prefix (offered_begins input) h

/-- The output of a call is handed out. -/
lemma flatten_handed_received (d : StreamingDecoder kind) (call : CodecCall kind) :
    (d.received call).handed.flatten = d.handed.flatten ++ call.output := by
  unfold received
  dsimp only
  split_ifs with hzero
  · rw [List.length_eq_zero_iff.mp hzero, List.append_nil]
  · rw [List.flatten_append, List.flatten_singleton]

/-! ### One call of `feed` -/

/-- What is ahead of a decoder that decodes the given streams: it is in the middle of one, or between
two of them. -/
inductive Ahead (codec : Codec kind) (Stream : Bytes → Bytes → Prop)
    (pending : List (CodecCall kind) → Bytes → Bytes → Prop) (streams : List (Bytes × Bytes))
    (d : StreamingDecoder kind) : Bytes → Bytes → Prop where
  | within {done left : List (Bytes × Bytes)} {stream : Bytes × Bytes} {code text : Bytes}
      (hstreams : streams = done ++ stream :: left) (hfinished : d.finished = false)
      (hpending : pending d.calls code text) :
      Ahead codec Stream pending streams d (code ++ codes left) (text ++ texts left)
  | between {done left : List (Bytes × Bytes)} (hstreams : streams = done ++ left)
      (hdone : done ≠ []) (hfinished : d.finished = true)
      (hagain : kind.concatenates = true → ∀ code text, Stream code text →
        codec.reset d.calls = true ∧ pending d.calls code text) :
      Ahead codec Stream pending streams d (codes left) (texts left)

/-- The error of a text above the limit. -/
def tooLarge : ErrorInfo := { code := .bodyTooLarge, message := "Decompressed body exceeds limit" }

/-- The error of a code that ends within a stream. -/
def truncated : ErrorInfo := compressionError "Truncated compressed stream"

/-- What feeding comes to when `text` is ahead: all that was fed has been decoded, and only between two
streams nothing more is needed; or the text is above the limit. -/
structure Follows (ahead : StreamingDecoder kind → Bytes → Bytes → Prop) (d : StreamingDecoder kind)
    (more text : Bytes) (error : Option ErrorInfo) (d' : StreamingDecoder kind) : Prop where
  handed : d'.handed.flatten <+: d.handed.flatten ++ text
  accepted : error = none → ∃ text', d'.handed.flatten ++ text' = d.handed.flatten ++ text ∧
    ahead d' more text' ∧ (d'.finished = true ∨ more ≠ [])
  refused : ∀ e, error = some e → e = tooLarge ∧ d.maxOutput < d.handed.flatten.length + text.length

section Feed

variable {codec : Codec kind} {Stream : Bytes → Bytes → Prop}
  {pending : List (CodecCall kind) → Bytes → Bytes → Prop} {streams done left : List (Bytes × Bytes)}
  {stream : Bytes × Bytes} {d d' : StreamingDecoder kind} {input more code text : Bytes}

/-- A call that reports the end of its stream has taken the rest of it, and the decoder is between
this stream and the next one. -/
lemma ahead_of_ended (h : codec.Decodes Stream pending) (hstreams : streams = done ++ stream :: left)
    (hpending : pending d.calls code text) (hinput : input ++ more = code ++ codes left)
    (hend : (codec.answer d.calls (offered kind input)).status.ended = true) :
    (codec.answer d.calls (offered kind input)).output = text ∧
      Ahead codec Stream pending streams (d.received (codec.answer d.calls (offered kind input)))
        (input.drop (codec.answer d.calls (offered kind input)).consumed ++ more) (texts left) := by
  have halong : Along (offered kind input) code := along_offered (along_of_append hinput)
  obtain ⟨hall, htext⟩ := h.ended hpending halong hend
  have hlength : (codec.answer d.calls (offered kind input)).consumed ≤ input.length :=
    (codec.consumed_le _ _).trans (length_offered_le input)
  have hrest : input.drop (codec.answer d.calls (offered kind input)).consumed ++ more =
      codes left := by
    have hdrop :=
      congrArg (List.drop (codec.answer d.calls (offered kind input)).consumed) hinput
    rwa [List.drop_append_of_le_length hlength, hall, List.drop_left, ← hall] at hdrop
  have hstreams' : streams = (done ++ [stream]) ++ left := by rw [hstreams, List.append_cons]
  refine ⟨htext, ?_⟩
  rw [hrest]
  exact .between hstreams' (by simp) hend fun hmany code' text' hstream =>
    h.again hmany hpending halong hend hstream

/-- A call that does not report the end leaves the rest of its stream. -/
lemma ahead_of_goesOn (h : codec.Decodes Stream pending) (hstreams : streams = done ++ stream :: left)
    {text' : Bytes}
    (hpending : pending d.calls code ((codec.answer d.calls (offered kind input)).output ++ text'))
    (hinput : input ++ more = code ++ codes left)
    (hend : (codec.answer d.calls (offered kind input)).status.ended = false) :
    input.drop (codec.answer d.calls (offered kind input)).consumed ++ more =
        code.drop (codec.answer d.calls (offered kind input)).consumed ++ codes left ∧
      Ahead codec Stream pending streams (d.received (codec.answer d.calls (offered kind input)))
        (input.drop (codec.answer d.calls (offered kind input)).consumed ++ more)
        (text' ++ texts left) := by
  have halong : Along (offered kind input) code := along_offered (along_of_append hinput)
  have hlength : (codec.answer d.calls (offered kind input)).consumed ≤ input.length :=
    (codec.consumed_le _ _).trans (length_offered_le input)
  have hrest : input.drop (codec.answer d.calls (offered kind input)).consumed ++ more =
      code.drop (codec.answer d.calls (offered kind input)).consumed ++ codes left := by
    rw [← List.drop_append_of_le_length hlength,
      ← List.drop_append_of_le_length (h.consumed hpending halong), hinput]
  have hpending' := h.goesOn hpending halong hend
  rw [List.drop_left] at hpending'
  refine ⟨hrest, ?_⟩
  rw [hrest]
  exact .within hstreams hend hpending'

/-- A call that neither reports the end nor has used up its input makes progress: it has consumed
something, or some text came out. -/
lemma progress_of_goesOn (h : codec.Decodes Stream pending) (hpending : pending d.calls code text)
    (halong : Along (offered kind input) code)
    (hend : (codec.answer d.calls (offered kind input)).status.ended = false)
    (hdrained : ¬ ((input.drop (codec.answer d.calls (offered kind input)).consumed).isEmpty &&
      !(codec.answer d.calls (offered kind input)).status.needsOutput
        (codec.answer d.calls (offered kind input)).output.length) = true) :
    ¬ ((input.drop (codec.answer d.calls (offered kind input)).consumed).length = input.length ∧
      (codec.answer d.calls (offered kind input)).output.length = 0) := by
  have hproduces := h.produces hpending halong
  have hwaits := h.waits hpending halong hend
  have hoffered := codec.consumed_le d.calls (offered kind input)
  generalize codec.answer d.calls (offered kind input) = call at *
  rintro ⟨hsame, hzero⟩
  by_cases hneeds : call.status.needsOutput call.output.length = true
  · exact hproduces hneeds (List.length_eq_zero_iff.mp hzero)
  · rw [Bool.not_eq_true] at hneeds
    rw [hneeds, Bool.not_false, Bool.and_true, List.isEmpty_iff] at hdrained
    obtain ⟨hwhole, -⟩ := hwaits hneeds
    have hne : input ≠ [] := by
      rintro rfl
      exact hdrained List.drop_nil
    have hpos := List.length_pos_iff.mpr (@offered_ne_nil kind _ hne)
    have hlength := @length_offered_le kind input
    rw [List.length_drop] at hsame
    omega

/-- A call within a stream. -/
lemma afterCall_of_pending (h : codec.Decodes Stream pending) (hbounded : d.Bounded)
    (hstreams : streams = done ++ stream :: left) (hpending : pending d.calls code text)
    (hinput : input ++ more = code ++ codes left) :
    (∃ fed, afterCall (fun _ => none) (codec.answer d.calls (offered kind input)) input d = .leave fed ∧
      Follows (Ahead codec Stream pending streams) d more (text ++ texts left) fed.error fed.decoder) ∨
    ∃ input' d' text',
      afterCall (fun _ => none) (codec.answer d.calls (offered kind input)) input d =
        .again (input', d') ∧
      Ahead codec Stream pending streams d' (input' ++ more) text' ∧ d'.Bounded ∧
      d'.maxOutput = d.maxOutput ∧
      d'.handed.flatten ++ text' = d.handed.flatten ++ (text ++ texts left) := by
  have halong : Along (offered kind input) code := along_offered (along_of_append hinput)
  have hmessage := h.message hpending halong
  have hwaits := h.waits hpending halong
  obtain ⟨text', rfl⟩ := h.output hpending halong
  have hended := ahead_of_ended h hstreams hpending hinput
  have hgoesOn := ahead_of_goesOn h hstreams hpending hinput
  have hprogress := progress_of_goesOn h hpending halong
  have hfits := codec.output_le d.calls (offered kind input)
  generalize codec.answer d.calls (offered kind input) = call at *
  have htotal := hbounded.total
  unfold afterCall
  dsimp only
  rw [hmessage]
  dsimp only
  by_cases hexceeds : d.exceeds call.output.length = true
  · rw [if_pos hexceeds]
    refine .inl ⟨_, rfl, List.prefix_append _ _, (fun h => by cases h), fun e he => ?_⟩
    cases he
    simp only [exceeds, Bool.or_eq_true, decide_eq_true_eq] at hexceeds
    refine ⟨rfl, ?_⟩
    rw [List.length_append, List.length_append]
    omega
  rw [if_neg hexceeds]
  have hlimit : d.totalOutput + call.output.length ≤ d.maxOutput := by
    simp only [exceeds, Bool.or_eq_true, decide_eq_true_eq, not_or] at hexceeds
    omega
  have hreceived : (d.received call).Bounded := hbounded.received hfits hlimit
  have hhanded : (d.received call).handed.flatten ++ (text' ++ texts left) =
      d.handed.flatten ++ (call.output ++ text' ++ texts left) := by
    rw [flatten_handed_received]
    simp only [List.append_assoc]
  have hbegins : (d.received call).handed.flatten <+:
      d.handed.flatten ++ (call.output ++ text' ++ texts left) := hhanded ▸ List.prefix_append _ _
  rw [ite_self]
  dsimp only
  by_cases hend : call.status.ended = true
  · -- the stream is complete, and the next one may begin
    rw [if_pos hend]
    obtain ⟨hnothing, hahead⟩ := hended hend
    rw [List.self_eq_append_right] at hnothing
    subst hnothing
    by_cases hempty : (input.drop call.consumed).isEmpty = true
    · rw [if_pos hempty]
      rw [List.isEmpty_iff] at hempty
      rw [hempty, List.nil_append] at hahead
      exact .inl ⟨_, rfl, hbegins, fun _ => ⟨_, hhanded, hahead, .inl hend⟩, fun e he => by cases he⟩
    · rw [if_neg hempty]
      exact .inr ⟨_, _, _, rfl, hahead, hreceived, rfl, hhanded⟩
  · -- the stream goes on, with the next block if the input has been used up
    rw [if_neg hend]
    rw [Bool.not_eq_true] at hend
    obtain ⟨hrest, hahead⟩ := hgoesOn hend
    by_cases hdrained : ((input.drop call.consumed).isEmpty &&
        !call.status.needsOutput call.output.length) = true
    · rw [if_pos hdrained]
      rw [Bool.and_eq_true, List.isEmpty_iff, Bool.not_eq_true'] at hdrained
      obtain ⟨hempty, hneeds⟩ := hdrained
      have hleft := (hwaits hend hneeds).2
      have hmore : more ≠ [] := by
        rintro rfl
        rw [hempty, List.append_nil, eq_comm, List.append_eq_nil_iff, List.drop_eq_nil_iff] at hrest
        omega
      rw [hempty, List.nil_append] at hahead
      exact .inl ⟨_, rfl, hbegins, fun _ => ⟨_, hhanded, hahead, .inr hmore⟩, fun e he => by cases he⟩
    · rw [if_neg hdrained, if_neg (hprogress hend hdrained)]
      exact .inr ⟨_, _, _, rfl, hahead, hreceived, rfl, hhanded⟩

/-- One iteration of the loop of `feed`.  It asks the library once, and gives its answer to
`afterCall`. -/
lemma feedStep_of_ahead (h : codec.Decodes Stream pending) (hall : ∀ m ∈ streams, Stream m.1 m.2)
    (hone : 1 < streams.length → kind.concatenates = true) (hbounded : d.Bounded)
    (hahead : Ahead codec Stream pending streams d (input ++ more) text) :
    (∃ fed, feedStep codec (fun _ => none) (input, d) = .leave fed ∧
      Follows (Ahead codec Stream pending streams) d more text fed.error fed.decoder) ∨
    ∃ input' d' text', feedStep codec (fun _ => none) (input, d) = .again (input', d') ∧
      Ahead codec Stream pending streams d' (input' ++ more) text' ∧ d'.Bounded ∧
      d'.maxOutput = d.maxOutput ∧ d'.handed.flatten ++ text' = d.handed.flatten ++ text := by
  have hahead' := hahead
  generalize hword : input ++ more = word at hahead'
  unfold feedStep
  dsimp only
  cases hahead' with
  | within hstreams hfinished hpending =>
    have hrestart : restartError codec d = none := by
      unfold restartError
      rw [hfinished, Bool.not_false, if_pos rfl]
    rw [hfinished, Bool.false_and, if_neg Bool.false_ne_true, hrestart]
    exact afterCall_of_pending h hbounded hstreams hpending hword
  | @between done left hstreams hdone hfinished hagain =>
    by_cases hempty : input = []
    · subst hempty
      rw [hfinished, List.isEmpty_nil, Bool.and_self, if_pos rfl]
      exact .inl ⟨_, rfl, List.prefix_append _ _, fun _ => ⟨_, rfl, hahead, .inl hfinished⟩, nofun⟩
    · -- the next stream begins
      cases left with
      | nil => exact absurd (List.append_eq_nil_iff.mp hword).1 hempty
      | cons stream left =>
        have hmany : kind.concatenates = true := by
          refine hone ?_
          have := List.length_pos_iff.mpr hdone
          rw [hstreams, List.length_append, List.length_cons]
          omega
        obtain ⟨hreset, hpending⟩ := hagain hmany stream.1 stream.2
          (hall stream (by rw [hstreams]; simp))
        have hrestart : restartError codec d = none := by
          unfold restartError
          rw [hfinished, Bool.not_true, if_neg Bool.false_ne_true]
          cases kind with
          | zlib gzip =>
            obtain rfl : gzip = true := hmany
            dsimp only
            rw [if_pos hreset]
          | brotli => cases hmany
          | zstd => rfl
        rw [List.isEmpty_eq_false_iff.mpr hempty, Bool.and_false, if_neg Bool.false_ne_true, hrestart,
          texts_cons]
        rw [codes_cons] at hword
        exact afterCall_of_pending h hbounded hstreams hpending hword

/-- The loop of `feed`.  The proof follows the iterations, which lower the measure of the loop. -/
lemma follows_run (h : codec.Decodes Stream pending) (hall : ∀ m ∈ streams, Stream m.1 m.2)
    (hone : 1 < streams.length → kind.concatenates = true) (hbounded : d.Bounded)
    (hahead : Ahead codec Stream pending streams d (input ++ more) text) :
    let fed := Loop.run (feedStep codec fun _ => none) feedMeasure
      (feedStep_decreases codec fun _ => none) (input, d)
    Follows (Ahead codec Stream pending streams) d more text fed.error fed.decoder := by
  let Post : Bytes × StreamingDecoder kind → Fed kind → Prop := fun s fed =>
    ∀ text, s.2.Bounded → Ahead codec Stream pending streams s.2 (s.1 ++ more) text →
      Follows (Ahead codec Stream pending streams) s.2 more text fed.error fed.decoder
  have hrun : Post (input, d) (Loop.run (feedStep codec fun _ => none) feedMeasure
      (feedStep_decreases codec fun _ => none) (input, d)) := by
    refine Loop.run_induct _ ?_ ?_ (input, d)
    · rintro ⟨input, d⟩ fed hleave text hbounded hahead
      rcases feedStep_of_ahead h hall hone hbounded hahead with
        ⟨fed', hfed', hfollows⟩ | ⟨input', d', text', hagain, -⟩
      · rw [hleave] at hfed'
        cases hfed'
        exact hfollows
      · rw [hleave] at hagain
        cases hagain
    · rintro ⟨input, d⟩ s' fed hstep ih text hbounded hahead
      rcases feedStep_of_ahead h hall hone hbounded hahead with
        ⟨fed', hfed', -⟩ | ⟨input', d', text', hagain, hahead', hbounded', hmax, hhanded⟩
      · rw [hstep] at hfed'
        cases hfed'
      · rw [hstep] at hagain
        cases hagain
        obtain ⟨hbegins, haccepted, hrefused⟩ := ih text' hbounded' hahead'
        refine ⟨hhanded ▸ hbegins, fun hnone => ?_, fun e he => ?_⟩
        · obtain ⟨text'', hflatten, hnext⟩ := haccepted hnone
          exact ⟨text'', hflatten.trans hhanded, hnext⟩
        · obtain ⟨hlarge, hlt⟩ := hrefused e he
          refine ⟨hlarge, ?_⟩
          dsimp only at hlt ⊢
          rwa [hmax, ← List.length_append, hhanded, List.length_append] at hlt
  exact hrun text hbounded hahead

/-- A block of the code. -/
lemma follows_feed (h : codec.Decodes Stream pending) (hall : ∀ m ∈ streams, Stream m.1 m.2)
    (hone : 1 < streams.length → kind.concatenates = true) (hbounded : d.Bounded)
    (hahead : Ahead codec Stream pending streams d (input ++ more) text) :
    Follows (Ahead codec Stream pending streams) d more text
      (d.feed codec (fun _ => none) input false).error
      (d.feed codec (fun _ => none) input false).decoder := by
  have hfeed : d.feed codec (fun _ => none) input false = Loop.run (feedStep codec fun _ => none)
      feedMeasure (feedStep_decreases codec fun _ => none) (input, d) := by
    unfold feed
    simp only [Bool.false_and, Bool.and_false, Bool.false_eq_true, if_false]
  rw [hfeed]
  exact follows_run h hall hone hbounded hahead

end Feed

/-! ### Bodies -/

/-- The calls of `feed` for a body: its blocks, up to the first error, and the last call.  The last
call has no input and says that the body is complete, as the source does. -/
def decodeBody (codec : Codec kind) :
    List Bytes → StreamingDecoder kind → Option ErrorInfo × StreamingDecoder kind
  | [], d =>
    let fed := d.feed codec (fun _ => none) [] true
    (fed.error, fed.decoder)
  | block :: blocks, d =>
    let fed := d.feed codec (fun _ => none) block false
    match fed.error with
    | some e => (some e, fed.decoder)
    | none => decodeBody codec blocks fed.decoder

/-- Bodies keep the limit. -/
lemma bounded_decodeBody (codec : Codec kind) (blocks : List Bytes) {d : StreamingDecoder kind}
    (h : d.Bounded) : (decodeBody codec blocks d).2.Bounded ∧
      (decodeBody codec blocks d).2.maxOutput = d.maxOutput := by
  induction blocks generalizing d with
  | nil =>
    have hfed := (fedFrom_feed codec (fun _ => none) [] true d).1
    exact ⟨hfed.bounded h, hfed.maxOutput⟩
  | cons block blocks ih =>
    have hfed := (fedFrom_feed codec (fun _ => none) block false d).1
    unfold decodeBody
    dsimp only
    cases (d.feed codec (fun _ => none) block false).error with
    | some e => exact ⟨hfed.bounded h, hfed.maxOutput⟩
    | none =>
      obtain ⟨hbounded, hmax⟩ := ih (hfed.bounded h)
      exact ⟨hbounded, hmax.trans hfed.maxOutput⟩

/-- What the blocks of a body come to when `text` is ahead.  Never more than the text is handed on.
A success has handed on all of it, and a failure has a text above the limit or code without an end.
-/
structure Decoded (ahead : StreamingDecoder kind → Bytes → Bytes → Prop) (d : StreamingDecoder kind)
    (more text : Bytes) (error : Option ErrorInfo) (d' : StreamingDecoder kind) : Prop where
  handed : d'.handed.flatten <+: d.handed.flatten ++ text
  accepted : error = none → ∃ text', d'.handed.flatten ++ text' = d.handed.flatten ++ text ∧
    ahead d' more text' ∧ d'.finished = true
  refused : ∀ e, error = some e →
    e = tooLarge ∧ d.maxOutput < d.handed.flatten.length + text.length ∨ e = truncated ∧ more ≠ []

section Body

variable {codec : Codec kind} {Stream : Bytes → Bytes → Prop}
  {pending : List (CodecCall kind) → Bytes → Bytes → Prop} {streams done left : List (Bytes × Bytes)}
  {d : StreamingDecoder kind} {more text : Bytes}

/-- The blocks of a body, in any cuts of the code.  The proof is an induction on the blocks, with
what follows them as `more`. -/
lemma decoded_decodeBody (h : codec.Decodes Stream pending) (hall : ∀ m ∈ streams, Stream m.1 m.2)
    (hone : 1 < streams.length → kind.concatenates = true) (blocks : List Bytes) (hbounded : d.Bounded)
    (hahead : Ahead codec Stream pending streams d (blocks.flatten ++ more) text) :
    Decoded (Ahead codec Stream pending streams) d more text (decodeBody codec blocks d).1
      (decodeBody codec blocks d).2 := by
  induction blocks generalizing d text with
  | nil =>
    rw [List.flatten_nil] at hahead
    obtain ⟨hbegins, haccepted, hrefused⟩ := follows_run h hall hone hbounded hahead
    unfold decodeBody feed
    dsimp only
    generalize Loop.run (feedStep codec fun _ => none) feedMeasure _ ([], d) = fed at *
    rw [Bool.true_and]
    by_cases hshort : (fed.error.isNone && !fed.decoder.finished) = true
    · rw [if_pos hshort]
      rw [Bool.and_eq_true, Option.isNone_iff_eq_none, Bool.not_eq_true'] at hshort
      obtain ⟨text', -, -, hfinished | hmore⟩ := haccepted hshort.1
      · rw [hshort.2] at hfinished
        cases hfinished
      · refine ⟨hbegins, nofun, fun e he => .inr ⟨?_, hmore⟩⟩
        cases he
        rfl
    · rw [if_neg hshort]
      refine ⟨hbegins, fun hnone => ?_, fun e he => .inl (hrefused e he)⟩
      obtain ⟨text', hflatten, hahead', -⟩ := haccepted hnone
      rw [hnone, Option.isNone_none, Bool.true_and, Bool.not_eq_true, Bool.not_eq_false'] at hshort
      exact ⟨text', hflatten, hahead', hshort⟩
  | cons block blocks ih =>
    rw [List.flatten_cons, List.append_assoc] at hahead
    obtain ⟨hbegins, haccepted, hrefused⟩ := follows_feed h hall hone hbounded hahead
    have hfed := (fedFrom_feed codec (fun _ => none) block false d).1
    unfold decodeBody
    dsimp only
    cases herror : (d.feed codec (fun _ => none) block false).error with
    | some e =>
      refine ⟨hbegins, nofun, fun e' he' => .inl (hrefused e' ?_)⟩
      rw [herror]
      exact he'
    | none =>
      obtain ⟨text', hflatten, hahead', -⟩ := haccepted herror
      have hnext := ih (hfed.bounded hbounded) hahead'
      refine ⟨hflatten ▸ hnext.handed, fun hnone => ?_, fun e he => ?_⟩
      · obtain ⟨text'', hflatten', hlast⟩ := hnext.accepted hnone
        exact ⟨text'', hflatten'.trans hflatten, hlast⟩
      · refine (hnext.refused e he).imp_left (And.imp_right fun hlt => ?_)
        rwa [hfed.maxOutput, ← List.length_append, hflatten, List.length_append] at hlt

/-- Only no streams have no code. -/
lemma codes_eq_nil (h : codec.Decodes Stream pending) (hall : ∀ m ∈ streams, Stream m.1 m.2)
    (hnil : codes streams = []) : streams = [] := by
  cases streams with
  | nil => rfl
  | cons stream streams =>
    rw [codes_cons, List.append_eq_nil_iff] at hnil
    exact absurd hnil.1 (h.nonempty (hall stream List.mem_cons_self))

/-- A new decoder has all streams ahead. -/
lemma ahead_new (h : codec.Decodes Stream pending) (hall : ∀ m ∈ streams, Stream m.1 m.2)
    (hne : streams ≠ []) (maxOutput : ℕ) :
    Ahead codec Stream pending streams { maxOutput } (codes streams) (texts streams) := by
  cases streams with
  | nil => exact absurd rfl hne
  | cons stream streams =>
    rw [codes_cons, texts_cons]
    exact .within (List.nil_append _).symm rfl (h.start (hall stream List.mem_cons_self))

/-- Between two streams, where no code is ahead no text is. -/
lemma Ahead.text_eq_nil (hahead : Ahead codec Stream pending streams d [] text)
    (h : codec.Decodes Stream pending) (hall : ∀ m ∈ streams, Stream m.1 m.2)
    (hfinished : d.finished = true) : text = [] := by
  generalize hmore : ([] : Bytes) = more at hahead
  cases hahead with
  | within _ hunfinished _ =>
    rw [hfinished] at hunfinished
    cases hunfinished
  | between hstreams _ _ _ =>
    rw [codes_eq_nil h (fun m hm => hall m (by rw [hstreams]; simp [hm])) hmore.symm]
    rfl

/-- A body of complete streams is decoded when its text is within the limit. -/
lemma decodeBody_complete (h : codec.Decodes Stream pending) (hall : ∀ m ∈ streams, Stream m.1 m.2)
    (hone : 1 < streams.length → kind.concatenates = true) (hne : streams ≠ []) (maxOutput : ℕ)
    {blocks : List Bytes} (hblocks : blocks.flatten = codes streams) :
    ((decodeBody codec blocks { maxOutput }).1 = none →
      (decodeBody codec blocks { maxOutput }).2.handed.flatten = texts streams) ∧
    ∀ e, (decodeBody codec blocks { maxOutput }).1 = some e →
      e = tooLarge ∧ maxOutput < (texts streams).length := by
  have hahead := ahead_new h hall hne maxOutput
  rw [← hblocks, ← List.append_nil blocks.flatten] at hahead
  obtain ⟨-, haccepted, hrefused⟩ :=
    decoded_decodeBody h hall hone blocks (bounded_new maxOutput) hahead
  refine ⟨fun hnone => ?_, fun e he => ?_⟩
  · obtain ⟨text', hflatten, hlast, hfinished⟩ := haccepted hnone
    rw [hlast.text_eq_nil h hall hfinished] at hflatten
    exact (List.append_nil _).symm.trans hflatten
  · rcases hrefused e he with hlarge | ⟨-, habsurd⟩
    · rwa [List.flatten_nil, List.length_nil, Nat.zero_add] at hlarge
    · exact absurd rfl habsurd

/-- The blocks of a body are the beginning of valid streams, in any cuts.  Decoding succeeds if and
only if the blocks end where a stream ends and the text so far is within the limit, and then exactly
this text has been handed out.  Otherwise it fails, since the text is too large or the last stream is
not complete; what was handed out before is the beginning of the text. -/
theorem decodeBody_streams (h : codec.Decodes Stream pending) (hall : ∀ m ∈ streams, Stream m.1 m.2)
    (hone : 1 < streams.length → kind.concatenates = true) (hne : streams ≠ []) (maxOutput : ℕ)
    (blocks : List Bytes) (hblocks : blocks.flatten ++ more = codes streams) :
    let r := decodeBody codec blocks { maxOutput }
    (r.1 = none ↔ ∃ done left, streams = done ++ left ∧ done ≠ [] ∧ blocks.flatten = codes done ∧
      (texts done).length ≤ maxOutput) ∧
    (∀ done left, streams = done ++ left → blocks.flatten = codes done → r.1 = none →
      r.2.handed.flatten = texts done) ∧
    (∀ e, r.1 = some e → e = tooLarge ∧ maxOutput < (texts streams).length ∨
      e = truncated ∧ ∀ done left, streams = done ++ left → done ≠ [] →
        blocks.flatten ≠ codes done) ∧
    r.2.handed.flatten <+: texts streams ∧ r.2.handed.flatten.length ≤ maxOutput := by
  intro r
  have hahead := ahead_new h hall hne maxOutput
  rw [← hblocks] at hahead
  obtain ⟨hbegins, haccepted, hrefused⟩ :=
    decoded_decodeBody h hall hone blocks (bounded_new maxOutput) hahead
  obtain ⟨hbounded, hmax⟩ := bounded_decodeBody codec blocks (@bounded_new kind maxOutput)
  have hlimit : r.2.handed.flatten.length ≤ maxOutput := by
    rw [hbounded.total]
    exact hbounded.limit.trans (le_of_eq hmax)
  have hcomplete : ∀ done left, streams = done ++ left → done ≠ [] → blocks.flatten = codes done →
      (r.1 = none → r.2.handed.flatten = texts done) ∧
        ∀ e, r.1 = some e → e = tooLarge ∧ maxOutput < (texts done).length :=
    fun done left hsplit hdone hboundary =>
      decodeBody_complete h (fun m hm => hall m (by rw [hsplit]; simp [hm]))
        (fun hmany => hone (by rw [hsplit, List.length_append]; omega)) hdone maxOutput hboundary
  have hboundary : r.1 = none → ∃ done left, streams = done ++ left ∧ done ≠ [] ∧
      blocks.flatten = codes done := by
    intro hnone
    obtain ⟨text', -, hlast, hfinished⟩ := haccepted hnone
    cases hlast with
    | within _ hunfinished _ =>
      rw [hfinished] at hunfinished
      cases hunfinished
    | @between done left hsplit hdone _ _ =>
      rw [hsplit, codes_append, List.append_cancel_right_eq] at hblocks
      exact ⟨done, left, hsplit, hdone, hblocks⟩
  refine ⟨⟨fun hnone => ?_, ?_⟩, ?_, fun e he => ?_, hbegins, hlimit⟩
  · obtain ⟨done, left, hsplit, hdone, hat⟩ := hboundary hnone
    refine ⟨done, left, hsplit, hdone, hat, ?_⟩
    rw [← (hcomplete done left hsplit hdone hat).1 hnone]
    exact hlimit
  · rintro ⟨done, left, hsplit, hdone, hat, hfits⟩
    cases herror : r.1 with
    | none => rfl
    | some e =>
      exact absurd ((hcomplete done left hsplit hdone hat).2 e herror).2 (Nat.not_lt.mpr hfits)
  · intro done left hsplit hat hnone
    by_cases hdone : done = []
    · -- nothing was fed, and a decoder that was fed nothing does not succeed
      obtain ⟨done', left', hsplit', hdone', hat'⟩ := hboundary hnone
      rw [hat, hdone] at hat'
      exact absurd (codes_eq_nil h (fun m hm => hall m (by rw [hsplit']; simp [hm])) hat'.symm) hdone'
    · exact (hcomplete done left hsplit hdone hat).1 hnone
  · rcases hrefused e he with ⟨hlarge, hlt⟩ | ⟨hshort, -⟩
    · rw [List.flatten_nil, List.length_nil, Nat.zero_add] at hlt
      exact .inl ⟨hlarge, hlt⟩
    · refine .inr ⟨hshort, fun done left hsplit hdone hat => ?_⟩
      obtain ⟨hlarge, -⟩ := (hcomplete done left hsplit hdone hat).2 e he
      rw [hshort] at hlarge
      cases hlarge

end Body

/-! ### An example -/

/-- The text `a` in a stream of its own, for gzip and for zlib: the head, one deflate block, and the
checksum. -/
def letterCode (gzip : Bool) : Bytes :=
  if gzip then
    [0x1f, 0x8b, 0x08, 0x00, 0x00, 0x00, 0x00, 0x00, 0x00, 0x03, 0x4b, 0x04, 0x00,
      0x43, 0xbe, 0xb7, 0xe8, 0x01, 0x00, 0x00, 0x00]
  else [0x78, 0x9c, 0x4b, 0x04, 0x00, 0x00, 0x62, 0x00, 0x62]

/-- The length of the stream up to the byte with which the letter comes out. -/
def letterAt (gzip : Bool) : ℕ := if gzip then 12 else 4

/-- The position in the stream that calls have reached; behind its end another one begins. -/
def reached (gzip : Bool) (calls : List (CodecCall kind)) : ℕ :=
  (calls.map CodecCall.consumed).sum % (letterCode gzip).length

/-- The library on this stream, in any cuts, and on repetitions of it. -/
def inflateLetter (gzip : Bool) : Codec (.zlib gzip) where
  answer calls input :=
    let before := reached gzip calls
    let consumed := min input.length ((letterCode gzip).length - before)
    let status : ZlibStatus :=
      if ((letterCode gzip).drop before).take consumed ≠ input.take consumed then .other none
      else if consumed = 0 then .bufError
      else if before + consumed = (letterCode gzip).length then .streamEnd
      else .ok
    { input, consumed, status
      output := if before < letterAt gzip ∧ letterAt gzip ≤ before + consumed then bytes "a" else [] }
  reset _ := true
  consumed_le := fun calls input => Nat.min_le_left _ _
  output_le := by
    intro calls input
    have hletter : (bytes "a").length ≤ decoderBuffer := by decide
    dsimp only
    split_ifs
    · exact hletter
    · exact Nat.zero_le _
  advances := by
    intro calls input hended
    left
    dsimp only at hended ⊢
    split_ifs at hended with hdata hnone hend
    · cases hended
    · cases hended
    · omega
    · cases hended

/-- The library is within the stream. -/
def WithinLetter (gzip : Bool) (calls : List (CodecCall (.zlib gzip))) (code text : Bytes) : Prop :=
  code = (letterCode gzip).drop (reached gzip calls) ∧
    text = if reached gzip calls < letterAt gzip then bytes "a" else []

section Letter

variable {gzip : Bool} {calls : List (CodecCall (.zlib gzip))} {code text input : Bytes}

/-- The letter comes out before the end of the stream. -/
lemma letterAt_le : letterAt gzip ≤ (letterCode gzip).length := by
  cases gzip <;> decide

/-- A position is within the stream. -/
lemma reached_lt : reached gzip calls < (letterCode gzip).length :=
  Nat.mod_lt _ (by cases gzip <;> decide)

/-- A call goes on from the position that was reached. -/
lemma reached_cons (call : CodecCall (.zlib gzip)) :
    reached gzip (call :: calls) =
      (reached gzip calls + call.consumed) % (letterCode gzip).length := by
  rw [reached, reached, List.map_cons, List.sum_cons, Nat.mod_add_mod, Nat.add_comm]

/-- A call within the stream. -/
lemma inflateLetter_answer (h : WithinLetter gzip calls code text) (halong : Along input code) :
    code.length = (letterCode gzip).length - reached gzip calls ∧
    ((inflateLetter gzip).answer calls input).status =
      (if min input.length ((letterCode gzip).length - reached gzip calls) = 0 then .bufError
      else if reached gzip calls + min input.length ((letterCode gzip).length - reached gzip calls) =
        (letterCode gzip).length then .streamEnd
      else .ok : ZlibStatus) := by
  obtain ⟨rfl, -⟩ := h
  have hlength := List.length_drop (i := reached gzip calls) (l := letterCode gzip)
  refine ⟨hlength, ?_⟩
  have hsame : ((letterCode gzip).drop (reached gzip calls)).take
      (min input.length ((letterCode gzip).length - reached gzip calls)) =
        input.take (min input.length ((letterCode gzip).length - reached gzip calls)) := by
    rcases halong with hbegins | hbegins
    · obtain ⟨rest, hrest⟩ := hbegins
      rw [← hrest, List.take_append_of_le_length (Nat.min_le_left _ _)]
    · obtain ⟨rest, hrest⟩ := hbegins
      rw [← hrest, List.take_append_of_le_length]
      rw [hlength]
      exact Nat.min_le_right _ _
  exact if_neg (not_not.mpr hsame)

/-- A call that reports the end has consumed the rest of the stream. -/
lemma consumed_of_ended (h : WithinLetter gzip calls code text) (halong : Along input code)
    (hended : ((inflateLetter gzip).answer calls input).status.ended = true) :
    ((inflateLetter gzip).answer calls input).consumed =
      (letterCode gzip).length - reached gzip calls := by
  have hlt := @reached_lt gzip calls
  rw [(inflateLetter_answer h halong).2] at hended
  dsimp only [inflateLetter]
  split_ifs at hended with hnone hend
  · cases hended
  · omega
  · cases hended

/-- The library decodes the stream, and another one behind its end. -/
lemma inflateLetter_decodes (gzip : Bool) :
    (inflateLetter gzip).Decodes (fun code text => code = letterCode gzip ∧ text = bytes "a")
      (WithinLetter gzip) where
  nonempty := by
    rintro code text ⟨rfl, rfl⟩
    cases gzip <;> exact List.cons_ne_nil _ _
  start := by
    rintro code text ⟨rfl, rfl⟩
    cases gzip <;> exact ⟨rfl, rfl⟩
  message := by
    intro calls code text input h halong
    rw [(inflateLetter_answer h halong).2]
    split_ifs <;> rfl
  output := by
    rintro calls code text input ⟨rfl, rfl⟩ halong
    dsimp only [inflateLetter]
    split_ifs with hout hbefore
    · exact List.prefix_rfl
    · exact absurd hout.1 hbefore
    · exact List.nil_prefix
    · exact List.nil_prefix
  consumed := by
    intro calls code text input h halong
    rw [(inflateLetter_answer h halong).1]
    exact Nat.min_le_right _ _
  produces := by
    intro calls code text input h halong hneeds hnil
    rw [hnil] at hneeds
    have hempty : (0 == decoderBuffer) = true := hneeds
    cases hempty
  ended := by
    intro calls code text input h halong hended
    have hlength := (inflateLetter_answer h halong).1
    have hconsumed := consumed_of_ended h halong hended
    have hlt := @reached_lt gzip calls
    have hat := @letterAt_le gzip
    obtain ⟨rfl, rfl⟩ := h
    refine ⟨hconsumed.trans hlength.symm, ?_⟩
    dsimp only [inflateLetter] at hconsumed ⊢
    -- whether the letter is already out, comes out in this call, or is still ahead
    by_cases hbefore : reached gzip calls < letterAt gzip
    · rw [if_pos ⟨hbefore, by omega⟩, if_pos hbefore]
    · rw [if_neg (fun hout => hbefore hout.1), if_neg hbefore]
  -- the member goes on: the position after the call is short of its end, so the remainder
  -- modulo the length changes nothing
  goesOn := by
    intro calls code text input h halong hended
    obtain ⟨hlength, hstatus⟩ := inflateLetter_answer h halong
    have hlt := @reached_lt gzip calls
    obtain ⟨rfl, rfl⟩ := h
    rw [hstatus] at hended
    have hshort : reached gzip calls +
        min input.length ((letterCode gzip).length - reached gzip calls) <
          (letterCode gzip).length := by
      split_ifs at hended with hnone hend
      · omega
      · cases hended
      · omega
    have hafter : reached gzip ((inflateLetter gzip).answer calls input :: calls) =
        reached gzip calls + min input.length ((letterCode gzip).length - reached gzip calls) := by
      rw [reached_cons]
      exact Nat.mod_eq_of_lt hshort
    refine ⟨?_, ?_⟩
    · rw [hafter, List.drop_drop]
      rfl
    · rw [hafter]
      dsimp only [inflateLetter]
      by_cases hbefore : reached gzip calls < letterAt gzip
      · rw [if_pos hbefore]
        by_cases hout : letterAt gzip ≤ reached gzip calls +
            min input.length ((letterCode gzip).length - reached gzip calls)
        · rw [if_pos ⟨hbefore, hout⟩, if_neg (by omega)]
          rfl
        · rw [if_neg (fun h => hout h.2), if_pos (by omega)]
          rfl
      · rw [if_neg hbefore, List.drop_nil, if_neg (by omega)]
  waits := by
    intro calls code text input h halong hended hneeds
    obtain ⟨hlength, hstatus⟩ := inflateLetter_answer h halong
    have hlt := @reached_lt gzip calls
    rw [hstatus] at hended
    rw [hlength]
    dsimp only [inflateLetter]
    split_ifs at hended with hnone hend
    · omega
    · cases hended
    · omega
  -- a whole member was consumed: the position is back at zero, where the next member starts
  again := by
    rintro calls code text input _ _ - h halong hended ⟨rfl, rfl⟩
    have hlt := @reached_lt gzip calls
    have hstart : reached gzip ((inflateLetter gzip).answer calls input :: calls) = 0 := by
      rw [reached_cons, consumed_of_ended h halong hended, Nat.add_sub_cancel' hlt.le, Nat.mod_self]
    refine ⟨rfl, ?_, ?_⟩
    · rw [hstart, List.drop_zero]
    · rw [hstart, if_pos (by cases gzip <;> decide)]

end Letter

/-- Two gzip members in three blocks, of which the second one begins behind the first letter and ends
behind the second one.  The text is within a limit of two bytes, and exceeds a limit of one. -/
theorem decodeBody_streams_letter :
    (decodeBody (inflateLetter true) [(letterCode true).take 13,
      (letterCode true).drop 13 ++ (letterCode true).take 12, (letterCode true).drop 12]
      { maxOutput := 2 }).1 = none ∧
    (decodeBody (inflateLetter true) [(letterCode true).take 13,
      (letterCode true).drop 13 ++ (letterCode true).take 12, (letterCode true).drop 12]
      { maxOutput := 2 }).2.handed.flatten = bytes "aa" ∧
    (decodeBody (inflateLetter true) [(letterCode true).take 13,
      (letterCode true).drop 13 ++ (letterCode true).take 12, (letterCode true).drop 12]
      { maxOutput := 1 }).1 ≠ none := by
  have hstreams := fun maxOutput => @decodeBody_streams _ (inflateLetter true) _ _
    [(letterCode true, bytes "a"), (letterCode true, bytes "a")] [] (inflateLetter_decodes true)
    (by simp) (fun _ => rfl) (by simp) maxOutput
    [(letterCode true).take 13, (letterCode true).drop 13 ++ (letterCode true).take 12,
      (letterCode true).drop 12] (by decide)
  obtain ⟨hiff, htext, -⟩ := hstreams 2
  have hnone := hiff.mpr ⟨[(letterCode true, bytes "a"), (letterCode true, bytes "a")], [], rfl,
    by simp, by decide, by decide⟩
  refine ⟨hnone, htext [(letterCode true, bytes "a"), (letterCode true, bytes "a")] [] rfl
    (by decide) hnone, fun hless => ?_⟩
  -- below the limit of one byte there would be the first member alone
  obtain ⟨done, left, hsplit, -, hboundary, hlimit⟩ := (hstreams 1).1.mp hless
  rcases done with - | ⟨first, - | ⟨second, more⟩⟩
  · exact absurd hboundary (by decide)
  · obtain ⟨rfl, -⟩ := List.cons.inj hsplit
    exact absurd hboundary (by decide)
  · obtain ⟨rfl, hmore⟩ := List.cons.inj hsplit
    obtain ⟨rfl, -⟩ := List.cons.inj hmore
    rw [texts_cons, texts_cons, List.length_append, List.length_append] at hlimit
    have hletter : (bytes "a").length = 1 := rfl
    dsimp only at hlimit
    omega

end StreamingDecoder

end Chhttp
