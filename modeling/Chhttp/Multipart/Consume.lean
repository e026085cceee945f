import Chhttp.Multipart.WriterRoundTrip
import Chhttp.Server.StreamRoute

/-!
# Forms in stream routes

`consumeMultipart` is `consume_multipart`: the blocks of a request body go to a parser, and the
events of the parser to callbacks.  Callbacks that accept every event get the form that the whole
body denotes (`consumeMultipart_agrees`), and therefore the parts that a `MultipartWriter` has
written (`Form.consumed`).
-/

namespace Chhttp

/-- `consume` reads the body. -/
def RequestBodySource.reads (s : RequestBodySource) : Bool :=
  !s.consumed && !s.complete && !s.cancelled &&
    !s.state.contentLength.any fun length => decide (s.options.maxBodySize < length)

/-- The blocks that `consume` hands to its consumer, if it reads the body. -/
def RequestBodySource.handedOver (decoder : Decoder) (consumer : BodyConsumer)
    (s : RequestBodySource) : List Bytes :=
  if s.reads then s.seen decoder consumer else []

/-- A fresh source is read. -/
lemma RequestBodySource.Fresh.reads {s : RequestBodySource} (h : Fresh s) : s.reads = true := by
  rw [RequestBodySource.reads, h.consumed, h.complete, h.cancelled]
  cases hlength : s.state.contentLength with
  | none => rfl
  | some length => simpa using h.limit length hlength

namespace Multipart

open MultipartParser MultipartWriter RequestBodySource

/-! ### The source -/

/-- `MultipartCallbacks`: the reaction to the last of the events so far.  An event for which there
is no callback is accepted. -/
abbrev MultipartCallbacks := List MultipartEvent → Reaction

/-- The local variables of `consume_multipart`, with the events that the callbacks have got.  The
parser's own error is kept apart from that of the transfer, for the source decides between the two
at the end. -/
structure Consumption where
  parser : MultipartParser
  parserError : Option ErrorInfo := none
  dispatched : List MultipartEvent := []

/-- `dispatch`, which ends with the first event that is not accepted. -/
def dispatch (callbacks : MultipartCallbacks) (dispatched : List MultipartEvent) :
    List MultipartEvent → Reaction × List MultipartEvent
  | [] => (.accepted, dispatched)
  | event :: events =>
    match callbacks (dispatched ++ [event]) with
    | .accepted => dispatch callbacks (dispatched ++ [event]) events
    | reaction => (reaction, dispatched ++ [event])

namespace Consumption

/-- What the consumer of `consume_multipart` does with a block.  It feeds the block to the parser
and the events to the callbacks, and it refuses when either fails. -/
def take (callbacks : MultipartCallbacks) (c : Consumption) (data : Bytes) :
    Reaction × Consumption :=
  match c.parser.feed data with
  | (.error e, parser) => (.rejected, { c with parser, parserError := some e })
  | (.ok events, parser) =>
    let (reaction, dispatched) := dispatch callbacks c.dispatched events
    (reaction, { c with parser, dispatched })

/-- One block after another. -/
def takeAll (callbacks : MultipartCallbacks) (c : Consumption) (blocks : List Bytes) :
    Consumption :=
  blocks.foldl (fun c data => (c.take callbacks data).2) c

/-- The consumer, which is called for the last of the blocks.  It replays the blocks before, since
its state is a function of what it has been given. -/
def consumer (callbacks : MultipartCallbacks) (c : Consumption) : BodyConsumer where
  react blocks :=
    match blocks.getLast? with
    | none => .accepted
    | some data => ((c.takeAll callbacks blocks.dropLast).take callbacks data).1

end Consumption

/-- `consume_multipart`, with the source and the events after it.  What a callback throws behind the
end of the body is thrown on; before that, the source reports it. -/
def consumeMultipart (decoder : Decoder) (callbacks : MultipartCallbacks) (contentType : Bytes)
    (options : MultipartParserOptions) (source : RequestBodySource) :
    Except Thrown (Option ErrorInfo) × RequestBodySource × List MultipartEvent :=
  let start : Consumption := { parser := .create contentType options }
  let consumer := start.consumer callbacks
  let (consumed, after) := source.consume decoder consumer
  let c := start.takeAll callbacks (source.handedOver decoder consumer)
  match c.parserError, consumed with
  | some e, _ => (.ok (some e), after, c.dispatched)
  | none, some e => (.ok (some e), after, c.dispatched)
  | none, none =>
    match c.parser.finish with
    | (.error e, _) => (.ok (some e), after, c.dispatched)
    | (.ok events, _) =>
      match dispatch callbacks c.dispatched events with
      | (.accepted, dispatched) => (.ok none, after, dispatched)
      | (.rejected, dispatched) =>
        (.ok (some { code := .cancelled, message := "Multipart consumer cancelled the transfer" }),
          after, dispatched)
      | (.threw thrown, dispatched) => (.error thrown, after, dispatched)

/-! ### Callbacks that accept -/

section Accepting

variable {callbacks : MultipartCallbacks}

/-- All events are dispatched. -/
lemma dispatch_accepting (haccepts : ∀ events, callbacks events = .accepted)
    (dispatched events : List MultipartEvent) :
    dispatch callbacks dispatched events = (.accepted, dispatched ++ events) := by
  induction events generalizing dispatched with
  | nil => rw [dispatch, List.append_nil]
  | cons event events ih =>
    rw [dispatch, haccepts]
    dsimp only
    rw [ih, List.append_assoc, List.singleton_append]

/-- A block that the parser takes. -/
lemma take_of_feed (haccepts : ∀ events, callbacks events = .accepted) {c : Consumption}
    {data : Bytes} {events : List MultipartEvent} {parser : MultipartParser}
    (h : c.parser.feed data = (.ok events, parser)) :
    c.take callbacks data =
      (.accepted, { c with parser, dispatched := c.dispatched ++ events }) := by
  rw [Consumption.take, h]
  dsimp only
  rw [dispatch_accepting haccepts]

/-- The first blocks of a body that a parser takes: their events are dispatched, and the parser
takes what is left. -/
lemma takeAll_of_parse (haccepts : ∀ events, callbacks events = .accepted)
    {blocks rest : List Bytes} {c : Consumption} {events : List MultipartEvent}
    (h : c.parser.parse (blocks ++ rest) = .ok events) :
    ∃ before parser later, c.takeAll callbacks blocks =
        { c with parser, dispatched := c.dispatched ++ before } ∧
      parser.parse rest = .ok later ∧ events = before ++ later := by
  induction blocks generalizing c events with
  | nil => exact ⟨[], c.parser, events, by rw [List.append_nil]; rfl, h, rfl⟩
  | cons block blocks ih =>
    rw [List.cons_append, MultipartParser.parse] at h
    rcases hfeed : c.parser.feed block with ⟨e | first, parser⟩
    · rw [hfeed] at h
      cases h
    · rw [hfeed] at h
      dsimp only at h
      cases hparse : parser.parse (blocks ++ rest) with
      | error e =>
        rw [hparse] at h
        cases h
      | ok more =>
        rw [hparse] at h
        cases h
        obtain ⟨before, parser', later, htake, hrest, hevents⟩ :=
          @ih { c with parser, dispatched := c.dispatched ++ first } more hparse
        refine ⟨first ++ before, parser', later, ?_, hrest, by rw [hevents, List.append_assoc]⟩
        rw [Consumption.takeAll, List.foldl_cons, take_of_feed haccepts hfeed, ← List.append_assoc]
        exact htake

/-- The consumer accepts the blocks of a body that the parser takes. -/
lemma accepts_of_parse (haccepts : ∀ events, callbacks events = .accepted) {blocks : List Bytes}
    {c : Consumption} {events : List MultipartEvent} (h : c.parser.parse blocks = .ok events) :
    Accepts (c.consumer callbacks).react blocks := by
  rintro first ⟨rest, rfl⟩ hfirst
  obtain ⟨before, data, rfl⟩ := List.eq_nil_or_concat first |>.resolve_left hfirst
  rw [List.concat_eq_append, List.append_assoc] at h
  obtain ⟨taken, parser, later, htake, hparse, -⟩ := takeAll_of_parse haccepts h
  rw [List.singleton_append, MultipartParser.parse] at hparse
  rcases hfeed : parser.feed data with ⟨e | events, parser'⟩
  · rw [hfeed] at hparse
    cases hparse
  · have hlast : (before ++ [data]).getLast? = some data := by simp
    rw [List.concat_eq_append, Consumption.consumer]
    dsimp only
    rw [hlast, List.dropLast_concat, htake]
    exact congrArg Prod.fst (@take_of_feed callbacks haccepts
      { c with parser, dispatched := c.dispatched ++ taken } data events parser' hfeed)

/-- Callbacks that accept every event get the events of the form that a buffered route would have
read, up to the pieces in which content is delivered, and the body is consumed. -/
lemma consumeMultipart_agrees {decoder : Decoder} {contentType : Bytes}
    {options : MultipartParserOptions} {source : RequestBodySource} {body : Bytes}
    {events : List MultipartEvent} (haccepts : ∀ events, callbacks events = .accepted)
    (hkeeps : source.options.Keeps) (hfresh : Fresh source)
    (hexpect : source.state.expectContinue = false)
    (hcoding : contentCoding source.options source.state.headers = none)
    (hbody : (source.buffered decoder).result = .ok body)
    (hparse : (MultipartParser.create contentType options).parse [body] = .ok events) :
    ∃ after dispatched, consumeMultipart decoder callbacks contentType options source =
        (.ok none, after, dispatched) ∧ joinData dispatched = joinData events ∧
      after.complete = true ∧ after.input = (source.buffered decoder).input := by
  let start : Consumption := { parser := .create contentType options }
  let consumer := start.consumer callbacks
  have hwhole : (source.buffered decoder).delivered.flatten = body :=
    (readRequestBody_whole hkeeps hbody).symm
  -- the parser takes the blocks of the body as it takes the body
  have hcuts := fragmentation_invisible contentType options body [body]
    (source.buffered decoder).delivered (by simp) hwhole
  rw [hparse] at hcuts
  cases hblocks : (MultipartParser.create contentType options).parse
    (source.buffered decoder).delivered with
  | error e =>
    rw [hblocks] at hcuts
    cases hcuts
  | ok events' =>
    rw [hblocks] at hcuts
    have hsame : joinData events = joinData events' := Option.some.inj hcuts
    have haccept : Accepts consumer.react (source.buffered decoder).delivered :=
      accepts_of_parse haccepts hblocks
    have hread : readRequestBody decoder (source.options.handing consumer.react) source.state
        source.input source.output = (source.buffered decoder).handed := by
      rw [buffered, readRequestBody_plain hexpect hcoding] at haccept ⊢
      rw [@readRequestBody_plain (source.options.handing consumer.react) decoder source.state
        hexpect hcoding]
      exact readPlainRequestBody_handing hkeeps source.state source.input source.output haccept
    obtain ⟨hseen, hconsume⟩ := @Fresh.consume_of_handed decoder consumer source hfresh
      (fun _ => rfl) hread
    have hover : source.handedOver decoder consumer = (source.buffered decoder).delivered := by
      rw [handedOver, if_pos hfresh.reads, hseen]
    obtain ⟨before, parser, later, htake, hrest, hevents⟩ :=
      @takeAll_of_parse callbacks haccepts (source.buffered decoder).delivered [] start events'
        (by rw [List.append_nil]; exact hblocks)
    rw [hbody] at hconsume
    have hfinish : parser.finish.1 = .ok later := hrest
    refine ⟨{ source.after (source.buffered decoder) with complete := true }, before ++ later, ?_,
      by rw [hsame, hevents], rfl, rfl⟩
    unfold consumeMultipart
    dsimp only
    rw [hover, htake, hconsume]
    dsimp only
    rcases hresult : parser.finish with ⟨e | last, parser'⟩
    · rw [hresult] at hfinish
      cases hfinish
    · rw [hresult] at hfinish
      cases hfinish
      dsimp only
      rw [dispatch_accepting haccepts]
      rfl

end Accepting

/-! ### Forms that a writer has written -/

/-- A form that a writer made of its additions can write and a parser with these options can read:
its boundary does not begin with a blank and does not delimit any content, the limits are not
exceeded, and the metadata are read back as they are written. -/
structure Form (options : MultipartParserOptions) (writer : MultipartWriter) (body : Bytes) :
    Prop where
  boundary : validBoundary writer.boundary = true ∧ writer.boundary.head? ≠ some sp
  added : ∃ (random : Bytes) (additions : List Addition),
    additions.foldlM add (MultipartWriter.create random writer.boundary) = .ok writer
  written : writer.write.run accepting [] = (none, body)
  content : ∀ part ∈ writer.parts,
    ListSearch.find (crlf ++ (dashes ++ writer.boundary)) part.content = none
  limits : WithinLimits options writer.parts
  plain : ∀ part ∈ writer.parts, Plain part.metadata

/-- The parser reads the parts of a form. -/
lemma Form.readsBack {options : MultipartParserOptions} {writer : MultipartWriter} {body : Bytes}
    (h : Form options writer body) : ReadsBack writer options [body] := by
  obtain ⟨random, additions, hadded⟩ := h.added
  obtain ⟨hboundary, hblank⟩ := h.boundary
  obtain ⟨-, hparts⟩ := foldlM_add hadded fun part hpart => absurd hpart List.not_mem_nil
  have hvalid := fun part hpart => (hparts part hpart).metadata
  have hbody := run_writeParts h.written
  rw [List.nil_append] at hbody
  obtain ⟨-, -, htrim⟩ := validBoundary_trim hboundary
  have hcut := @untilDelimiter_content writer.boundary [] hboundary rfl writer.parts
  rw [List.nil_append, List.append_assoc] at hcut
  rw [readsBack_iff hboundary, List.flatten_singleton, hbody, formEvents, htrim hblank, hcut]
  simp only [Option.bind_some, List.length_nil, Nat.not_lt_zero, if_false]
  rw [form_writtenFrom hboundary hvalid h.content (by rw [Nat.zero_add]; exact h.limits.count)
    h.limits.head h.limits.size (by rw [Nat.zero_add]; exact h.limits.total)]
  exact h.plain

/-- A form in the body of a request, framed by a length or in any chunks and arriving in any cuts,
is received by callbacks that accept every event part by part as it was added; then the source is
complete, and what follows on the connection is untouched. -/
theorem Form.consumed {writer : MultipartWriter} {body word rest : Bytes} {decoder : Decoder}
    {callbacks : MultipartCallbacks} {options : MultipartParserOptions} {source : RequestBodySource}
    (h : Form options writer body) (haccepts : ∀ events, callbacks events = .accepted)
    (hbuffered : source.options.Buffered) (hfresh : Fresh source)
    (hexpect : source.state.expectContinue = false)
    (hcoding : contentCoding source.options source.state.headers = none)
    (hframe : BodyFrame source.options.maxHeaderSize source.state.head word [] body)
    (havail : source.input.available = word ++ rest)
    (hlimit : body.length ≤ source.options.maxBodySize) :
    ∃ after events, consumeMultipart decoder callbacks writer.contentType options source =
        (.ok none, after, events) ∧ List.Forall₂ Received writer.parts (collectParts none events) ∧
      after.complete = true ∧ after.input.available = rest := by
  obtain ⟨events, hparse, hreceived⟩ := h.readsBack
  obtain ⟨r, hr, hok, -, hrest⟩ := @readBody_of_bodyFrame source.options hbuffered
    source.state.head source.input word body rest [] hframe havail hlimit fun _ => rfl
  have hread : source.buffered decoder =
      readPlainRequestBody source.options source.state source.input source.output :=
    readRequestBody_plain hexpect hcoding
  have hresult : (source.buffered decoder).result = .ok body := by
    rw [hread, readPlainRequestBody, hr]
    exact hok
  have hinput : (source.buffered decoder).input = r.input := by
    rw [hread, readPlainRequestBody, hr]
  obtain ⟨after, dispatched, hconsume, hsame, hcomplete, hafter⟩ :=
    consumeMultipart_agrees haccepts ⟨hbuffered.onData, hbuffered.onDataAsync⟩ hfresh hexpect
      hcoding hresult hparse
  refine ⟨after, dispatched, hconsume, ?_, hcomplete, by rw [hafter, hinput, hrest]⟩
  rwa [← collectParts_joinData none dispatched, hsame, collectParts_joinData]

end Multipart

end Chhttp
