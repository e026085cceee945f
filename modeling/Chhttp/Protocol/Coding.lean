import Chhttp.Protocol.BodyLimit
import Chhttp.Protocol.Decompression
import Chhttp.Protocol.Request
import Chhttp.Protocol.Response

/-!
# Bodies with a content coding

`Decoder.Decodes` says that a decoder makes a text of a code, in any cuts of the code.  The class
`StreamingDecoder` does so for valid streams whose text is within the limit
(`Decoder.ofCodecs_decodes`), and a client that removes the content coding of a response with such a
decoder returns the text (`readResponseBody_decoded`).
-/

namespace Chhttp

open StreamingDecoder

/-! ### Decoders -/

/-- A decoder makes `text` of `code`, with the given limit: the blocks that come out depend on the
cuts of the code, what they contain does not. -/
structure Decoder.Decodes (decoder : Decoder) (encoding : Bytes) (limit : ℕ)
    (out : List Bytes → List Bytes) (code text : Bytes) : Prop where
  create : decoder.create encoding limit = none
  start : out [] = []
  block : ∀ blocks block, (blocks ++ [block]).flatten <+: code →
    ∃ new, decoder.feed encoding limit (blocks ++ [block]) false = (new, none) ∧
      out (blocks ++ [block]) = out blocks ++ new ∧ (out blocks ++ new).flatten.length ≤ limit
  finish : ∀ blocks, blocks.flatten = code →
    ∃ new, decoder.feed encoding limit blocks true = (new, none) ∧
      (out blocks ++ new).flatten = text ∧ text.length ≤ limit

section OfCodecs

variable {kind : DecoderKind} {codec : Codec kind} {Stream : Bytes → Bytes → Prop}
  {pending : List (CodecCall kind) → Bytes → Bytes → Prop} {streams : List (Bytes × Bytes)}
  {d : StreamingDecoder kind} {more text : Bytes}

/-- One more block. -/
lemma feedAll_concat (codec : Codec kind) (blocks : List Bytes) (block : Bytes)
    (d : StreamingDecoder kind) :
    d.feedAll codec (blockFeeds (blocks ++ [block])) =
      ((d.feedAll codec (blockFeeds blocks)).feed codec (fun _ => none) block false).decoder := by
  rw [blockFeeds, List.map_append, StreamingDecoder.feedAll, List.foldl_append]
  rfl

/-- Blocks of the code of a text within the limit. -/
lemma feedAll_of_ahead (h : codec.Decodes Stream pending) (hall : ∀ m ∈ streams, Stream m.1 m.2)
    (hone : 1 < streams.length → kind.concatenates = true) (blocks : List Bytes) (hbounded : d.Bounded)
    (hfits : d.handed.flatten.length + text.length ≤ d.maxOutput)
    (hahead : Ahead codec Stream pending streams d (blocks.flatten ++ more) text) :
    (d.feedAll codec (blockFeeds blocks)).Bounded ∧
      (d.feedAll codec (blockFeeds blocks)).maxOutput = d.maxOutput ∧
      ∃ text', (d.feedAll codec (blockFeeds blocks)).handed.flatten ++ text' =
          d.handed.flatten ++ text ∧
        Ahead codec Stream pending streams (d.feedAll codec (blockFeeds blocks)) more text' := by
  induction blocks generalizing d text with
  | nil => exact ⟨hbounded, rfl, text, rfl, hahead⟩
  | cons block blocks ih =>
    rw [List.flatten_cons, List.append_assoc] at hahead
    obtain ⟨-, haccepted, hrefused⟩ := follows_feed h hall hone hbounded hahead
    have hfed := (fedFrom_feed codec (fun _ => none) block false d).1
    have hnone : (d.feed codec (fun _ => none) block false).error = none := by
      cases herror : (d.feed codec (fun _ => none) block false).error with
      | none => rfl
      | some e => exact absurd (hrefused e herror).2 (Nat.not_lt.mpr hfits)
    obtain ⟨text', hflatten, hahead', -⟩ := haccepted hnone
    obtain ⟨hbounded', hmax, text'', hflatten', hlast⟩ := ih (hfed.bounded hbounded) (by
      rw [← List.length_append, hflatten, List.length_append, hfed.maxOutput]
      exact hfits) hahead'
    exact ⟨hbounded', hmax.trans hfed.maxOutput, text'', hflatten'.trans hflatten, hlast⟩

/-- A decoder for a coding whose library there is. -/
lemma Decoder.ofCodecs_create {codecs : ∀ kind, Option (Codec kind)} {encoding : Bytes}
    (hkind : decoderKind encoding = some kind) (hcodec : codecs kind = some codec) (limit : ℕ) :
    (Decoder.ofCodecs codecs).create encoding limit = none := by
  unfold Decoder.ofCodecs
  dsimp only
  rw [hkind]
  dsimp only
  rw [hcodec]
  rfl

/-- What such a decoder makes of its last call. -/
lemma Decoder.ofCodecs_feed {codecs : ∀ kind, Option (Codec kind)} {encoding : Bytes}
    (hkind : decoderKind encoding = some kind) (hcodec : codecs kind = some codec) (limit : ℕ)
    (blocks : List Bytes) (finish : Bool) :
    (Decoder.ofCodecs codecs).feed encoding limit blocks finish =
      ((lastFeed codec limit blocks finish).2.decoder.handed.drop
        (lastFeed codec limit blocks finish).1.handed.length,
        (lastFeed codec limit blocks finish).2.error) := by
  unfold Decoder.ofCodecs
  dsimp only
  rw [hkind]
  dsimp only
  rw [hcodec]

/-- The last call with a block. -/
lemma lastFeed_concat (codec : Codec kind) (limit : ℕ) (blocks : List Bytes) (block : Bytes) :
    lastFeed codec limit (blocks ++ [block]) false =
      (StreamingDecoder.feedAll codec (blockFeeds blocks) { maxOutput := limit },
        (StreamingDecoder.feedAll codec (blockFeeds blocks) { maxOutput := limit }).feed codec
          (fun _ => none) block false) := by
  rw [lastFeed]
  simp only [Bool.false_eq_true, if_false, List.dropLast_concat, List.getLast?_concat,
    Option.getD_some]

/-- The last call, which finishes. -/
lemma lastFeed_finish (codec : Codec kind) (limit : ℕ) (blocks : List Bytes) :
    lastFeed codec limit blocks true =
      (StreamingDecoder.feedAll codec (blockFeeds blocks) { maxOutput := limit },
        (StreamingDecoder.feedAll codec (blockFeeds blocks) { maxOutput := limit }).feed codec
          (fun _ => none) [] true) := by
  rw [lastFeed]
  simp only [if_true]

/-- A call that goes on with what is ahead succeeds if all the text is within the limit. -/
lemma error_feed_of_ahead (h : codec.Decodes Stream pending) (hall : ∀ m ∈ streams, Stream m.1 m.2)
    (hone : 1 < streams.length → kind.concatenates = true) {block : Bytes} {finish : Bool}
    (hbounded : d.Bounded) (hfits : d.handed.flatten.length + text.length ≤ d.maxOutput)
    (hahead : Ahead codec Stream pending streams d (block ++ more) text)
    (hlast : finish = true → block = [] ∧ more = []) :
    (d.feed codec (fun _ => none) block finish).error = none := by
  cases finish with
  | false =>
    cases herror : (d.feed codec (fun _ => none) block false).error with
    | none => rfl
    | some e =>
      exact absurd ((follows_feed h hall hone hbounded hahead).refused e herror).2
        (Nat.not_lt.mpr hfits)
  | true =>
    obtain ⟨rfl, rfl⟩ := hlast rfl
    have hdecoded := @decoded_decodeBody _ codec Stream pending streams d [] text h hall hone []
      hbounded hahead
    cases herror : (d.feed codec (fun _ => none) [] true).error with
    | none => rfl
    | some e =>
      rcases hdecoded.refused e herror with ⟨-, hlt⟩ | ⟨-, habsurd⟩
      · exact absurd hlt (Nat.not_lt.mpr hfits)
      · exact absurd rfl habsurd

/-- A `StreamingDecoder` over a library that decodes the streams makes their text of their code.
One stream, or several of them one behind the other where the format allows it, and together they
keep the limit. -/
theorem Decoder.ofCodecs_decodes {codecs : ∀ kind, Option (Codec kind)} {encoding : Bytes} {limit : ℕ}
    (hkind : decoderKind encoding = some kind) (hcodec : codecs kind = some codec)
    (h : codec.Decodes Stream pending) (hall : ∀ m ∈ streams, Stream m.1 m.2)
    (hone : 1 < streams.length → kind.concatenates = true) (hne : streams ≠ [])
    (hfits : (texts streams).length ≤ limit) :
    (Decoder.ofCodecs codecs).Decodes encoding limit
      (fun blocks => (StreamingDecoder.feedAll codec (blockFeeds blocks)
        { maxOutput := limit }).handed) (codes streams) (texts streams) := by
  have hnew := ahead_new h hall hne limit
  -- what is ahead behind some of the blocks, which are within the limit
  have hbefore : ∀ blocks more, blocks.flatten ++ more = codes streams →
      let d := StreamingDecoder.feedAll codec (blockFeeds blocks) { maxOutput := limit }
      d.Bounded ∧ d.maxOutput = limit ∧ ∃ text',
        d.handed.flatten.length + text'.length ≤ d.maxOutput ∧
        d.handed.flatten ++ text' = texts streams ∧
        Ahead codec Stream pending streams d more text' := by
    intro blocks more hsplit
    rw [← hsplit] at hnew
    obtain ⟨hbounded, hmax, text', hflatten, hahead⟩ := feedAll_of_ahead h hall hone blocks
      (bounded_new limit) (by rwa [List.flatten_nil, List.length_nil, Nat.zero_add]) hnew
    refine ⟨hbounded, hmax, text', ?_, hflatten, hahead⟩
    rw [← List.length_append, hflatten, hmax]
    exact hfits
  refine ⟨Decoder.ofCodecs_create hkind hcodec limit, rfl, fun blocks block hblock => ?_,
    fun blocks hblocks => ?_⟩
  · obtain ⟨more, hmore⟩ := hblock
    have hsplit : blocks.flatten ++ (block ++ more) = codes streams := by
      rw [← hmore, List.flatten_append, List.flatten_singleton, List.append_assoc]
    obtain ⟨hbounded, hmax, text', hroom, -, hahead⟩ := hbefore blocks (block ++ more) hsplit
    have hfed := (fedFrom_feed codec (fun _ => none) block false
      (StreamingDecoder.feedAll codec (blockFeeds blocks) { maxOutput := limit })).1
    obtain ⟨new, hhanded⟩ := hfed.handed
    have hbounded' := hfed.bounded hbounded
    have herror : ((StreamingDecoder.feedAll codec (blockFeeds blocks) { maxOutput := limit }).feed
        codec (fun _ => none) block false).error = none :=
      error_feed_of_ahead h hall hone hbounded hroom hahead (fun hf => nomatch hf)
    refine ⟨new, ?_, ?_, ?_⟩
    · rw [Decoder.ofCodecs_feed hkind hcodec, lastFeed_concat]
      dsimp only at hhanded ⊢
      rw [← hhanded, List.drop_left, herror]
    · rw [feedAll_concat]
      exact hhanded.symm
    · have htotal := hbounded'.total
      have hlimit := hbounded'.limit
      dsimp only at hhanded
      rw [← hhanded] at htotal
      rw [htotal]
      exact hlimit.trans (le_of_eq (hfed.maxOutput.trans hmax))
  · obtain ⟨hbounded, hmax, text', hroom, hflatten, hahead⟩ :=
      hbefore blocks [] (by rw [List.append_nil, hblocks])
    have hfed := (fedFrom_feed codec (fun _ => none) [] true
      (StreamingDecoder.feedAll codec (blockFeeds blocks) { maxOutput := limit })).1
    obtain ⟨new, hhanded⟩ := hfed.handed
    have herror : ((StreamingDecoder.feedAll codec (blockFeeds blocks) { maxOutput := limit }).feed
        codec (fun _ => none) [] true).error = none :=
      error_feed_of_ahead h hall hone hbounded hroom hahead (fun _ => ⟨rfl, rfl⟩)
    refine ⟨new, ?_, ?_, hfits⟩
    · rw [Decoder.ofCodecs_feed hkind hcodec, lastFeed_finish]
      dsimp only at hhanded ⊢
      rw [← hhanded, List.drop_left, herror]
    · obtain ⟨text'', hwhole, hlast', hfinished⟩ := (@decoded_decodeBody _ codec Stream pending
        streams _ [] text' h hall hone [] hbounded hahead).accepted herror
      rw [hlast'.text_eq_nil h hall hfinished, List.append_nil, hflatten] at hwhole
      dsimp only at hhanded
      rw [hhanded]
      exact hwhole

end OfCodecs

/-! ### Decoded blocks -/

section Decoded

variable {decoder : Decoder} {mode : DecodedMode} {options : HttpReadOptions} {encoding : Bytes}
  {out : List Bytes → List Bytes} {code text : Bytes} {d : Delivery}

/-- Without callbacks, a decoded block within the limit is appended. -/
lemma consumeDecoded_of_buffered (hbuf : options.Buffered) {data : Bytes}
    (hlimit : d.received + data.length ≤ options.maxBodySize) :
    ∃ d', consumeDecoded mode options d data = (none, d') ∧ d'.body = d.body ++ data ∧
      d'.received = d.received + data.length := by
  unfold consumeDecoded
  by_cases hempty : data.isEmpty = true
  · rw [if_pos hempty]
    rw [List.isEmpty_iff] at hempty
    subst hempty
    exact ⟨d, rfl, (List.append_nil _).symm, rfl⟩
  · rw [if_neg hempty, hbuf.interrupted]
    have hconsumed : ∃ d', consumeDecoded.consumed mode options d data = (none, d') ∧
        d'.body = d.body ++ data ∧ d'.received = d.received + data.length := by
      simp [consumeDecoded.consumed, consumeDecodedBlock, afterDecodedBlock, hbuf.onData,
        hbuf.onDataAsync, hbuf.onProgress, hbuf.expired]
    cases mode.limit with
    | none => exact hconsumed
    | some message =>
      dsimp only
      rw [if_neg (by omega)]
      exact hconsumed

/-- Without callbacks, decoded blocks within the limit are appended. -/
lemma consumeAll_of_buffered (hbuf : options.Buffered) {datas : List Bytes}
    (hlimit : d.received + datas.flatten.length ≤ options.maxBodySize) :
    ∃ d', consumeAll mode options datas none d = (none, d') ∧ d'.body = d.body ++ datas.flatten ∧
      d'.received = d.received + datas.flatten.length := by
  induction datas generalizing d with
  | nil => exact ⟨d, rfl, (List.append_nil _).symm, rfl⟩
  | cons data datas ih =>
    rw [List.flatten_cons, List.length_append] at hlimit
    obtain ⟨middle, hmiddle, hbody, hreceived⟩ :=
      @consumeDecoded_of_buffered mode options d hbuf data (by omega)
    obtain ⟨d', hd', hbody', hreceived'⟩ := @ih middle (by rw [hreceived]; omega)
    refine ⟨d', ?_, ?_, ?_⟩
    · rw [consumeAll, hmiddle]
      exact hd'
    · rw [hbody', hbody, List.flatten_cons, List.append_assoc]
    · rw [hreceived', hreceived, List.flatten_cons, List.length_append, Nat.add_assoc]

/-- One more block for the decoder. -/
lemma decodeBlocks_concat (decoder : Decoder) (mode : DecodedMode) (options : HttpReadOptions)
    (encoding : Bytes) (blocks : List Bytes) (block : Bytes) :
    decodeBlocks decoder mode options encoding (blocks ++ [block]) =
      consumeAll mode options
        (decoder.feed encoding options.maxBodySize (blocks ++ [block]) false).1
        (decoder.feed encoding options.maxBodySize (blocks ++ [block]) false).2
        (decodeBlocks decoder mode options encoding blocks).2 := by
  let feed (s : List Bytes × Option ErrorInfo × Delivery) (block : Bytes) :=
    let output := decoder.feed encoding options.maxBodySize (s.1 ++ [block]) false
    (s.1 ++ [block], consumeAll mode options output.1 output.2 s.2.2)
  have hfed : ∀ blocks : List Bytes, (blocks.foldl feed ([], none, {})).1 = blocks := by
    intro blocks
    induction blocks using List.reverseRecOn with
    | nil => rfl
    | append_singleton blocks block ih =>
      rw [List.foldl_append, List.foldl_cons, List.foldl_nil]
      exact congrArg (· ++ [block]) ih
  have hstep : (blocks ++ [block]).foldl feed ([], none, {}) =
      feed (blocks.foldl feed ([], none, {})) block := by
    rw [List.foldl_append, List.foldl_cons, List.foldl_nil]
  show ((blocks ++ [block]).foldl feed ([], none, {})).2 = _
  rw [hstep]
  dsimp only [feed]
  rw [hfed]
  rfl

/-- The blocks of a code are decoded. -/
lemma decodeBlocks_of_decodes (hbuf : options.Buffered)
    (h : decoder.Decodes encoding options.maxBodySize out code text) (blocks : List Bytes)
    (hblocks : blocks.flatten <+: code) :
    ∃ d, decodeBlocks decoder mode options encoding blocks = (none, d) ∧
      d.body = (out blocks).flatten ∧ d.received = (out blocks).flatten.length := by
  induction blocks using List.reverseRecOn with
  | nil => exact ⟨{}, rfl, by rw [h.start]; rfl, by rw [h.start]; rfl⟩
  | append_singleton blocks block ih =>
    have hbefore : blocks.flatten <+: code := by
      rw [List.flatten_append] at hblocks
      exact (List.prefix_append _ _).trans hblocks
    obtain ⟨d, hd, hbody, hreceived⟩ := ih hbefore
    obtain ⟨new, hfeed, hout, hlimit⟩ := h.block blocks block hblocks
    rw [List.flatten_append, List.length_append] at hlimit
    obtain ⟨d', hd', hbody', hreceived'⟩ :=
      @consumeAll_of_buffered mode options d hbuf new (by rw [hreceived]; exact hlimit)
    rw [decodeBlocks_concat, hfeed, hd, hout, List.flatten_append, List.length_append]
    exact ⟨d', hd', by rw [hbody', hbody], by rw [hreceived', hreceived]⟩

/-- The end of a code is the end of its text. -/
lemma decodeEnd_of_decodes (hbuf : options.Buffered)
    (h : decoder.Decodes encoding options.maxBodySize out code text) {blocks : List Bytes}
    (hblocks : blocks.flatten = code) :
    ∃ d, decodeEnd decoder mode options encoding blocks = (none, d) ∧ d.body = text := by
  obtain ⟨d, hd, hbody, hreceived⟩ :=
    @decodeBlocks_of_decodes decoder mode options encoding out code text hbuf h blocks
      (hblocks ▸ List.prefix_rfl)
  obtain ⟨new, hfeed, htext, hlimit⟩ := h.finish blocks hblocks
  rw [List.flatten_append] at htext
  obtain ⟨d', hd', hbody', -⟩ := @consumeAll_of_buffered mode options d hbuf new (by
    rw [hreceived, ← List.length_append, htext]
    exact hlimit)
  refine ⟨d', ?_, by rw [hbody', hbody, htext]⟩
  rw [decodeEnd, hfeed, hd]
  exact hd'

/-- Nothing stops a transfer whose blocks are decoded. -/
lemma not_stopped_decodedOptions (hbuf : options.Buffered)
    (h : decoder.Decodes encoding options.maxBodySize out code text) {blocks : List Bytes}
    (hblocks : blocks.flatten <+: code) :
    ¬ (decodedOptions decoder mode options encoding).Stopped blocks := by
  intro hstopped
  cases hstopped with
  | onData onData hdata _ => cases hdata
  | onDataAsync onDataAsync hasync reaction =>
    cases hasync
    obtain ⟨d, hd, -⟩ :=
      @decodeBlocks_of_decodes decoder mode options encoding out code text hbuf h blocks hblocks
    refine reaction ?_
    dsimp only
    rw [hd]
    rfl
  | onProgress onProgress total hprogress _ => cases hprogress
  | interrupted interruption hinterrupted =>
    cases (hbuf.interrupted blocks).symm.trans hinterrupted
  | expired hexpired => cases (hbuf.expired blocks).symm.trans hexpired

end Decoded

/-! ### Bodies that are accepted -/

section Accepted

variable {options : HttpReadOptions} {total : Option ℕ} {truncated : String}

/-- What keeps a block from being delivered is the limit or the options. -/
lemma deliver_fails {d d' : Delivery} {data : Bytes} {e : ErrorInfo}
    (h : deliver options total d data = (some e, d')) :
    options.maxBodySize < d.received + data.length ∨ options.Stopped d'.blocks := by
  unfold deliver at h
  by_cases hempty : data.isEmpty = true
  · rw [if_pos hempty] at h
    cases h
  · rw [if_neg hempty] at h
    split at h
    · rename_i interruption hinterrupted
      cases h
      exact .inr (.interrupted interruption hinterrupted)
    · split_ifs at h with hlimit
      · exact .inl (by omega)
      · split at h
        · rename_i hconsume
          cases h
          exact .inr (stopped_of_consumeBlock hconsume)
        · rename_i hconsume
          simp only [Prod.mk.injEq] at h
          obtain ⟨hafter, rfl⟩ := h
          exact .inr (stopped_of_afterBlock hafter)

/-- What keeps a payload from being read is the limit, the options or a connection that ends.  These
are the only three ways out, so a body that avoids them is read whole. -/
lemma readPayload_fails {s : PayloadState} {e : ErrorInfo} {input : Input} {d : Delivery}
    (h : readPayload options total truncated s = (some e, input, d)) :
    options.maxBodySize < s.delivery.received + s.remaining ∨ options.Stopped d.blocks ∨
      s.input.available.length < s.remaining := by
  let Post : PayloadState → Option ErrorInfo × Input × Delivery → Prop := fun s a =>
    ∀ e, a.1 = some e → options.maxBodySize < s.delivery.received + s.remaining ∨
      options.Stopped a.2.2.blocks ∨ s.input.available.length < s.remaining
  have hrun : Post s (readPayload options total truncated s) := by
    refine Loop.run_induct (payloadStep_decreases options total truncated) ?_ ?_ s
    · rintro s a hb e he
      unfold payloadStep at hb
      dsimp only at hb
      split_ifs at hb with hzero hempty
      · cases hb
        cases he
      · rw [List.isEmpty_iff] at hempty
        have hmissing : s.input.Settled → s.input.available.length < s.remaining := by
          intro hs
          rw [hs.available_eq, hempty, List.length_nil]
          omega
        split at hb
        · rename_i hread
          exact .inr (.inr (hmissing (Fragment.Source.settled_of_read hread (fun _ hdata => nomatch hdata))))
        · rename_i hread
          exact .inr (.inr (hmissing (Fragment.Source.settled_of_read hread (fun _ hdata => nomatch hdata))))
        · split_ifs at hb
          split at hb
          · rename_i hdeliver
            cases hb
            refine (deliver_fails hdeliver).imp (fun hlarge => ?_) .inl
            rw [List.length_take] at hlarge
            omega
          · cases hb
      · split at hb
        · rename_i hdeliver
          cases hb
          refine (deliver_fails hdeliver).imp (fun hlarge => ?_) .inl
          rw [List.length_take] at hlarge
          omega
        · cases hb
    · intro s s' a hb ih e he
      obtain ⟨data, hlen, hremaining, havail, hdel, -⟩ := payloadStep_again hb
      have hreceived := hdel.received
      refine (ih e he).imp (fun hlarge => by omega) (Or.imp_right fun hmissing => ?_)
      rw [havail, List.length_append]
      omega
  rw [h] at hrun
  exact hrun e rfl

/-- A body of known length that is there is read by options that do not stop it. -/
lemma readFixed_of_accepted {s : ChunkState} {data rest : Bytes} (hstart : s.delivery = {})
    (havail : s.input.available = data ++ rest) (hlimit : data.length ≤ options.maxBodySize)
    (haccepted : ∀ blocks, blocks.flatten <+: data → ¬ options.Stopped blocks) :
    ∃ body input d, readFixed options data.length s =
        { result := .ok body, headers := s.headers, input, delivery := d } ∧
      input.available = rest ∧ d.blocks.flatten = data := by
  have hhanded := readFixed_handed options data.length s
  rw [hstart, havail, List.take_left] at hhanded
  cases hresult : (readFixed options data.length s).result with
  | error e =>
    exfalso
    have hpart := hhanded.part_of_start.1
    unfold readFixed at hresult hpart
    rw [if_neg (Nat.not_lt.mpr hlimit)] at hresult hpart
    rcases hp : readPayload options (some data.length) "Truncated HTTP body"
      { remaining := data.length, input := s.input, delivery := s.delivery } with ⟨e?, input, d⟩
    rw [hp] at hresult hpart
    cases e? with
    | none => cases hresult
    | some e' =>
      rcases readPayload_fails hp with hlarge | hstopped | hmissing
      · rw [hstart, Nat.zero_add] at hlarge
        exact absurd hlarge (Nat.not_lt.mpr hlimit)
      · exact haccepted _ hpart hstopped
      · rw [havail, List.length_append] at hmissing
        exact absurd hmissing (Nat.not_lt.mpr (Nat.le_add_right _ _))
  | ok body =>
    obtain ⟨data', hlength, -, htook, hdel, -, hheaders⟩ := readFixed_sound hresult
    obtain ⟨rfl, hrest⟩ := List.append_inj (htook.available.symm.trans havail) hlength
    refine ⟨body, _, (readFixed options data'.length s).delivery, ?_, hrest, ?_⟩
    · rw [← hresult, ← hheaders]
    · rw [hdel.blocks, hstart]
      rfl

end Accepted

/-! ### Bodies that are decoded -/

section Bodies

variable {decoder : Decoder} {mode : DecodedMode} {options : HttpReadOptions} {encoding : Bytes}
  {out : List Bytes → List Bytes} {code text rest : Bytes} {head : ParsedHead} {input : Input}

/-- The code that a head announces goes through the decoder. -/
lemma readBody_decoded (hbuf : options.Buffered)
    (h : decoder.Decodes encoding options.maxBodySize out code text)
    (hchunked : head.chunked = false) (hlength : head.contentLength = some code.length)
    (hlimit : code.length ≤ options.maxBodySize) (havail : input.available = code ++ rest) :
    ∃ r body, readBody (decodedOptions decoder mode options encoding) head false false input = r ∧
      r.result = .ok body ∧ r.headers = head.headers ∧ r.input.available = rest ∧
      ∃ d, decodeEnd decoder mode options encoding r.delivery.blocks = (none, d) ∧ d.body = text := by
  obtain ⟨body, after, d, hread, hrest, hblocks⟩ :=
    @readFixed_of_accepted (decodedOptions decoder mode options encoding)
      { headers := head.headers, input, delivery := {} } code rest rfl havail hlimit
      fun blocks hblocks => not_stopped_decodedOptions hbuf h hblocks
  obtain ⟨d', hend, hbody⟩ :=
    @decodeEnd_of_decodes decoder mode options encoding out code text hbuf h _ hblocks
  refine ⟨_, body, rfl, ?_⟩
  unfold readBody
  dsimp only
  rw [if_neg Bool.false_ne_true, hchunked, if_neg Bool.false_ne_true, hlength]
  dsimp only
  rw [hread]
  exact ⟨rfl, rfl, hrest, d', hend, hbody⟩

/-- A response with a content coding is read as its text, with fields that describe it.  The coding
is taken out of `Content-Encoding`, and the length is that of the text. -/
theorem readResponseBody_decoded (hbuf : options.Buffered)
    (h : decoder.Decodes encoding options.maxBodySize out code text)
    (hcoding : contentCoding options head.headers = some encoding)
    (hchunked : head.chunked = false) (hlength : head.contentLength = some code.length)
    (hlimit : code.length ≤ options.maxBodySize) (havail : input.available = code ++ rest) :
    ∃ after, readResponseBody decoder options false head input =
        (.ok (text, decodedHeaders options head.headers text), after) ∧ after.available = rest := by
  obtain ⟨r, body, hr, hok, hheaders, hrest, d, hend, rfl⟩ :=
    @readBody_decoded decoder responseDecoded options encoding out code text rest head input hbuf h
      hchunked hlength hlimit havail
  refine ⟨r.input, ?_, hrest⟩
  unfold readResponseBody
  rw [hcoding]
  dsimp only
  rw [h.create]
  dsimp only
  rw [hr, hok]
  dsimp only
  rw [hend, hheaders]

end Bodies

end Chhttp
