import Chhttp.Protocol.Body

/-!
# Framing and size limit of delivered bodies

`payloadOf` reads the payload of a message off the bytes that arrive, in one pass: the data of the
chunks, the bytes that the `Content-Length` announces, or everything up to the end of the stream.
It knows nothing of reads, blocks and consumers.

`read_body` hands on a part of that payload from its front and never more than the limit, whatever
the reads, the blocks and the consumer (`readBody_delivers`).  It stops before the end of the
payload in three cases: the limit is exceeded, something in the options stops the transfer, or the
rest of the payload never arrives.  A payload above the limit therefore fails with
`body_too_large`, unless the options stop the transfer first.

The sizes are unsigned in the source.  `checkedSub` is a subtraction that fails where the unsigned
one would wrap, and the conditions of the limits evaluate with it (`exceedsLimit_eq`).
-/

namespace Chhttp

open ListSearch Fragment

/-! ### Payload -/

/-- The payload of a chunked message, as far as it is there: the data of its chunks. -/
def chunkedPayload (w : Bytes) : Bytes :=
  match find crlf w with
  | none => []
  | some n =>
    if maxSizeLine < n then []
    else
      match parseChunkSize (w.take n) with
      | .error _ => []
      | .ok size =>
        let rest := w.drop (n + 2)
        if size = 0 then []
        else if crlf.isPrefixOf (rest.drop size) then
          rest.take size ++ chunkedPayload (w.drop (n + 2 + size + 2))
        else rest.take size
termination_by w.length
decreasing_by
  rename_i hstarts
  have := (List.isPrefixOf_iff_prefix.mp hstarts).length_le
  simp only [crlf_length, List.length_drop, rest] at this
  rw [List.length_drop]
  omega

/-- The payload of a message, as far as it is there, behind a head in the bytes `w`.  It is defined
on the bytes alone, without a reader, so that the reader can be compared with it. -/
def payloadOf (head : ParsedHead) (bodyUntilEof noBody : Bool) (w : Bytes) : Bytes :=
  if noBody then []
  else if head.chunked then chunkedPayload w
  else
    match head.contentLength with
    | some total => w.take total
    | none => if bodyUntilEof then w else []

/-- A chunk with its line end: its data, and the payload behind it. -/
lemma chunkedPayload_chunk {line data : Bytes} (hline : SizeLine line data.length) (hne : data ≠ [])
    (rest : Bytes) :
    chunkedPayload (line ++ (crlf ++ (data ++ (crlf ++ rest)))) = data ++ chunkedPayload rest := by
  have hzero : data.length ≠ 0 := by simpa using hne
  have hdrop : (line ++ (crlf ++ (data ++ (crlf ++ rest)))).drop (line.length + 2) =
      data ++ (crlf ++ rest) := drop_line line _
  have hnext : (line ++ (crlf ++ (data ++ (crlf ++ rest)))).drop
      (line.length + 2 + data.length + 2) = rest := by
    rw [Nat.add_assoc (line.length + 2), ← List.drop_drop, hdrop]
    exact drop_line data rest
  have hstarts : crlf.isPrefixOf (crlf ++ rest) = true :=
    List.isPrefixOf_iff_prefix.mpr (List.prefix_append _ _)
  rw [chunkedPayload, find_crlf_of_lineText hline.lineText]
  dsimp only
  rw [if_neg (Nat.not_lt.mpr hline.length), List.take_left,
    (parseChunkSize_eq_ok hline.length).mpr hline]
  dsimp only
  rw [if_neg hzero, hdrop, List.drop_left, if_pos hstarts, List.take_left, hnext]

/-- A chunk without its line end: as much of its data as is there. -/
lemma chunkedPayload_cut {line rest : Bytes} {size : ℕ} (hline : SizeLine line size)
    (hend : ¬ crlf <+: rest.drop size) :
    chunkedPayload (line ++ (crlf ++ rest)) = rest.take size := by
  have hstarts : ¬ crlf.isPrefixOf (rest.drop size) = true :=
    fun h => hend (List.isPrefixOf_iff_prefix.mp h)
  rw [chunkedPayload, find_crlf_of_lineText hline.lineText]
  dsimp only
  rw [if_neg (Nat.not_lt.mpr hline.length), List.take_left,
    (parseChunkSize_eq_ok hline.length).mpr hline]
  dsimp only
  rw [drop_line, if_neg hstarts]
  split_ifs with hzero
  · rw [hzero, List.take_zero]
  · rfl

/-- Behind a size line stands as much of the data as is there, and possibly more payload. -/
lemma take_prefix_chunkedPayload {line rest : Bytes} {size : ℕ} (hline : SizeLine line size)
    (hzero : size ≠ 0) : rest.take size <+: chunkedPayload (line ++ (crlf ++ rest)) := by
  by_cases hend : crlf <+: rest.drop size
  · obtain ⟨tail, htail⟩ := hend
    have hlen : (rest.take size).length = size := by
      have := congrArg List.length htail
      rw [List.length_append, crlf_length, List.length_drop] at this
      rw [List.length_take]
      omega
    have hne : rest.take size ≠ [] := by
      intro h
      rw [h] at hlen
      exact hzero hlen.symm
    have hsplit : rest = rest.take size ++ (crlf ++ tail) := by
      rw [htail, List.take_append_drop]
    have hchunk := chunkedPayload_chunk (hlen.symm ▸ hline) hne tail
    rw [← hsplit] at hchunk
    rw [hchunk]
    exact List.prefix_append _ _
  · rw [chunkedPayload_cut hline hend]

/-- The last size line ends the payload. -/
lemma chunkedPayload_last {line : Bytes} (hline : SizeLine line 0) (rest : Bytes) :
    chunkedPayload (line ++ (crlf ++ rest)) = [] := by
  rw [chunkedPayload, find_crlf_of_lineText hline.lineText]
  dsimp only
  rw [if_neg (Nat.not_lt.mpr hline.length), List.take_left,
    (parseChunkSize_eq_ok hline.length).mpr hline]
  rfl

/-- Where there is payload there is a size line. -/
lemma exists_sizeLine_of_chunkedPayload {w : Bytes} (h : chunkedPayload w ≠ []) :
    ∃ line size rest, SizeLine line size ∧ w = line ++ (crlf ++ rest) := by
  rw [chunkedPayload] at h
  split at h
  · exact absurd rfl h
  · rename_i n hn
    split_ifs at h with hmax
    · exact absurd rfl h
    split at h
    · exact absurd rfl h
    · rename_i size hsize
      have hlen : (w.take n).length ≤ maxSizeLine := by
        rw [List.length_take]
        omega
      obtain ⟨rest, hrest⟩ := ((find_eq_some_iff).mp hn).2.1
      refine ⟨w.take n, size, rest, (parseChunkSize_eq_ok hlen).mp hsize, ?_⟩
      rw [hrest, List.take_append_drop]

/-! ### Blocks handed on -/

/-- Something in the options stops the transfer behind the blocks handed on: a callback does not
accept the last one, or a cancellation or the deadline strikes. -/
inductive HttpReadOptions.Stopped (options : HttpReadOptions) (blocks : List Bytes) : Prop where
  | onData (onData : List Bytes → Reaction) (h : options.onData = some onData)
      (reaction : onData blocks ≠ .accepted)
  | onDataAsync (onDataAsync : List Bytes → Reaction) (h : options.onDataAsync = some onDataAsync)
      (reaction : onDataAsync blocks ≠ .accepted)
  | onProgress (onProgress : List Bytes → Option ℕ → Reaction) (total : Option ℕ)
      (h : options.onProgress = some onProgress) (reaction : onProgress blocks total ≠ .accepted)
  | interrupted (interruption : Interruption) (h : options.interrupted blocks = some interruption)
  | expired (h : options.expired blocks = true)

/-- A reader was stopped by the limit or by the options. -/
def HttpReadOptions.Ended (options : HttpReadOptions) (e : ErrorInfo) (blocks : List Bytes) : Prop :=
  e.code = .bodyTooLarge ∨ options.Stopped blocks

/-- What a reader of `payload` leaves behind that returned with `e?`: it handed on a part of the
payload, and all of it unless it was stopped. -/
structure Handed (options : HttpReadOptions) (d : Delivery) (payload : Bytes)
    (e? : Option ErrorInfo) (d' : Delivery) : Prop where
  part : ∃ part, part <+: payload ∧ Delivered options d part d'
  whole : (∀ e, e? = some e → ¬ options.Ended e d'.blocks) → Delivered options d payload d'

/-- Where there is no payload nothing is handed on. -/
lemma Handed.refl (options : HttpReadOptions) (d : Delivery) (e? : Option ErrorInfo) :
    Handed options d [] e? d :=
  ⟨⟨[], List.prefix_rfl, Delivered.refl options d⟩, fun _ => Delivered.refl options d⟩

/-- Payload that was handed on stands before the rest. -/
lemma Handed.of_delivered {options : HttpReadOptions} {d d' d'' : Delivery} {u v : Bytes}
    {e? : Option ErrorInfo} (hu : Delivered options d u d') (hv : Handed options d' v e? d'') :
    Handed options d (u ++ v) e? d'' := by
  obtain ⟨⟨part, hpart, hdel⟩, hwhole⟩ := hv
  refine ⟨⟨u ++ part, ?_, hu.trans hdel⟩, fun h => hu.trans (hwhole h)⟩
  exact (List.prefix_append_right_inj u).mpr hpart

/-- A reader that was stopped has handed on a part of everything that starts with its payload. -/
lemma Handed.of_ended {options : HttpReadOptions} {d d' : Delivery} {u v : Bytes} {e : ErrorInfo}
    (h : Handed options d u (some e) d') (hended : options.Ended e d'.blocks) (huv : u <+: v) :
    Handed options d v (some e) d' := by
  obtain ⟨part, hpart, hdel⟩ := h.part
  exact ⟨⟨part, hpart.trans huv, hdel⟩, fun hnot => absurd hended (hnot e rfl)⟩

/-- A callback whose reaction is an error did not accept the block. -/
lemma Reaction.ne_accepted_of_error {rejection failure : String} {reaction : Reaction}
    {e : ErrorInfo} (h : reaction.error rejection failure = some e) : reaction ≠ .accepted := by
  rintro rfl
  cases h

/-- A consumer that ends the transfer did not accept the block. -/
lemma stopped_of_consumeBlock {options : HttpReadOptions} {d d' : Delivery} {data : Bytes}
    {e : ErrorInfo} (h : consumeBlock options d data = (some e, d')) :
    options.Stopped d'.blocks := by
  unfold consumeBlock at h
  split at h
  · rename_i onData hdata
    simp only [Prod.mk.injEq] at h
    obtain ⟨herror, rfl⟩ := h
    exact .onData onData hdata (Reaction.ne_accepted_of_error herror)
  · rename_i onDataAsync _ hasync
    simp only [Prod.mk.injEq] at h
    obtain ⟨herror, rfl⟩ := h
    exact .onDataAsync onDataAsync hasync (Reaction.ne_accepted_of_error herror)
  · cases h

/-- What ends the transfer behind a block is the progress callback or the deadline. -/
lemma stopped_of_afterBlock {options : HttpReadOptions} {d : Delivery} {total : Option ℕ}
    {e : ErrorInfo} (h : afterBlock options d total = some e) : options.Stopped d.blocks := by
  unfold afterBlock at h
  split at h
  · rename_i e' hprogress
    obtain ⟨onProgress, hsome, herror⟩ := Option.bind_eq_some_iff.mp hprogress
    exact .onProgress onProgress total hsome (Reaction.ne_accepted_of_error herror)
  · split_ifs at h with hexpired
    exact .expired hexpired

/-- A block is delivered, or the transfer is stopped.  It is stopped by the limit, by a consumer or
a callback on progress that refuses or throws, or by an interruption. -/
theorem deliver_handed {options : HttpReadOptions} {total : Option ℕ} {d d' : Delivery}
    {data : Bytes} {e? : Option ErrorInfo} (h : deliver options total d data = (e?, d')) :
    Handed options d data e? d' ∧ ∀ e, e? = some e → options.Ended e d'.blocks := by
  cases e? with
  | none =>
    have hdel := delivered_of_deliver h
    exact ⟨⟨⟨data, List.prefix_rfl, hdel⟩, fun _ => hdel⟩, by simp⟩
  | some e =>
    have hgoal : (∃ part, part <+: data ∧ Delivered options d part d') ∧
        options.Ended e d'.blocks := by
      have hnothing : ∃ part, part <+: data ∧ Delivered options d part d :=
        ⟨[], List.nil_prefix, Delivered.refl options d⟩
      unfold deliver at h
      by_cases hempty : data.isEmpty = true
      · rw [if_pos hempty] at h
        cases h
      · rw [if_neg hempty] at h
        split at h
        · rename_i interruption hinterrupted
          cases h
          exact ⟨hnothing, Or.inr (.interrupted interruption hinterrupted)⟩
        · split_ifs at h with hlimit
          · cases h
            exact ⟨hnothing, Or.inl rfl⟩
          · -- the block was handed on, and counts as delivered
            have hblock : ∀ {e' d''}, consumeBlock options { d with
                received := d.received + data.length, blocks := d.blocks ++ [data] } data =
                  (e', d'') → Delivered options d data d'' := by
              intro e' d'' hconsume
              obtain ⟨hreceived, hblocks, hbody⟩ := consumeBlock_eq hconsume
              refine ⟨hreceived, by rw [hblocks]; simp, hbody, ?_⟩
              intro _
              rw [hreceived]
              simp only
              omega
            split at h
            · rename_i e' d'' hconsume
              cases h
              exact ⟨⟨data, List.prefix_rfl, hblock hconsume⟩,
                Or.inr (stopped_of_consumeBlock hconsume)⟩
            · rename_i d'' hconsume
              simp only [Prod.mk.injEq] at h
              obtain ⟨hafter, rfl⟩ := h
              exact ⟨⟨data, List.prefix_rfl, hblock hconsume⟩,
                Or.inr (stopped_of_afterBlock hafter)⟩
    refine ⟨⟨hgoal.1, fun hnot => absurd hgoal.2 (hnot e rfl)⟩, ?_⟩
    intro e' he
    cases he
    exact hgoal.2

/-! ### The loop over a known number of bytes -/

/-- The outcome of the loop over `remaining` bytes: what there is of them was handed on, and an
error means that the transfer was stopped or that some of them are missing. -/
structure PayloadHanded (options : HttpReadOptions) (s : PayloadState) (e? : Option ErrorInfo)
    (d : Delivery) : Prop where
  handed : Handed options s.delivery (s.input.available.take s.remaining) e? d
  failed : ∀ e, e? = some e → options.Ended e d.blocks ∨ s.input.available.length < s.remaining

/-- The first bytes of a block are among the first bytes of what starts with the block. -/
lemma prefix_take_min (n : ℕ) (u v : Bytes) : u.take (min n u.length) <+: (u ++ v).take n := by
  rw [← List.take_take, List.take_length, List.take_append]
  exact List.prefix_append _ _

/-- An iteration that leaves the loop.  An error is that of the limit or of the consumer, or the
connection has ended too early. -/
lemma payloadStep_leave {options : HttpReadOptions} {total : Option ℕ} {truncated : String}
    {s : PayloadState} {e? : Option ErrorInfo} {input : Input} {d : Delivery}
    (h : payloadStep options total truncated s = .leave (e?, input, d)) :
    PayloadHanded options s e? d := by
  -- a block that was not delivered stands at the front of the payload
  have hblock : ∀ {u : Bytes} {e : ErrorInfo} {d' : Delivery},
      u <+: s.input.available.take s.remaining → deliver options total s.delivery u = (some e, d') →
        PayloadHanded options s (some e) d' := by
    intro u e d' hu hdeliver
    obtain ⟨hhanded, hended⟩ := deliver_handed hdeliver
    refine ⟨hhanded.of_ended (hended e rfl) hu, ?_⟩
    intro e' he
    cases he
    exact Or.inl (hended e rfl)
  unfold payloadStep at h
  dsimp only at h
  split_ifs at h with hzero hempty
  · cases h
    refine ⟨?_, by simp⟩
    rw [hzero, List.take_zero]
    exact Handed.refl _ _ _
  · rw [List.isEmpty_iff] at hempty
    -- nothing is there when a read returns no bytes
    have hmissing : ∀ {event : Event UInt8 ErrorInfo} {rest : Input} {e : ErrorInfo},
        s.input.read = (event, rest) → (∀ xs, event ≠ .data xs) →
          PayloadHanded options s (some e) s.delivery := by
      intro event rest e hread hnodata
      have havail := (Source.settled_of_read hread hnodata).available_eq
      rw [hempty] at havail
      refine ⟨?_, ?_⟩
      · rw [havail, List.take_nil]
        exact Handed.refl _ _ _
      · intro _ _
        rw [havail, List.length_nil]
        exact Or.inr (Nat.pos_of_ne_zero hzero)
    split at h
    · rename_i hread
      cases h
      exact hmissing hread (by simp)
    · rename_i hread
      cases h
      exact hmissing hread (by simp)
    · rename_i received rest hread
      split_ifs at h with hreceived
      split at h
      · rename_i e' d' hdeliver
        have hbuffer : rest.buffer = [] := (Source.reads_read hread).1.trans hempty
        have havail := Source.available_read hread
        rw [Source.available, Source.append_buffer, hbuffer, List.nil_append] at havail
        cases h
        refine hblock ?_ hdeliver
        rw [← havail]
        exact prefix_take_min s.remaining received _
      · cases h
  · split at h
    · rename_i e' d' hdeliver
      cases h
      exact hblock (prefix_take_min s.remaining s.input.buffer _) hdeliver
    · cases h

/-- The loop over a known number of bytes hands on what there is of them, or is stopped.  If it
fails and was not stopped, then the transport had less to give than the loop needed. -/
theorem readPayload_handed {options : HttpReadOptions} {total : Option ℕ} {truncated : String}
    {s : PayloadState} {e? : Option ErrorInfo} {input : Input} {d : Delivery}
    (h : readPayload options total truncated s = (e?, input, d)) : PayloadHanded options s e? d := by
  let Post : PayloadState → Option ErrorInfo × Input × Delivery → Prop := fun s a =>
    PayloadHanded options s a.1 a.2.2
  have hrun : Post s (readPayload options total truncated s) := by
    refine Loop.run_induct (payloadStep_decreases options total truncated) ?_ ?_ s
    · rintro s ⟨e?, input, d⟩ hb
      exact payloadStep_leave hb
    · intro s s' a hb ih
      obtain ⟨data, hlen, hremaining, havail, hdel, -⟩ := payloadStep_again hb
      refine ⟨?_, ?_⟩
      · rw [havail, List.take_append, List.take_of_length_le hlen, ← hremaining]
        exact Handed.of_delivered hdel ih.handed
      · intro e he
        rcases ih.failed e he with hended | hmissing
        · exact Or.inl hended
        · rw [havail, List.length_append]
          exact Or.inr (by omega)
  rw [h] at hrun
  exact hrun

/-! ### The framings -/

/-- The error of a body reader, if it is one. -/
def BodyRead.error? (r : BodyRead) : Option ErrorInfo :=
  match r.result with
  | .ok _ => none
  | .error e => some e

/-- A body of known length: the bytes it announces, as far as they are there. -/
theorem readFixed_handed (options : HttpReadOptions) (total : ℕ) (s : ChunkState) :
    Handed options s.delivery (s.input.available.take total) (readFixed options total s).error?
      (readFixed options total s).delivery := by
  unfold readFixed
  split_ifs with hmax
  · have hnothing : Handed options s.delivery []
        (some { code := .bodyTooLarge, message := "HTTP body exceeds configured limit" })
        s.delivery := Handed.refl _ _ _
    exact hnothing.of_ended (Or.inl rfl) List.nil_prefix
  · rcases hp : readPayload options (some total) "Truncated HTTP body"
        { remaining := total, input := s.input, delivery := s.delivery } with ⟨e?, input, d⟩
    have hpayload := (readPayload_handed hp).handed
    cases e? <;> exact hpayload

/-- An iteration of the loop up to the end of the connection that asks for another one. -/
lemma untilEofStep_again {options : HttpReadOptions} {s s' : ChunkState}
    (hempty : s.input.buffer = []) (h : untilEofStep options s = .again s') :
    s'.input.buffer = [] ∧ ∃ data, s.input.available = data ++ s'.input.available ∧
      Delivered options s.delivery data s'.delivery := by
  unfold untilEofStep at h
  split at h
  · cases h
  · cases h
  · rename_i received rest hread
    have hbuffer : rest.buffer = [] := (Source.reads_read hread).1.trans hempty
    split at h
    · cases h
    · rename_i d' hdeliver
      cases h
      refine ⟨hbuffer, received, ?_, delivered_of_deliver hdeliver⟩
      rw [← Source.available_read hread, Source.available, Source.available, Source.append_buffer,
        hbuffer]
      rfl

/-- An iteration that leaves the loop up to the end of the connection. -/
lemma untilEofStep_leave {options : HttpReadOptions} {s : ChunkState} {r : BodyRead}
    (hempty : s.input.buffer = []) (h : untilEofStep options s = .leave r) :
    Handed options s.delivery s.input.available r.error? r.delivery := by
  unfold untilEofStep at h
  split at h
  · rename_i e rest hread
    cases h
    rw [(Source.settled_of_read hread (by simp)).available_eq, hempty]
    exact Handed.refl _ _ _
  · rename_i rest hread
    cases h
    rw [(Source.settled_of_read hread (by simp)).available_eq, hempty]
    exact Handed.refl _ _ _
  · rename_i received rest hread
    have hbuffer : rest.buffer = [] := (Source.reads_read hread).1.trans hempty
    have havail := Source.available_read hread
    rw [Source.available, Source.append_buffer, hbuffer, List.nil_append] at havail
    split at h
    · rename_i e d' hdeliver
      cases h
      obtain ⟨hhanded, hended⟩ := deliver_handed hdeliver
      rw [← havail]
      exact hhanded.of_ended (hended e rfl) (List.prefix_append _ _)
    · cases h

/-- A body up to the end of the connection: everything that arrives.  The length is not known before
the end, so the limit is tested block by block. -/
theorem readUntilEof_handed (options : HttpReadOptions) (s : ChunkState) :
    Handed options s.delivery s.input.available (readUntilEof options s).error?
      (readUntilEof options s).delivery := by
  let Post : ChunkState → BodyRead → Prop := fun s r =>
    s.input.buffer = [] → Handed options s.delivery s.input.available r.error? r.delivery
  have hrun : ∀ s, Post s (Loop.run (untilEofStep options) (fun s => s.input.reads.length)
      (untilEofStep_decreases options) s) := by
    refine Loop.run_induct (untilEofStep_decreases options) ?_ ?_
    · intro s r hb hempty
      exact untilEofStep_leave hempty hb
    · intro s s' r hb ih hempty
      obtain ⟨hempty', data, havail, hdel⟩ := untilEofStep_again hempty hb
      rw [havail]
      exact Handed.of_delivered hdel (ih hempty')
  have havail := s.input.available_consume s.input.buffer.length
  rw [List.take_length] at havail
  unfold readUntilEof
  split
  · rename_i e d' hdeliver
    obtain ⟨hhanded, hended⟩ := deliver_handed hdeliver
    rw [havail]
    exact hhanded.of_ended (hended e rfl) (List.prefix_append _ _)
  · rename_i d' hdeliver
    rw [havail]
    exact Handed.of_delivered (delivered_of_deliver hdeliver)
      (hrun { s with input := s.input.consume s.input.buffer.length, delivery := d' } (by simp))

/-- An iteration that leaves the loop over the chunks.  What was handed on is a part of the payload,
and all of it unless the limit or the consumer stopped it. -/
lemma chunkStep_leave {options : HttpReadOptions} {s : ChunkState} {r : BodyRead}
    (h : chunkStep options s = .leave r) :
    Handed options s.delivery (chunkedPayload s.input.available) r.error? r.delivery := by
  unfold chunkStep at h
  split at h
  · -- no size line can be read, so there is none
    rename_i e after hsize
    cases h
    have hnone : chunkedPayload s.input.available = [] := by
      by_contra hne
      obtain ⟨line, size, rest, hline, havail⟩ := exists_sizeLine_of_chunkedPayload hne
      obtain ⟨after', hread, -⟩ := readChunkSize_complete havail hline
      rw [hsize] at hread
      cases hread
    rw [hnone]
    exact Handed.refl _ _ _
  · rename_i size after hsize
    obtain ⟨line, hline, htook⟩ := readChunkSize_sound hsize
    have havail : s.input.available = line ++ (crlf ++ after.available) := by
      rw [htook.available, List.append_assoc]
    split_ifs at h with hzero hlimit
    · subst hzero
      rw [havail, chunkedPayload_last hline]
      split at h <;> cases h <;> exact Handed.refl _ _ _
    · cases h
      have hnothing : Handed options s.delivery []
          (some { code := .bodyTooLarge, message := "Chunked HTTP body exceeds configured limit" })
          s.delivery := Handed.refl _ _ _
      exact hnothing.of_ended (Or.inl rfl) List.nil_prefix
    · split at h
      · rename_i e input d hpayload
        cases h
        obtain ⟨hhanded, hfailed⟩ := readPayload_handed hpayload
        rw [havail]
        rcases hfailed e rfl with hended | hmissing
        · exact hhanded.of_ended hended (take_prefix_chunkedPayload hline hzero)
        · rw [chunkedPayload_cut hline]
          · exact hhanded
          · rw [List.drop_of_length_le hmissing.le]
            exact fun hstarts => absurd hstarts.length_le (by simp)
      · rename_i input d hpayload
        obtain ⟨data, hlen, htook', hdel⟩ := readPayload_sound hpayload
        simp only at hlen htook' hdel
        split at h
        · rename_i e input' hend
          cases h
          have hnoend : ¬ crlf <+: input.available := by
            rintro ⟨rest, hrest⟩
            obtain ⟨after', hread, -⟩ := readChunkEnd_complete hrest.symm
            rw [hend] at hread
            cases hread
          rw [havail, htook'.available, chunkedPayload_cut hline]
          · rw [← hlen, List.take_left]
            exact ⟨⟨data, List.prefix_rfl, hdel⟩, fun _ => hdel⟩
          · rw [← hlen, List.drop_left]
            exact hnoend
        · cases h

/-- A chunked body: the data of its chunks.  The size lines, the line ends and the trailers are not
part of it, and they do not count against the limit of the body. -/
theorem readChunked_handed (options : HttpReadOptions) (s : ChunkState) :
    Handed options s.delivery (chunkedPayload s.input.available) (readChunked options s).error?
      (readChunked options s).delivery := by
  let Post : ChunkState → BodyRead → Prop := fun s r =>
    Handed options s.delivery (chunkedPayload s.input.available) r.error? r.delivery
  refine Loop.run_induct (P := Post) (chunkStep_decreases options) ?_ ?_ s
  · intro s r hb
    exact chunkStep_leave hb
  · intro s s' r hb ih
    obtain ⟨line, data, hline, hne, -, htook, hdel, -⟩ := chunkStep_again hb
    have havail : s.input.available =
        line ++ (crlf ++ (data ++ (crlf ++ s'.input.available))) := by
      rw [htook.available]
      simp
    simp only [Post] at ih ⊢
    rw [havail, chunkedPayload_chunk hline hne]
    exact Handed.of_delivered hdel ih

/-- `read_body` hands on the payload, as far as it is not stopped.  The three framings are brought
together here; with `no_body` the payload is empty. -/
theorem readBody_handed (options : HttpReadOptions) (head : ParsedHead) (bodyUntilEof noBody : Bool)
    (input : Input) :
    Handed options {} (payloadOf head bodyUntilEof noBody input.available)
      (readBody options head bodyUntilEof noBody input).error?
      (readBody options head bodyUntilEof noBody input).delivery := by
  let s : ChunkState := { headers := head.headers, input, delivery := {} }
  unfold readBody payloadOf
  dsimp only
  split_ifs with hno hchunked
  · exact Handed.refl _ _ _
  · exact readChunked_handed options s
  · cases head.contentLength with
    | some total => exact readFixed_handed options total s
    | none => exact readUntilEof_handed options s
  · cases head.contentLength with
    | some total => exact readFixed_handed options total s
    | none => exact Handed.refl _ _ _

/-- What a body up to the end of the connection returns is what was appended. -/
lemma readUntilEof_result {options : HttpReadOptions} {s : ChunkState} {body : Bytes}
    (h : (readUntilEof options s).result = .ok body) :
    body = (readUntilEof options s).delivery.body := by
  have hrun : ∀ s, ∀ body, (Loop.run (untilEofStep options) (fun s => s.input.reads.length)
      (untilEofStep_decreases options) s).result = .ok body →
        body = (Loop.run (untilEofStep options) (fun s => s.input.reads.length)
          (untilEofStep_decreases options) s).delivery.body := by
    refine Loop.run_induct (P := fun _ r => ∀ body, r.result = .ok body → body = r.delivery.body)
      (untilEofStep_decreases options) ?_ ?_
    · intro s r hb body hr
      unfold untilEofStep at hb
      split at hb
      · cases hb
        cases hr
      · cases hb
        cases hr
        rfl
      · split at hb <;> cases hb
        cases hr
    · intro s s' r _ ih body hr
      exact ih body hr
  unfold readUntilEof at h ⊢
  split at h
  · cases h
  · exact hrun _ body h

/-- What `read_body` returns is what was appended. -/
lemma readBody_result {options : HttpReadOptions} {head : ParsedHead} {bodyUntilEof noBody : Bool}
    {input : Input} {body : Bytes}
    (h : (readBody options head bodyUntilEof noBody input).result = .ok body) :
    body = (readBody options head bodyUntilEof noBody input).delivery.body := by
  unfold readBody at h ⊢
  dsimp only at h ⊢
  split_ifs at h ⊢ with hno hchunked
  · cases h
    rfl
  · obtain ⟨frame, fields, htaken⟩ := readChunked_sound h
    rw [htaken.result] at h
    cases h
    rfl
  · cases hlength : head.contentLength with
    | some total =>
      simp only [hlength] at h
      obtain ⟨-, -, -, -, -, hbody, -⟩ := readFixed_sound h
      exact hbody
    | none =>
      simp only [hlength] at h
      exact readUntilEof_result h
  · cases hlength : head.contentLength with
    | some total =>
      simp only [hlength] at h
      obtain ⟨-, -, -, -, -, hbody, -⟩ := readFixed_sound h
      exact hbody
    | none =>
      simp only [hlength] at h
      cases h
      rfl

/-! ### Unsigned sizes -/

/-- `size > limit || received > limit - size`, the check before a block or a chunk.  The second part
is only evaluated when the subtraction does not wrap. -/
def exceedsLimit (limit size received : ℕ) : Option Bool :=
  if limit < size then some true
  else (checkedSub limit size).map fun room => decide (room < received)

/-- The check of a trailer line of the given size, behind `trailerBytes` bytes of trailers.  The two
bytes are the line end, which the size does not include. -/
def trailersExceedLimit (limit size trailerBytes : ℕ) : Option Bool :=
  if limit < size then some true
  else
    (checkedSub limit size).bind fun room =>
      if room < trailerBytes then some true
      else
        (checkedSub limit trailerBytes).bind fun left =>
          (checkedSub left size).map fun left => decide (left < 2)

/-- The check before a block or a chunk does not wrap, and is the condition of `deliver` and of
`chunkStep`. -/
lemma exceedsLimit_eq (limit size received : ℕ) :
    exceedsLimit limit size received =
      some (decide (limit < size ∨ limit - size < received)) := by
  unfold exceedsLimit checkedSub
  by_cases hsize : limit < size
  · simp [hsize]
  · simp [hsize, Nat.le_of_not_lt hsize]

/-- The check of a trailer line does not wrap, and is the condition of `trailerStep`. -/
lemma trailersExceedLimit_eq (limit size trailerBytes : ℕ) :
    trailersExceedLimit limit size trailerBytes =
      some (decide (limit < size ∨ limit - size < trailerBytes ∨
        limit - trailerBytes - size < 2)) := by
  unfold trailersExceedLimit checkedSub
  by_cases hsize : limit < size
  · simp [hsize]
  · by_cases hroom : limit - size < trailerBytes
    · simp [hsize, Nat.le_of_not_lt hsize, hroom]
    · have h1 : trailerBytes ≤ limit := by omega
      have h2 : size ≤ limit - trailerBytes := by omega
      simp [hsize, Nat.le_of_not_lt hsize, hroom, h1, h2]

/-! ### The limit -/

section

variable {options : HttpReadOptions} {payload : Bytes} {e? : Option ErrorInfo} {d : Delivery}

/-- What was handed on from the beginning is a part of the payload, within the limit. -/
lemma Handed.part_of_start (h : Handed options {} payload e? d) :
    d.blocks.flatten <+: payload ∧ d.received = d.blocks.flatten.length ∧
      d.received ≤ options.maxBodySize := by
  obtain ⟨part, hpart, hdel⟩ := h.part
  have hblocks : d.blocks.flatten = part := by simpa using hdel.blocks
  have hreceived : d.received = part.length := by simpa using hdel.received
  exact ⟨hblocks ▸ hpart, by rw [hreceived, hblocks], hdel.limit (Nat.zero_le _)⟩

/-- The limit holds for a payload that was handed on as a whole. -/
lemma Handed.length_le (h : Handed options {} payload e? d)
    (hon : ∀ e, e? = some e → ¬ options.Ended e d.blocks) :
    payload.length ≤ options.maxBodySize := by
  have hwhole := (h.whole hon).received
  have hlimit := h.part_of_start.2.2
  simp only at hwhole
  omega

/-- A payload above the limit is not handed on as a whole, and if nothing else stopped the reader
the limit did. -/
lemma Handed.too_large (h : Handed options {} payload e? d)
    (hlong : options.maxBodySize < payload.length) :
    ∃ e, e? = some e ∧ (¬ options.Stopped d.blocks → e.code = .bodyTooLarge) := by
  cases e? with
  | none => exact absurd (h.length_le nofun) (Nat.not_le.mpr hlong)
  | some e =>
    refine ⟨e, rfl, fun hnot => ?_⟩
    by_contra hcode
    refine absurd (h.length_le ?_) (Nat.not_le.mpr hlong)
    intro e' he'
    cases he'
    exact not_or.mpr ⟨hcode, hnot⟩

/-- A reader that returned `e?` as its error failed with it. -/
lemma BodyRead.error?_eq_some {r : BodyRead} {e : ErrorInfo} :
    r.error? = some e ↔ r.result = .error e := by
  unfold BodyRead.error?
  cases r.result <;> simp

end

/-- A body of known length that was read is exactly the next bytes. -/
lemma readFixed_drop {options : HttpReadOptions} {total : ℕ} {s : ChunkState} {body : Bytes}
    (h : (readFixed options total s).result = .ok body) :
    total ≤ s.input.available.length ∧
      (readFixed options total s).input.available = s.input.available.drop total := by
  obtain ⟨data, hlen, -, htook, -, -, -⟩ := readFixed_sound h
  rw [htook.available]
  refine ⟨?_, ?_⟩
  · rw [List.length_append]
    omega
  · rw [← hlen, List.drop_left]

/-- Delivery respects framing and limit, for all bytes, reads, framings and consumers.  What is
delivered is a part of the payload from its front, within the limit, and all of it on success.  A
payload above the limit fails, with `body_too_large` unless the options stop the transfer before;
a length above the limit always fails with `body_too_large`.  A body of known length that was read
is exactly the next bytes, and the others are left.  No subtraction of a limit or of the remaining
length wraps. -/
theorem readBody_delivers (options : HttpReadOptions) (head : ParsedHead)
    (bodyUntilEof noBody : Bool) (input : Input) :
    let r := readBody options head bodyUntilEof noBody input
    let payload := payloadOf head bodyUntilEof noBody input.available
    (r.delivery.blocks.flatten <+: payload ∧
      r.delivery.received = r.delivery.blocks.flatten.length ∧
      r.delivery.received ≤ options.maxBodySize) ∧
    (∀ body, r.result = .ok body → r.delivery.blocks.flatten = payload ∧
      (options.onData = none → options.onDataAsync = none → body = payload)) ∧
    (options.maxBodySize < payload.length → ∃ e, r.result = .error e ∧
      (¬ options.Stopped r.delivery.blocks → e.code = .bodyTooLarge)) ∧
    (∀ total, noBody = false → head.chunked = false → head.contentLength = some total →
      (options.maxBodySize < total → ∃ e, r.result = .error e ∧ e.code = .bodyTooLarge) ∧
      ∀ body, r.result = .ok body → total ≤ input.available.length ∧
        r.delivery.blocks.flatten = input.available.take total ∧
        r.input.available = input.available.drop total) ∧
    (∀ size received, exceedsLimit options.maxBodySize size received =
      some (decide (options.maxBodySize < size ∨ options.maxBodySize - size < received))) ∧
    (∀ size trailerBytes, trailersExceedLimit options.maxHeaderSize size trailerBytes =
      some (decide (options.maxHeaderSize < size ∨
        options.maxHeaderSize - size < trailerBytes ∨
        options.maxHeaderSize - trailerBytes - size < 2))) ∧
    ∀ remaining count, checkedSub remaining (min remaining count) =
      some (remaining - min remaining count) := by
  intro r payload
  have hhanded : Handed options {} payload r.error? r.delivery :=
    readBody_handed options head bodyUntilEof noBody input
  -- a body that was read whole was handed on whole; the parts follow from this or from the limit
  have hsuccess : ∀ body, r.result = .ok body → Delivered options {} payload r.delivery := by
    intro body hok
    refine hhanded.whole fun e he => ?_
    rw [BodyRead.error?_eq_some, hok] at he
    cases he
  refine ⟨hhanded.part_of_start, ?_, ?_, ?_, exceedsLimit_eq _, trailersExceedLimit_eq _, ?_⟩
  · intro body hok
    refine ⟨by simpa using (hsuccess body hok).blocks, ?_⟩
    intro hdata hasync
    rw [readBody_result hok]
    simpa using (hsuccess body hok).body hdata hasync
  · intro hlong
    obtain ⟨e, he, hcode⟩ := hhanded.too_large hlong
    exact ⟨e, BodyRead.error?_eq_some.mp he, hcode⟩
  · intro total hbody hchunked hlength
    have hr : r = readFixed options total { headers := head.headers, input, delivery := {} } := by
      simp [r, readBody, hbody, hchunked, hlength]
    have hpayload : payload = input.available.take total := by
      simp [payload, payloadOf, hbody, hchunked, hlength]
    constructor
    · intro hlong
      rw [hr, readFixed, if_pos hlong]
      exact ⟨_, rfl, rfl⟩
    · intro body hok
      have hdelivered : r.delivery.blocks.flatten = input.available.take total := by
        rw [← hpayload]
        simpa using (hsuccess body hok).blocks
      obtain ⟨hlong, hdrop⟩ := readFixed_drop (hr ▸ hok)
      exact ⟨hlong, hdelivered, hr ▸ hdrop⟩
  · intro remaining count
    rw [checkedSub, if_pos (min_le_left _ _)]

/-- A consumer that refuses every block. -/
def refusingOptions : HttpReadOptions := { maxBodySize := 2, onData := some fun _ => .rejected }

/-- A payload above the limit fails with `cancelled` when the consumer refuses the first block.  Its
error is that of the consumer, for the limit is only met later. -/
theorem readBody_limit_refused :
    ¬ ∀ (options : HttpReadOptions) (head : ParsedHead) (bodyUntilEof noBody : Bool)
        (input : Input),
      options.maxBodySize < (payloadOf head bodyUntilEof noBody input.available).length →
        ∃ e, (readBody options head bodyUntilEof noBody input).result = .error e ∧
          e.code = .bodyTooLarge := by
  intro h
  let input : Input := { buffer := bytes "ab", reads := [.data (bytes "c"), .eof] }
  obtain ⟨e, herror, hcode⟩ := h refusingOptions { startLine := [] } true false input (by decide)
  have hcancelled : (readBody refusingOptions { startLine := [] } true false input).result =
      .error { code := .cancelled, message := "HTTP body callback cancelled the transfer" } := rfl
  rw [hcancelled] at herror
  cases herror
  cases hcode

end Chhttp
