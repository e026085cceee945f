import Chhttp.Protocol.Chunked
import Chhttp.Protocol.Write

/-!
# What a reliable transport receives

On a transport that takes every byte, a request that is written successfully arrives as its head
followed by its body: the body itself, or chunks of at most 64 KiB and the last chunk
(`written_of_writeRequest`).  A response arrives as its head and, unless its method or status
forbids it, its body (`written_of_writeResponse`).

The body of a streamed request is `Producer.data`, what its producer writes as long as every
operation succeeds.
-/

namespace Chhttp

/-- What a producer writes when every operation reports success. -/
def Producer.data : Producer → Bytes
  | .finished => []
  | .threw _ => []
  | .write data next => data ++ (next true).data
  | .flush next => (next true).data
  | .isOpen next => (next true).data

/-- The body of a request, buffered or streamed.  What a producer writes depends on the answers of
its sink; this is what it writes if all of them are good. -/
def sentBody (request : Request) : Bytes :=
  match request.bodyStream with
  | some producer => producer.data
  | none => request.body

/-- The bytes that carry `data` in the framing of the sink. -/
def SentAs (chunked : Bool) (data word : Bytes) : Prop :=
  if chunked then ∃ pieces, Pieces data pieces ∧ word = pieces.flatMap makeChunkFrame
  else word = data

/-- Nothing is sent as nothing. -/
lemma sentAs_nil (chunked : Bool) : SentAs chunked [] [] := by
  cases chunked with
  | false => rfl
  | true => exact ⟨[], ⟨rfl, by simp⟩, rfl⟩

/-- Words are sent one after the other. -/
lemma SentAs.append {chunked : Bool} {data data' word word' : Bytes} (h : SentAs chunked data word)
    (h' : SentAs chunked data' word') : SentAs chunked (data ++ data') (word ++ word') := by
  cases chunked with
  | false =>
    simp only [SentAs, Bool.false_eq_true, if_false] at h h' ⊢
    rw [h, h']
  | true =>
    obtain ⟨pieces, hpieces, rfl⟩ := h
    obtain ⟨pieces', hpieces', rfl⟩ := h'
    refine ⟨pieces ++ pieces', ⟨?_, ?_⟩, by rw [List.flatMap_append]⟩
    · rw [List.flatten_append, hpieces.flatten, hpieces'.flatten]
    · intro p hp
      rcases List.mem_append.mp hp with hp | hp
      · exact hpieces.piece p hp
      · exact hpieces'.piece p hp

/-- A reliable transport receives a chunk. -/
lemma writeChunk_reliable {output : Output} (h : output.Reliable) {data : Bytes} (hne : data ≠ []) :
    ∃ output' word, writeChunk data output = (none, output') ∧ output'.Reliable ∧
      SentAs true data word ∧ output'.bytes = output.bytes ++ word := by
  unfold writeChunk
  by_cases hshort : (!data.isEmpty && decide (data.length ≤ blockSize)) = true
  · obtain ⟨hnone, hreliable, hbytes⟩ := h.write (makeChunkFrame data)
    rw [if_pos hshort]
    simp only [Bool.and_eq_true, decide_eq_true_eq] at hshort
    refine ⟨_, makeChunkFrame data, Prod.ext hnone rfl, hreliable, ?_, hbytes⟩
    exact ⟨[data], ⟨by simp, by simpa using ⟨hne, hshort.2⟩⟩, by simp⟩
  · rw [if_neg hshort]
    obtain ⟨hnone, hreliable⟩ :=
      writeBlocks_reliable makeChunkFrame "Chunk write timed out" data h
    obtain ⟨pieces, hpieces, hblocks⟩ :=
      blocks_of_writeBlocks (Prod.ext hnone rfl : writeChunkBlocks data output = (none, _))
    refine ⟨_, pieces.flatMap makeChunkFrame, Prod.ext hnone rfl, hreliable,
      ⟨pieces, hpieces, rfl⟩, ?_⟩
    rw [Output.bytes, hblocks, List.flatten_append, List.flatMap_def]
    rfl

namespace RequestBodySink

/-- A sink without errors on a transport that takes every byte.  Each write through it succeeds,
unless it exceeds a declared length. -/
structure Ready (s : RequestBodySink) : Prop where
  error : s.error = none
  finished : s.finished = false
  reliable : s.output.Reliable

/-- The effect of sending `data` through a sink.  The bytes on the wire are the data itself or its
chunks, and what is left of a declared length goes down by as much. -/
structure Sent (s : RequestBodySink) (data : Bytes) (s' : RequestBodySink) : Prop where
  chunked : s'.chunked = s.chunked
  word : ∃ word, SentAs s.chunked data word ∧ s'.output.bytes = s.output.bytes ++ word
  remaining : s'.remaining = s.remaining.map (· - data.length)
  room : ∀ n, s.remaining = some n → data.length ≤ n

/-- Sending nothing. -/
lemma Sent.refl (s : RequestBodySink) : s.Sent [] s := by
  refine ⟨rfl, ⟨[], sentAs_nil _, by simp⟩, by simp, by simp⟩

/-- Sending one block after another. -/
lemma Sent.trans {s t u : RequestBodySink} {data data' : Bytes} (h : s.Sent data t)
    (h' : t.Sent data' u) : s.Sent (data ++ data') u := by
  obtain ⟨word, hword, hbytes⟩ := h.word
  obtain ⟨word', hword', hbytes'⟩ := h'.word
  refine ⟨h'.chunked.trans h.chunked, ⟨word ++ word', hword.append (h.chunked ▸ hword'), ?_⟩, ?_, ?_⟩
  · rw [hbytes', hbytes, List.append_assoc]
  · rw [h'.remaining, h.remaining, Option.map_map, List.length_append]
    congr 1
    funext n
    simp only [Function.comp_apply]
    omega
  · intro n hn
    have hroom := h.room n hn
    have hroom' := h'.room (n - data.length) (by rw [h.remaining, hn]; rfl)
    rw [List.length_append]
    omega

/-- A sink that failed stays failed. -/
lemma write_of_error {s : RequestBodySink} (h : s.error.isSome = true) (data : Bytes) :
    s.write data = (false, s) := by
  unfold write
  rw [if_pos (Or.inl h)]

/-- A reliable transport takes a block in the framing of the sink. -/
lemma transmit_of_ready {s : RequestBodySink} (h : s.Ready) {data : Bytes} (hne : data ≠ []) :
    ∃ output word, s.transmit data = (none, output) ∧ output.Reliable ∧
      SentAs s.chunked data word ∧ output.bytes = s.output.bytes ++ word := by
  unfold transmit
  cases hchunked : s.chunked with
  | true => exact writeChunk_reliable h.reliable hne
  | false =>
    obtain ⟨hnone, hreliable, hbytes⟩ := h.reliable.write data
    exact ⟨_, data, Prod.ext hnone rfl, hreliable, rfl, hbytes⟩

/-- A write to a sink without errors is sent, or it leaves an error. -/
lemma write_of_ready {s : RequestBodySink} (h : s.Ready) (data : Bytes) :
    (∃ s', s.write data = (false, s') ∧ s'.error.isSome = true) ∨
      ∃ s', s.write data = (true, s') ∧ s'.Ready ∧ s.Sent data s' := by
  unfold write
  rw [if_neg (by simp [h.error, h.finished, h.reliable.isOpen])]
  by_cases hempty : data.isEmpty = true
  · rw [if_pos hempty]
    rw [List.isEmpty_iff] at hempty
    subst hempty
    exact Or.inr ⟨s, rfl, h, Sent.refl s⟩
  · rw [if_neg hempty]
    by_cases hroom : (s.remaining.any fun remaining => decide (remaining < data.length)) = true
    · rw [if_pos hroom]
      exact Or.inl ⟨_, rfl, rfl⟩
    · rw [if_neg hroom]
      obtain ⟨output, word, htransmit, hreliable, hword, hbytes⟩ :=
        transmit_of_ready h (by simpa using hempty : data ≠ [])
      rw [htransmit]
      simp only [progress]
      split
      · refine Or.inr ⟨_, rfl, ⟨h.error, h.finished, hreliable⟩, rfl, ⟨word, hword, hbytes⟩, rfl, ?_⟩
        intro n hn
        simpa [hn] using hroom
      · exact Or.inl ⟨_, rfl, rfl⟩

/-- A producer on a sink without errors sends its data, or it leaves an error.  What the producer
does with the answers of its sink makes no difference: as long as all is well they are all `true`.
-/
theorem run_of_ready (producer : Producer) {s : RequestBodySink} (h : s.Ready) :
    (producer.run ops s).2.error.isSome = true ∨
      ((producer.run ops s).2.Ready ∧ s.Sent producer.data (producer.run ops s).2) := by
  induction producer generalizing s with
  | finished => exact Or.inr ⟨h, Sent.refl s⟩
  | threw thrown => exact Or.inr ⟨h, Sent.refl s⟩
  | write data next ih =>
    rw [Producer.run, Producer.data]
    rcases write_of_ready h data with ⟨s', hwrite, herror⟩ | ⟨s', hwrite, hready, hsent⟩
    · -- an error stays, whatever the producer still writes
      refine Or.inl (@Producer.run_invariant _ ops (fun s => s.error.isSome = true)
        ?_ _ _ ?_)
      · intro s data hs
        show (s.write data).2.error.isSome = true
        rw [write_of_error hs]
        exact hs
      · show (s.write data).2.error.isSome = true
        rw [hwrite]
        exact herror
    · have hwrite' : ops.write s data = (true, s') := hwrite
      rw [hwrite']
      rcases ih true hready with herror | ⟨hready', hsent'⟩
      · exact Or.inl herror
      · exact Or.inr ⟨hready', hsent.trans hsent'⟩
  | flush next ih =>
    have hopen : ops.isOpen s = true := by
      simp [ops, isOpen, h.error, h.finished, h.reliable.isOpen]
    rw [Producer.run, Producer.data, hopen]
    exact ih true h
  | isOpen next ih =>
    have hopen : ops.isOpen s = true := by
      simp [ops, isOpen, h.error, h.finished, h.reliable.isOpen]
    rw [Producer.run, Producer.data, hopen]
    exact ih true h

/-- The loop over a long body sends it, or it leaves an error.  It is cut into blocks by the source,
which changes the chunks but not the data. -/
theorem sinkBody_of_ready (body : Bytes) {s : RequestBodySink} (h : s.Ready) :
    (sinkBody body s).error.isSome = true ∨
      ((sinkBody body s).Ready ∧ s.Sent body (sinkBody body s)) := by
  let Post : Bytes × RequestBodySink → RequestBodySink → Prop := fun t a =>
    t.2.Ready → a.error.isSome = true ∨ (a.Ready ∧ t.2.Sent t.1 a)
  have hrun : Post (body, s) (sinkBody body s) := by
    refine Loop.run_induct sinkBodyStep_decreases ?_ ?_ (body, s)
    · rintro ⟨body, s⟩ a hb hready
      simp only at hready
      simp only [sinkBodyStep] at hb
      split_ifs at hb with hempty
      · cases hb
        rw [List.isEmpty_iff] at hempty
        subst hempty
        exact Or.inr ⟨hready, Sent.refl _⟩
      · rcases write_of_ready hready (body.take blockSize) with ⟨s', hwrite, herror⟩ |
          ⟨s', hwrite, -, -⟩
        · rw [hwrite] at hb
          cases hb
          exact Or.inl herror
        · rw [hwrite] at hb
          cases hb
    · rintro ⟨body, s⟩ ⟨body', s'⟩ a hb ih hready
      simp only at hready
      simp only [sinkBodyStep] at hb
      split_ifs at hb with hempty
      rcases write_of_ready hready (body.take blockSize) with ⟨s1, hwrite, -⟩ |
        ⟨s1, hwrite, hready', hsent⟩
      · rw [hwrite] at hb
        cases hb
      · rw [hwrite] at hb
        cases hb
        rcases ih hready' with herror | ⟨hready'', hsent'⟩
        · exact Or.inl herror
        · refine Or.inr ⟨hready'', ?_⟩
          have := hsent.trans hsent'
          simpa using this
  exact hrun h

/-- A sink that failed does not finish successfully. -/
lemma finish_of_error {s : RequestBodySink} (h : s.error.isSome = true) : s.finish.1 ≠ none := by
  obtain ⟨e, he⟩ := Option.isSome_iff_exists.mp h
  unfold finish
  rw [he]
  split_ifs <;> simp

/-- A sink that finishes successfully has sent everything, and ends the chunks. -/
lemma finish_of_ready {s : RequestBodySink} (h : s.Ready) {output : Output}
    (hfinish : s.finish = (none, output)) :
    (∀ n, s.remaining = some n → n = 0) ∧
      output.bytes = s.output.bytes ++ if s.chunked then bytes "0\r\n\r\n" else [] := by
  unfold finish at hfinish
  rw [if_neg (by simp [h.finished]), h.error] at hfinish
  simp only at hfinish
  by_cases hremaining : (s.remaining.any fun remaining => decide (remaining ≠ 0)) = true
  · rw [if_pos hremaining] at hfinish
    cases hfinish
  · rw [if_neg hremaining] at hfinish
    refine ⟨fun n hn => by simpa [hn] using hremaining, ?_⟩
    cases hchunked : s.chunked with
    | true =>
      obtain ⟨hnone, -, hbytes⟩ := h.reliable.write (bytes "0\r\n\r\n")
      have hlast : writeLastChunk s.output = (none, (s.output.write (bytes "0\r\n\r\n")).2) :=
        Prod.ext hnone rfl
      rw [hchunked, if_pos rfl, hlast] at hfinish
      cases hfinish
      exact hbytes
    | false =>
      rw [hchunked, if_neg (by simp)] at hfinish
      cases hfinish
      simp

/-- A sink from its first write to its end: all data was sent in the framing of the sink, and a
declared length was met. -/
lemma written_of_finish {s t : RequestBodySink} {data : Bytes} {output : Output}
    (hrun : t.error.isSome = true ∨ (t.Ready ∧ s.Sent data t)) (hfinish : t.finish = (none, output)) :
    (∀ n, s.remaining = some n → data.length = n) ∧
      ∃ word, SentAs s.chunked data word ∧
        output.bytes = s.output.bytes ++ (word ++ if s.chunked then bytes "0\r\n\r\n" else []) := by
  rcases hrun with herror | ⟨hready, hsent⟩
  · exact absurd (by rw [hfinish]) (finish_of_error herror)
  · obtain ⟨hzero, hend⟩ := finish_of_ready hready hfinish
    obtain ⟨word, hword, hbytes⟩ := hsent.word
    refine ⟨?_, word, hword, ?_⟩
    · intro n hn
      have hleft := hzero (n - data.length) (by rw [hsent.remaining, hn]; rfl)
      have := hsent.room n hn
      omega
    · rw [hend, hbytes, hsent.chunked, List.append_assoc]

end RequestBodySink

/-! ### Requests and responses -/

/-- The bytes that carry the body of a request. -/
def RequestWord (request : Request) (word : Bytes) : Prop :=
  if request.isChunked then
    ∃ pieces, Pieces (sentBody request) pieces ∧
      word = pieces.flatMap makeChunkFrame ++ bytes "0\r\n\r\n"
  else word = sentBody request ∧ word.length = request.declaredLength

/-- A head is taken by a reliable transport. -/
lemma writeRequestHead_reliable {output : Output} (h : output.Reliable) (head : Bytes) :
    ∃ output', writeRequestHead head output = (none, output') ∧ output'.Reliable ∧
      output'.bytes = output.bytes ++ head := by
  obtain ⟨hnone, hreliable, hbytes⟩ := h.write head
  have hwrite : output.write head = (none, (output.write head).2) := Prod.ext hnone rfl
  refine ⟨_, ?_, hreliable, hbytes⟩
  rw [writeRequestHead, hwrite]

/-- What a producer wrote carries the body of its request. -/
lemma requestWord_of_producer {request : Request} {producer : Producer}
    (hstream : request.bodyStream = some producer) {word : Bytes}
    (hword : SentAs request.isChunked producer.data word)
    (hlength : ∀ n, request.bodyStreamLength = some n → producer.data.length = n) :
    RequestWord request (word ++ if request.isChunked then bytes "0\r\n\r\n" else []) := by
  unfold RequestWord sentBody
  rw [hstream]
  by_cases hchunked : request.isChunked = true
  · rw [if_pos hchunked, if_pos hchunked]
    rw [hchunked] at hword
    obtain ⟨pieces, hpieces, rfl⟩ := hword
    exact ⟨pieces, hpieces, rfl⟩
  · rw [if_neg hchunked, if_neg hchunked, List.append_nil]
    rw [Bool.not_eq_true] at hchunked
    rw [hchunked] at hword
    have hdata : word = producer.data := hword
    refine ⟨hdata, ?_⟩
    rw [Request.isChunked, hstream] at hchunked
    obtain ⟨n, hn⟩ := Option.isSome_iff_exists.mp
      (by simpa using hchunked : request.bodyStreamLength.isSome = true)
    rw [hdata, hlength n hn, Request.declaredLength, hstream, hn]
    rfl

/-- A body without a producer carries itself. -/
lemma requestWord_of_body {request : Request} (hstream : request.bodyStream = none) :
    RequestWord request request.body := by
  have hchunked : request.isChunked = false := by simp [Request.isChunked, hstream]
  unfold RequestWord sentBody
  rw [hchunked, hstream]
  simp [Request.declaredLength, hstream]

/-- A streamed body is taken by a reliable transport. -/
lemma writeStreamedBody_reliable {request : Request} {producer : Producer}
    (hstream : request.bodyStream = some producer)
    {onUploadProgress : Option (List Bytes → Option ℕ → Reaction)} {output output' : Output}
    (hreliable : output.Reliable)
    (h : writeStreamedBody request producer onUploadProgress output = (none, output')) :
    ∃ word, RequestWord request word ∧ output'.bytes = output.bytes ++ word := by
  unfold writeStreamedBody at h
  extract_lets sink at h
  have hready : sink.Ready := ⟨rfl, rfl, hreliable⟩
  have hrun := RequestBodySink.run_of_ready producer hready
  rcases hp : producer.run RequestBodySink.ops sink with ⟨thrown, s⟩
  rw [hp] at h hrun
  cases thrown with
  | some thrown => cases h
  | none =>
    obtain ⟨hlength, word, hword, hout⟩ := RequestBodySink.written_of_finish hrun h
    exact ⟨_, requestWord_of_producer hstream hword hlength, hout⟩

/-- A large body is taken by a reliable transport, block by block. -/
lemma sinkBody_reliable {body : Bytes}
    {onUploadProgress : Option (List Bytes → Option ℕ → Reaction)} {output output' : Output}
    (hreliable : output.Reliable)
    (h : (sinkBody body
      { output, chunked := false, total := some body.length, remaining := some body.length,
        onProgress := onUploadProgress }).finish = (none, output')) :
    output'.bytes = output.bytes ++ body := by
  have hrun := RequestBodySink.sinkBody_of_ready body
    (s := { output, chunked := false, total := some body.length, remaining := some body.length,
            onProgress := onUploadProgress })
    ⟨rfl, rfl, hreliable⟩
  obtain ⟨-, word, hsent, hout⟩ := RequestBodySink.written_of_finish hrun h
  have hdata : word = body := hsent
  rw [hout, hdata]
  simp

/-- A request that is written successfully arrives as its head and its body. -/
theorem written_of_writeRequest {request : Request} {wireTarget : Bytes}
    {onUploadProgress : Option (List Bytes → Option ℕ → Reaction)} {output output' : Output}
    (hreliable : output.Reliable)
    (h : writeRequest request wireTarget onUploadProgress output = (none, output')) :
    ∃ head word, serializeRequest request wireTarget = .ok head ∧ RequestWord request word ∧
      output'.bytes = output.bytes ++ (head ++ word) := by
  unfold writeRequest at h
  cases hhead : serializeRequest request wireTarget with
  | error e =>
    rw [hhead] at h
    cases h
  | ok head =>
    rw [hhead] at h
    simp only at h
    obtain ⟨middle, hwrite, hmiddle, hbytes⟩ := writeRequestHead_reliable hreliable head
    cases hstream : request.bodyStream with
    | some producer =>
      rw [hstream, hwrite] at h
      obtain ⟨word, hword, hout⟩ := writeStreamedBody_reliable hstream hmiddle h
      exact ⟨head, word, rfl, hword, by rw [hout, hbytes, List.append_assoc]⟩
    | none =>
      refine ⟨head, request.body, rfl, requestWord_of_body hstream, ?_⟩
      rw [hstream] at h
      simp only at h
      by_cases hlong : blockSize < request.body.length
      · rw [if_pos hlong, hwrite] at h
        rw [sinkBody_reliable hmiddle h, hbytes, List.append_assoc]
      · -- a small body is written together with the head
        rw [if_neg hlong] at h
        obtain ⟨hnone, -, htogether⟩ := hreliable.write (head ++ request.body)
        have hwrite' : output.write (head ++ request.body) =
            (none, (output.write (head ++ request.body)).2) := Prod.ext hnone rfl
        rw [hwrite'] at h
        simp only [Prod.mk.injEq] at h
        rw [← h.2, htogether]

/-- A response to the method has no body. -/
def omitsBody (method : Bytes) (status : ℤ) : Bool :=
  iequals method (bytes "HEAD") || statusHasNoBody status

/-- A response that is written successfully arrives as its head and its body. -/
theorem written_of_writeResponse {request : Request} {response : Response}
    {output output' : Output} (hreliable : output.Reliable)
    (h : writeResponse request response output = (none, output')) :
    ∃ head, buildResponseHead request response { contentLength := some response.body.length } =
        .ok head ∧
      output'.bytes = output.bytes ++
        (head ++ if omitsBody request.method response.status then [] else response.body) := by
  unfold writeResponse writeResponseHead at h
  dsimp only at h
  cases hhead : buildResponseHead request response
      { contentLength := some response.body.length } with
  | error e =>
    rw [hhead] at h
    simp only at h
    split_ifs at h <;> cases h
  | ok head =>
    rw [hhead] at h
    simp only at h
    refine ⟨head, rfl, ?_⟩
    obtain ⟨hnone, hreliable', hbytes⟩ := hreliable.write head
    have hwrite : output.write head = (none, (output.write head).2) := Prod.ext hnone rfl
    rw [← omitsBody] at h
    by_cases homit : omitsBody request.method response.status = true
    · rw [homit] at h ⊢
      rw [hwrite] at h
      simp only [Bool.not_true, Bool.false_and, Bool.false_eq_true, if_false, Bool.true_or, if_true,
        Prod.mk.injEq, true_and] at h
      rw [← h, hbytes, if_pos rfl, List.append_nil]
    · rw [Bool.not_eq_true] at homit
      rw [homit] at h ⊢
      simp only [Bool.not_false, Bool.true_and, Bool.false_or, Bool.false_eq_true, if_false] at h ⊢
      by_cases hempty : response.body.isEmpty = true
      · rw [hempty, hwrite] at h
        simp only [Bool.not_true, Bool.false_and, Bool.false_eq_true, if_false, if_true,
          Prod.mk.injEq, true_and] at h
        rw [List.isEmpty_iff] at hempty
        rw [← h, hbytes, hempty, List.append_nil]
      · rw [Bool.not_eq_true] at hempty
        rw [hempty, hwrite] at h
        simp only [Bool.not_false, Bool.true_and, decide_eq_true_eq, Bool.false_eq_true,
          if_false] at h
        split_ifs at h
        · obtain ⟨-, -, htogether⟩ := hreliable.write (head ++ response.body)
          rw [← htogether, h]
        · obtain ⟨pieces, hpieces, hblocks⟩ := blocks_of_writeBlocks h
          rw [Output.bytes, hblocks, List.flatten_append, List.map_id, hpieces.flatten]
          change (output.write head).2.bytes ++ _ = _
          rw [hbytes, List.append_assoc]

end Chhttp
