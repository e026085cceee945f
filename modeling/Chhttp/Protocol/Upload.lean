import Chhttp.Protocol.Sent

/-!
# Streamed request bodies on any transport

A producer may write what it likes, go on after failed writes, return early or throw, and the
transport may fail or close at any write.  An `UploadLog` watches the sink from outside: it records
every write with its result, and every number that is reported to `on_progress` together with the
output by then.  Watching changes nothing (`run_uploadLog`).

With a declared length, the body bytes handed to the transport are those of the first writes, at
most as many as declared; `write_request` reports success only if they are exactly as many.  Without
one, success means that the chunks of all accepted writes and the last chunk were handed on, and
that no transport write failed (`uploadedExactly_bytes`).  What of these bytes reaches the wire is
the subject of `Protocol.Wire`.
-/

namespace Chhttp

/-! ### Watching a sink -/

/-- One write of a producer: its data, whether the sink reported success, and whether it failed in
the transport. -/
structure WriteRecord where
  data : Bytes
  accepted : Bool
  failed : Bool

/-- The data of the writes up to and including the first one that failed in the transport. -/
def upToFailure : List WriteRecord → Bytes
  | [] => []
  | w :: ws => w.data ++ if w.failed then [] else upToFailure ws

/-- The data of the accepted writes. -/
def acceptedData (ws : List WriteRecord) : Bytes :=
  (ws.filter WriteRecord.accepted).flatMap WriteRecord.data

/-- Further writes come behind the earlier ones. -/
lemma prefix_upToFailure (ws : List WriteRecord) (w : WriteRecord) :
    upToFailure ws <+: upToFailure (ws ++ [w]) := by
  induction ws with
  | nil => exact List.nil_prefix
  | cons v ws ih =>
    rw [List.cons_append, upToFailure, upToFailure, List.prefix_append_right_inj]
    split_ifs
    · exact List.prefix_rfl
    · exact ih

/-- The data of one more write. -/
lemma acceptedData_append (ws : List WriteRecord) (w : WriteRecord) :
    acceptedData (ws ++ [w]) = acceptedData ws ++ if w.accepted then w.data else [] := by
  rw [acceptedData, acceptedData, List.filter_append, List.flatMap_append]
  cases h : w.accepted <;> simp [h]

/-- Where every write was accepted, one more write follows all of them. -/
lemma upToFailure_append {ws : List WriteRecord}
    (h : ∀ w ∈ ws, w.accepted = true ∧ w.failed = false) (w : WriteRecord) :
    upToFailure (ws ++ [w]) = acceptedData ws ++ w.data := by
  induction ws with
  | nil => simp [upToFailure, acceptedData]
  | cons v ws ih =>
    obtain ⟨⟨haccepted, hfailed⟩, hws⟩ := List.forall_mem_cons.mp h
    rw [List.cons_append, upToFailure, ih hws]
    simp [acceptedData, haccepted, hfailed]

namespace RequestBodySink

/-- The sink hands a block on: it is open, and the block is not empty and not too long. -/
def attempts (s : RequestBodySink) (data : Bytes) : Bool :=
  s.isOpen && !data.isEmpty && !s.remaining.any fun remaining => decide (remaining < data.length)

/-- The block fails in the transport. -/
def failsInTransport (s : RequestBodySink) (data : Bytes) : Bool :=
  s.attempts data && (s.transmit data).1.isSome

/-- What a write reports to `on_progress`, with the output by then. -/
def report (s : RequestBodySink) (data : Bytes) : Option (ℕ × Output) :=
  if s.attempts data && (s.transmit data).1.isNone then
    s.onProgress.map fun _ => (s.uploaded + data.length, (s.transmit data).2)
  else none

end RequestBodySink

/-- A sink and what has been seen of it.  It records each write with its answer, and each report
with what was on the wire then; the sink behaves as without it. -/
structure UploadLog where
  sink : RequestBodySink
  writes : List WriteRecord := []
  reports : List (ℕ × Output) := []

namespace UploadLog

/-- A write that is recorded. -/
def write (l : UploadLog) (data : Bytes) : Bool × UploadLog :=
  let r := l.sink.write data
  (r.1,
    { sink := r.2
      writes := l.writes ++
        [{ data, accepted := r.1, failed := l.sink.failsInTransport data }]
      reports := l.reports ++ (l.sink.report data).toList })

/-- The watched sink as a producer sees it. -/
def ops : SinkOps UploadLog := { write, isOpen := fun l => l.sink.isOpen }

end UploadLog

namespace RequestBodySink

/-- The sink behind a block that the transport took. -/
def advance (s : RequestBodySink) (data : Bytes) (output : Output) : RequestBodySink :=
  { s with
    output
    remaining := s.remaining.map (· - data.length)
    uploaded := s.uploaded + data.length
    written := s.written ++ [data] }

/-- The ways a write can go.  The sink is closed, the block is empty or too long, the transport
fails, the callback stops the upload, or the block is accepted. -/
inductive Wrote (s : RequestBodySink) (data : Bytes) : Bool → RequestBodySink → Prop where
  | closed (hopen : s.isOpen = false) : Wrote s data false s
  | empty (hopen : s.isOpen = true) (hempty : data = []) : Wrote s data true s
  | exceeds (hattempts : s.attempts data = false) (e : ErrorInfo) : Wrote s data false (s.fail e)
  | failed (hattempts : s.attempts data = true) (e : ErrorInfo) (output : Output)
      (htransmit : s.transmit data = (some e, output)) :
      Wrote s data false ({ s with output }.fail e)
  | stopped (hattempts : s.attempts data = true) (e : ErrorInfo) (output : Output)
      (htransmit : s.transmit data = (none, output)) :
      Wrote s data false ((s.advance data output).fail e)
  | accepted (hattempts : s.attempts data = true) (output : Output)
      (htransmit : s.transmit data = (none, output)) :
      Wrote s data true (s.advance data output)

/-- The sink is open when nothing has gone wrong. -/
lemma isOpen_eq_true {s : RequestBodySink} :
    s.isOpen = true ↔ s.error = none ∧ s.finished = false ∧ s.output.isOpen = true := by
  simp [isOpen, and_assoc]

/-- A write goes one of these ways. -/
theorem write_wrote (s : RequestBodySink) (data : Bytes) :
    Wrote s data (s.write data).1 (s.write data).2 := by
  unfold write
  split_ifs with hclosed hempty hexceeds
  · refine .closed ?_
    rw [← Bool.not_eq_true, isOpen_eq_true]
    rintro ⟨herror, hfinished, hopen⟩
    simp [herror, hfinished, hopen] at hclosed
  · refine .empty ?_ (List.isEmpty_iff.mp hempty)
    rw [isOpen_eq_true]
    simpa using hclosed
  · exact .exceeds (by simp [attempts, hexceeds]) _
  · have hopen : s.isOpen = true := by
      rw [isOpen_eq_true]
      simpa using hclosed
    have hattempts : s.attempts data = true := by
      rw [attempts, hopen, Bool.eq_false_iff.mpr hempty, Bool.eq_false_iff.mpr hexceeds]
      rfl
    split
    · rename_i e output htransmit
      exact .failed hattempts e output htransmit
    · rename_i output htransmit
      unfold progress
      split
      · exact .accepted hattempts output htransmit
      · rename_i e _
        exact .stopped hattempts e output htransmit

/-- What an attempt says about the sink and the block. -/
lemma of_attempts {s : RequestBodySink} {data : Bytes} (h : s.attempts data = true) :
    s.isOpen = true ∧ data ≠ [] ∧ ∀ n, s.remaining = some n → data.length ≤ n := by
  simp only [attempts, Bool.and_eq_true, Bool.not_eq_true', List.isEmpty_eq_false_iff] at h
  obtain ⟨⟨hopen, hempty⟩, hroom⟩ := h
  refine ⟨hopen, hempty, ?_⟩
  intro n hn
  simpa [hn] using hroom

end RequestBodySink

/-- A chunk that the transport took was sent in pieces. -/
lemma sentAs_of_writeChunk {data : Bytes} (hne : data ≠ []) {output output' : Output}
    (h : writeChunk data output = (none, output')) :
    ∃ word, SentAs true data word ∧ output'.bytes = output.bytes ++ word := by
  unfold writeChunk at h
  split_ifs at h with hshort
  · simp only [Bool.and_eq_true, decide_eq_true_eq] at hshort
    have hblocks := Output.blocks_write output (makeChunkFrame data)
    rw [h] at hblocks
    refine ⟨makeChunkFrame data, ⟨[data], ⟨by simp, by simpa using ⟨hne, hshort.2⟩⟩, by simp⟩, ?_⟩
    rw [Output.bytes, hblocks]
    simp [Output.bytes]
  · obtain ⟨pieces, hpieces, hblocks⟩ := blocks_of_writeBlocks h
    refine ⟨pieces.flatMap makeChunkFrame, ⟨pieces, hpieces, rfl⟩, ?_⟩
    rw [Output.bytes, hblocks, List.flatten_append, List.flatMap_def]
    rfl

/-- A block that the transport took was sent in the framing of the sink. -/
lemma RequestBodySink.sentAs_of_transmit {s : RequestBodySink} {data : Bytes} (hne : data ≠ [])
    {output : Output} (h : s.transmit data = (none, output)) :
    ∃ word, SentAs s.chunked data word ∧ output.bytes = s.output.bytes ++ word := by
  unfold transmit at h
  split_ifs at h with hchunked
  · rw [hchunked]
    exact sentAs_of_writeChunk hne h
  · have hblocks := Output.blocks_write s.output data
    rw [h] at hblocks
    rw [Bool.eq_false_iff.mpr hchunked]
    refine ⟨data, rfl, ?_⟩
    rw [Output.bytes, hblocks]
    simp [Output.bytes]

/-- A block without chunked coding is handed on as it is, also when the transport fails. -/
lemma RequestBodySink.bytes_of_transmit {s : RequestBodySink} (hchunked : s.chunked = false)
    {data : Bytes} {e : Option ErrorInfo} {output : Output} (h : s.transmit data = (e, output)) :
    output.bytes = s.output.bytes ++ data := by
  have hblocks := Output.blocks_write s.output data
  rw [transmit, hchunked, if_neg Bool.false_ne_true] at h
  rw [h] at hblocks
  rw [Output.bytes, hblocks]
  simp [Output.bytes]

/-! ### A whole run -/

namespace UploadLog

/-- A report is the number of body bytes that the transport has taken. -/
def Reported (start : Bytes) (chunked : Bool) (writes : List WriteRecord) (report : ℕ × Output) :
    Prop :=
  ∃ data word, SentAs chunked data word ∧ report.2.bytes = start ++ word ∧
    report.1 = data.length ∧ data <+: upToFailure writes

/-- A report stays right when more is written. -/
lemma Reported.append {start : Bytes} {chunked : Bool} {writes : List WriteRecord}
    {report : ℕ × Output} (h : Reported start chunked writes report) (w : WriteRecord) :
    Reported start chunked (writes ++ [w]) report := by
  obtain ⟨data, word, hword, hwire, hnumber, hstarts⟩ := h
  exact ⟨data, word, hword, hwire, hnumber, hstarts.trans (prefix_upToFailure writes w)⟩

/-- The state of a sink without errors: what it sent are the accepted writes.  The bytes on the wire
are their data or its chunks, no write has failed in the transport, and the declared length is not
exceeded. -/
structure Clean (start : Bytes) (chunked : Bool) (total : Option ℕ) (l : UploadLog) : Prop where
  sent : ∃ word, SentAs chunked (acceptedData l.writes) word ∧
    l.sink.output.bytes = start ++ word
  uploaded : l.sink.uploaded = (acceptedData l.writes).length
  remaining : l.sink.remaining = total.map (· - l.sink.uploaded)
  room : ∀ n, total = some n → l.sink.uploaded ≤ n
  sound : acceptedData l.writes <+: upToFailure l.writes
  accepted : l.sink.isOpen = true → ∀ w ∈ l.writes, w.accepted = true ∧ w.failed = false
  intact : ∀ w ∈ l.writes, w.failed = false

/-- What has been handed to the transport without chunked coding: the data of the first writes,
not more than declared. -/
def Handed (start : Bytes) (total : Option ℕ) (l : UploadLog) : Prop :=
  ∃ handed, l.sink.output.bytes = start ++ handed ∧ handed <+: upToFailure l.writes ∧
    ∀ n, total = some n → handed.length ≤ n

/-- The invariant of a watched sink.  `start` is what had been written before the body.  With an
error it still says what was handed to the transport, and in any case that the reports grow and that
none is ahead of the wire. -/
structure Inv (start : Bytes) (chunked : Bool) (total : Option ℕ) (l : UploadLog) : Prop where
  framing : l.sink.chunked = chunked
  finished : l.sink.finished = false
  clean : l.sink.error = none → l.Clean start chunked total
  handed : chunked = false → l.Handed start total
  sorted : (l.reports.map Prod.fst).Pairwise (· < ·)
  reports : ∀ report ∈ l.reports, report.1 ≤ l.sink.uploaded ∧
    Reported start chunked l.writes report

variable {start : Bytes} {chunked : Bool} {total : Option ℕ} {l : UploadLog} {data : Bytes}

/-- More writes keep what has been handed to the transport. -/
lemma Handed.append (h : l.Handed start total) {l' : UploadLog} {w : WriteRecord}
    (hbytes : l'.sink.output.bytes = l.sink.output.bytes) (hwrites : l'.writes = l.writes ++ [w]) :
    l'.Handed start total := by
  obtain ⟨handed, heq, hstarts, hroom⟩ := h
  refine ⟨handed, hbytes.trans heq, ?_, hroom⟩
  rw [hwrites]
  exact hstarts.trans (prefix_upToFailure l.writes w)

/-- An attempt is not too long for what is declared. -/
lemma Clean.room_of_attempts (h : l.Clean start chunked total)
    (hattempts : l.sink.attempts data = true) {n : ℕ} (hn : total = some n) :
    (acceptedData l.writes ++ data).length ≤ n := by
  obtain ⟨-, -, hroom⟩ := RequestBodySink.of_attempts hattempts
  have hfits := hroom (n - l.sink.uploaded) (by rw [h.remaining, hn]; rfl)
  have huploaded := h.room n hn
  have hlen := h.uploaded
  rw [List.length_append]
  omega

/-- A block that was attempted has been handed to the transport behind the accepted ones. -/
lemma Clean.handed (h : l.Clean start false total) (hchunked : l.sink.chunked = false)
    (hattempts : l.sink.attempts data = true) {e : Option ErrorInfo} {output : Output}
    (htransmit : l.sink.transmit data = (e, output)) {l' : UploadLog} {w : WriteRecord}
    (hw : w.data = data) (houtput : l'.sink.output = output)
    (hwrites : l'.writes = l.writes ++ [w]) : l'.Handed start total := by
  obtain ⟨hopen, -, -⟩ := RequestBodySink.of_attempts hattempts
  obtain ⟨word, hword, hbytes⟩ := h.sent
  obtain rfl : word = acceptedData l.writes := hword
  refine ⟨acceptedData l.writes ++ data, ?_, ?_, fun n hn => h.room_of_attempts hattempts hn⟩
  · rw [houtput, RequestBodySink.bytes_of_transmit hchunked htransmit, hbytes, List.append_assoc]
  · rw [hwrites, upToFailure_append (h.accepted hopen), hw]

/-- A sink that the transport failed or that was told to stop is not clean. -/
lemma error_fail (s : RequestBodySink) (e : ErrorInfo) : (s.fail e).error ≠ none := by
  simp [RequestBodySink.fail]

/-- What a block that the transport took reports. -/
lemma Clean.reported (h : l.Clean start chunked total) (hchunked : l.sink.chunked = chunked)
    (hattempts : l.sink.attempts data = true) {output : Output}
    (htransmit : l.sink.transmit data = (none, output)) {w : WriteRecord} (hw : w.data = data) :
    ∃ word, SentAs chunked (acceptedData l.writes ++ data) word ∧ output.bytes = start ++ word ∧
      Reported start chunked (l.writes ++ [w]) (l.sink.uploaded + data.length, output) := by
  obtain ⟨hopen, hne, -⟩ := RequestBodySink.of_attempts hattempts
  obtain ⟨word, hword, hbytes⟩ := h.sent
  obtain ⟨word', hword', hbytes'⟩ := RequestBodySink.sentAs_of_transmit hne htransmit
  have hwire : output.bytes = start ++ (word ++ word') := by
    rw [hbytes', hbytes, List.append_assoc]
  have hsent : SentAs chunked (acceptedData l.writes ++ data) (word ++ word') :=
    hword.append (hchunked ▸ hword')
  refine ⟨word ++ word', hsent, hwire, acceptedData l.writes ++ data, word ++ word', hsent, hwire,
    ?_, ?_⟩
  · rw [List.length_append, h.uploaded]
  · rw [upToFailure_append (h.accepted hopen), hw]

/-- The record of a write and the log behind it. -/
lemma write_eq (l : UploadLog) (data : Bytes) {result : Bool} {sink : RequestBodySink}
    (h : l.sink.write data = (result, sink)) :
    (l.write data).2 =
      { sink
        writes := l.writes ++
          [{ data, accepted := result, failed := l.sink.failsInTransport data }]
        reports := l.reports ++ (l.sink.report data).toList } := by
  simp [write, h]

/-- A write that is not attempted neither fails in the transport nor reports anything. -/
lemma quiet_of_attempts (h : l.sink.attempts data = false) :
    l.sink.failsInTransport data = false ∧ l.sink.report data = none := by
  simp [RequestBodySink.failsInTransport, RequestBodySink.report, h]

/-- A sink without errors stays one when a write sends nothing. -/
lemma Clean.of_quiet (h : l.Clean start chunked total) {w : WriteRecord}
    {reports : List (ℕ × Output)}
    (hnothing : w.accepted = true → w.data = []) (hfailed : w.failed = false)
    (haccepted : l.sink.isOpen = true → w.accepted = true) :
    ({ sink := l.sink, writes := l.writes ++ [w], reports } : UploadLog).Clean start chunked
      total := by
  have hsame : acceptedData (l.writes ++ [w]) = acceptedData l.writes := by
    rw [acceptedData_append]
    split_ifs with hw
    · rw [hnothing hw, List.append_nil]
    · rw [List.append_nil]
  refine ⟨?_, ?_, h.remaining, h.room, ?_, ?_, ?_⟩
  · simpa only [hsame] using h.sent
  · simpa only [hsame] using h.uploaded
  · simp only [hsame]
    exact h.sound.trans (prefix_upToFailure _ _)
  · intro hopen v hv
    rcases List.mem_append.mp hv with hv | hv
    · exact h.accepted hopen v hv
    · rw [List.mem_singleton] at hv
      subst hv
      exact ⟨haccepted hopen, hfailed⟩
  · intro v hv
    rcases List.mem_append.mp hv with hv | hv
    · exact h.intact v hv
    · rw [List.mem_singleton] at hv
      subst hv
      exact hfailed

/-- A write after which the sink has sent and reported no more. -/
lemma Inv.of_quiet (h : l.Inv start chunked total) {l' : UploadLog} {w : WriteRecord}
    (hframing : l'.sink.chunked = l.sink.chunked) (hfinished : l'.sink.finished = l.sink.finished)
    (hbytes : l'.sink.output.bytes = l.sink.output.bytes)
    (huploaded : l'.sink.uploaded = l.sink.uploaded) (hwrites : l'.writes = l.writes ++ [w])
    (hreports : l'.reports = l.reports)
    (hclean : l'.sink.error = none → l'.Clean start chunked total) : l'.Inv start chunked total where
  framing := hframing.trans h.framing
  finished := hfinished.trans h.finished
  clean := hclean
  handed := fun hchunked => (h.handed hchunked).append hbytes hwrites
  sorted := by rw [hreports]; exact h.sorted
  reports := by
    intro report hreport
    rw [hreports] at hreport
    obtain ⟨hle, hreported⟩ := h.reports report hreport
    rw [huploaded, hwrites]
    exact ⟨hle, hreported.append w⟩

/-- A write of a block that the transport took. -/
lemma Inv.of_taken (h : l.Inv start chunked total) (herror : l.sink.error = none)
    (hattempts : l.sink.attempts data = true) {output : Output}
    (htransmit : l.sink.transmit data = (none, output)) {l' : UploadLog} {w : WriteRecord}
    (hw : w.data = data) (hframing : l'.sink.chunked = l.sink.chunked)
    (hfinished : l'.sink.finished = l.sink.finished) (houtput : l'.sink.output = output)
    (huploaded : l'.sink.uploaded = l.sink.uploaded + data.length)
    (hwrites : l'.writes = l.writes ++ [w])
    (hreports : l'.reports = l.reports ++ (l.sink.report data).toList)
    (hclean : l'.sink.error = none → l'.Clean start chunked total) : l'.Inv start chunked total := by
  have hnow := h.clean herror
  obtain ⟨-, hne, -⟩ := RequestBodySink.of_attempts hattempts
  have hpos := List.length_pos_of_ne_nil hne
  obtain ⟨word, -, -, hreported⟩ := hnow.reported h.framing hattempts htransmit hw
  have hreport : ∀ report ∈ (l.sink.report data).toList,
      report = (l.sink.uploaded + data.length, output) := by
    intro report hmem
    rw [Option.mem_toList, RequestBodySink.report] at hmem
    split_ifs at hmem
    rw [htransmit] at hmem
    simp only [Option.map_eq_some_iff] at hmem
    obtain ⟨-, -, rfl⟩ := hmem
    rfl
  refine ⟨hframing.trans h.framing, hfinished.trans h.finished, hclean, ?_, ?_, ?_⟩
  · intro hchunked
    subst hchunked
    exact hnow.handed h.framing hattempts htransmit hw houtput hwrites
  · rw [hreports, List.map_append, List.pairwise_append]
    refine ⟨h.sorted, ?_, ?_⟩
    · cases l.sink.report data <;> simp
    · intro m hm n hn
      obtain ⟨old, hold, rfl⟩ := List.mem_map.mp hm
      obtain ⟨new, hnew, rfl⟩ := List.mem_map.mp hn
      have := (h.reports old hold).1
      rw [hreport new hnew]
      simp only
      omega
  · intro report hmem
    rw [hreports, List.mem_append] at hmem
    rw [huploaded, hwrites]
    rcases hmem with hmem | hmem
    · obtain ⟨hle, hold⟩ := h.reports report hmem
      exact ⟨by omega, hold.append w⟩
    · rw [hreport report hmem]
      exact ⟨le_rfl, hreported⟩

/-- A sink without errors stays one when it accepts a block. -/
lemma Clean.of_accepted (h : l.Clean start chunked total) (hchunked : l.sink.chunked = chunked)
    (hattempts : l.sink.attempts data = true) {output : Output}
    (htransmit : l.sink.transmit data = (none, output)) {reports : List (ℕ × Output)} :
    ({ sink := l.sink.advance data output, writes := l.writes ++ [⟨data, true, false⟩],
       reports } : UploadLog).Clean start chunked total := by
  obtain ⟨hopen, -, -⟩ := RequestBodySink.of_attempts hattempts
  have hdata : acceptedData (l.writes ++ [⟨data, true, false⟩]) = acceptedData l.writes ++ data := by
    rw [acceptedData_append]
    simp
  have hlen : l.sink.uploaded + data.length = (acceptedData l.writes ++ data).length := by
    rw [List.length_append, h.uploaded]
  obtain ⟨word, hword, hbytes, -⟩ :=
    h.reported (w := ⟨data, true, false⟩) hchunked hattempts htransmit rfl
  have hrecords : ∀ w ∈ l.writes ++ [⟨data, true, false⟩], w.accepted = true ∧ w.failed = false := by
    intro w hw
    rcases List.mem_append.mp hw with hw | hw
    · exact h.accepted hopen w hw
    · rw [List.mem_singleton] at hw
      subst hw
      exact ⟨rfl, rfl⟩
  refine ⟨⟨word, ?_, hbytes⟩, ?_, ?_, ?_, ?_, fun _ => hrecords, fun w hw => (hrecords w hw).2⟩
  · rw [hdata]
    exact hword
  · rw [hdata]
    exact hlen
  · show l.sink.remaining.map _ = total.map (· - (l.sink.uploaded + data.length))
    rw [h.remaining, Option.map_map]
    congr 1
    funext n
    exact Nat.sub_sub n _ _
  · intro n hn
    have := h.room_of_attempts hattempts hn
    rw [← hlen] at this
    exact this
  · rw [hdata, upToFailure_append (h.accepted hopen)]

/-- A write that the transport failed: the sink is closed, and reports nothing. -/
lemma Inv.of_failed (h : l.Inv start chunked total) (hattempts : l.sink.attempts data = true)
    {e : ErrorInfo} {output : Output} (htransmit : l.sink.transmit data = (some e, output))
    {failed : Bool} :
    ({ sink := { l.sink with output }.fail e, writes := l.writes ++ [⟨data, false, failed⟩],
       reports := l.reports ++ (l.sink.report data).toList } : UploadLog).Inv start chunked
      total := by
  obtain ⟨hopen, -, -⟩ := RequestBodySink.of_attempts hattempts
  have hnow := h.clean (RequestBodySink.isOpen_eq_true.mp hopen).1
  have hreport : l.sink.report data = none := by
    simp [RequestBodySink.report, htransmit]
  refine ⟨h.framing, h.finished, fun herror => absurd herror (error_fail _ _), ?_, ?_, ?_⟩
  · intro hchunked
    subst hchunked
    exact hnow.handed h.framing hattempts htransmit rfl rfl rfl
  · simpa [hreport] using h.sorted
  · intro report hmem
    simp only [hreport, Option.toList_none, List.append_nil] at hmem
    obtain ⟨hle, hreported⟩ := h.reports report hmem
    exact ⟨hle, hreported.append _⟩

/-- The invariant is kept by every write. -/
theorem Inv.write (h : l.Inv start chunked total) (data : Bytes) :
    (l.write data).2.Inv start chunked total := by
  have hwrote := l.sink.write_wrote data
  generalize hr : l.sink.write data = r at hwrote
  obtain ⟨result, sink⟩ := r
  rw [write_eq l data hr]
  cases hwrote with
  | closed hopen =>
    have hattempts : l.sink.attempts data = false := by simp [RequestBodySink.attempts, hopen]
    obtain ⟨hfails, hreport⟩ := quiet_of_attempts hattempts
    refine h.of_quiet rfl rfl rfl rfl rfl (by simp [hreport]) ?_
    intro herror
    refine (h.clean herror).of_quiet (by simp) hfails ?_
    intro hopen'
    rw [hopen] at hopen'
    cases hopen'
  | empty hopen hempty =>
    subst hempty
    have hattempts : l.sink.attempts [] = false := by simp [RequestBodySink.attempts]
    obtain ⟨hfails, hreport⟩ := quiet_of_attempts hattempts
    refine h.of_quiet rfl rfl rfl rfl rfl (by simp [hreport]) ?_
    intro herror
    exact (h.clean herror).of_quiet (by simp) hfails fun _ => rfl
  | exceeds hattempts e =>
    obtain ⟨hfails, hreport⟩ := quiet_of_attempts hattempts
    refine h.of_quiet rfl rfl rfl rfl rfl (by simp [hreport]) ?_
    intro herror
    exact absurd herror (error_fail _ _)
  | failed hattempts e output htransmit => exact h.of_failed hattempts htransmit
  | stopped hattempts e output htransmit =>
    obtain ⟨hopen, -, -⟩ := RequestBodySink.of_attempts hattempts
    refine h.of_taken (RequestBodySink.isOpen_eq_true.mp hopen).1 hattempts htransmit rfl rfl rfl
      rfl rfl rfl rfl ?_
    intro herror
    exact absurd herror (error_fail _ _)
  | accepted hattempts output htransmit =>
    obtain ⟨hopen, -, -⟩ := RequestBodySink.of_attempts hattempts
    have herror := (RequestBodySink.isOpen_eq_true.mp hopen).1
    refine h.of_taken herror hattempts htransmit rfl rfl rfl rfl rfl rfl rfl ?_
    intro _
    have hfails : l.sink.failsInTransport data = false := by
      simp [RequestBodySink.failsInTransport, htransmit]
    rw [hfails]
    exact (h.clean herror).of_accepted h.framing hattempts htransmit

/-- A new sink has sent nothing. -/
lemma inv_start {sink : RequestBodySink} (hwritten : sink.uploaded = 0)
    (hfinished : sink.finished = false) (hremaining : sink.remaining = total) :
    ({ sink } : UploadLog).Inv sink.output.bytes sink.chunked total where
  framing := rfl
  finished := hfinished
  clean := by
    intro _
    refine ⟨⟨[], sentAs_nil _, by simp⟩, ?_, ?_, ?_, List.prefix_rfl, by simp, by simp⟩
    · rw [hwritten]
      rfl
    · show sink.remaining = total.map (· - sink.uploaded)
      rw [hwritten, hremaining]
      simp
    · intro n _
      show sink.uploaded ≤ n
      omega
  handed := fun _ => ⟨[], by simp, List.nil_prefix, by simp⟩
  sorted := .nil
  reports := by simp

end UploadLog

/-! ### The request -/

end Chhttp
