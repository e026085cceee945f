import Chhttp.Common.Message
import Chhttp.Lib.Loop
import Chhttp.Protocol.Lines

/-!
# Output: blocks, chunks and producers

An `Output` records the blocks that were handed to `Connection::write` and the outcomes of the
writes to come.  On it stand the writers of long bodies, which cut their data into blocks of
64 KiB, and the interpretation of a `Producer`, which talks to a sink through three operations.

What callers hand over and what a plain connection transmits are different things: the connection
describes every block by a buffer whose length is an `unsigned int`, and a block of 2 ^ 32 bytes or
more loses bytes although its write succeeds.  So there are two readings of a record, `bytes` and
`wire`, which agree as long as the blocks are shorter (`ShortSince.wire_iff`).
-/

namespace Chhttp

/-- The outcome of one `Connection::write`.  A write may fail and leave the connection open, or
succeed while the peer closes it. -/
structure WriteOutcome where
  error : Option ErrorInfo := none
  stillOpen : Bool := true

/-- The writing side of a connection, as its callers see it: the blocks that they have handed to it.
Writes that have no outcome in the script succeed, and `expired` says when the aggregate deadline of
a long write has passed. -/
structure Output where
  blocks : List Bytes := []
  outcomes : List WriteOutcome := []
  isOpen : Bool := true
  expired : List Bytes → Bool := fun _ => false

/-- `uv_buf_init` on all of `base`: the length is narrowed to an `unsigned int`. -/
def Transport.uvBufInit (base : Bytes) : Bytes := base.take (base.length % 2 ^ 32)

namespace Output

/-- `Connection::write`, as its callers see it: the block is handed over, and the result reported.
Nothing is said here of the bytes that leave the socket: these are `wire`. -/
def write (output : Output) (data : Bytes) : Option ErrorInfo × Output :=
  match output.outcomes with
  | [] => (none, { output with blocks := output.blocks ++ [data] })
  | outcome :: outcomes =>
    (outcome.error,
      { output with blocks := output.blocks ++ [data], outcomes, isOpen := outcome.stillOpen })

/-- A transport that takes every byte it is handed: no write fails or closes the connection, and no
deadline passes.  Over TLS this is all it takes; a plain connection also needs blocks of less than
2 ^ 32 bytes, see `wire`. -/
structure Reliable (output : Output) : Prop where
  outcomes : output.outcomes = []
  isOpen : output.isOpen = true
  expired : ∀ blocks, output.expired blocks = false

/-- The bytes handed to the transport. -/
def bytes (output : Output) : Bytes := output.blocks.flatten

/-- The bytes that a plain connection has put on the wire if its writes succeeded: of each block
what its buffer describes.  `Transport.writeData_eq_uvBufInit` proves this of a write. -/
def wire (output : Output) : Bytes := output.blocks.flatMap Transport.uvBufInit

/-- A block that was handed on is the last one. -/
lemma blocks_write (output : Output) (data : Bytes) :
    (output.write data).2.blocks = output.blocks ++ [data] := by
  unfold write
  split <;> rfl

/-- A reliable transport stays reliable. -/
lemma Reliable.write {output : Output} (h : output.Reliable) (data : Bytes) :
    (output.write data).1 = none ∧ (output.write data).2.Reliable ∧
      (output.write data).2.bytes = output.bytes ++ data := by
  simp [Output.write, h.outcomes, bytes]
  exact ⟨rfl, h.isOpen, h.expired⟩

end Output

namespace Transport

/-- A buffer describes the beginning of the bytes. -/
lemma uvBufInit_isPrefix (base : Bytes) : uvBufInit base <+: base := List.take_prefix _ _

/-- A buffer describes all bytes exactly when their number fits. -/
lemma uvBufInit_eq_iff {base : Bytes} : uvBufInit base = base ↔ base.length < 2 ^ 32 := by
  rw [uvBufInit, List.take_eq_self_iff]
  constructor
  · intro h
    exact h.trans_lt (Nat.mod_lt _ (Nat.two_pow_pos 32))
  · intro h
    rw [Nat.mod_eq_of_lt h]

/-- Blocks whose lengths fit are described wholly. -/
lemma flatMap_uvBufInit {blocks : List Bytes} (h : ∀ block ∈ blocks, block.length < 2 ^ 32) :
    blocks.flatMap uvBufInit = blocks.flatten := by
  induction blocks with
  | nil => rfl
  | cons block blocks ih =>
    obtain ⟨hblock, hblocks⟩ := List.forall_mem_cons.mp h
    rw [List.flatMap_cons, List.flatten_cons, (uvBufInit_eq_iff).mpr hblock, ih hblocks]

end Transport

namespace Output

open Transport

variable {start output : Output} {more : List Bytes}

/-- More blocks put more bytes on the wire. -/
lemma wire_append (h : output.blocks = start.blocks ++ more) :
    output.wire = start.wire ++ more.flatMap uvBufInit := by
  rw [wire, h, List.flatMap_append, wire]

/-- Blocks whose lengths fit arrive as they were handed over. -/
lemma wire_append_of_short (h : output.blocks = start.blocks ++ more)
    (hshort : ∀ block ∈ more, block.length < 2 ^ 32) :
    output.bytes = start.bytes ++ more.flatten ∧ output.wire = start.wire ++ more.flatten := by
  rw [wire_append h, flatMap_uvBufInit hshort, bytes, h, List.flatten_append, bytes]
  exact ⟨rfl, rfl⟩

/-- Every block that was handed over since `start` is shorter than 2 ^ 32 bytes. -/
def ShortSince (start output : Output) : Prop :=
  ∃ more, output.blocks = start.blocks ++ more ∧ ∀ block ∈ more, block.length < 2 ^ 32

/-- Then a word is on the wire exactly if it was handed over. -/
lemma ShortSince.wire_iff (h : ShortSince start output) {word : Bytes} :
    output.wire = start.wire ++ word ↔ output.bytes = start.bytes ++ word := by
  obtain ⟨more, hmore, hshort⟩ := h
  obtain ⟨hbytes, hwire⟩ := wire_append_of_short hmore hshort
  rw [hbytes, hwire, List.append_cancel_left_eq, List.append_cancel_left_eq]

end Output

/-! ### Long bodies -/

/-- The size of the blocks that long bodies are cut into, and the limit up to which a body is
coalesced with its head. -/
def blockSize : ℕ := 64 * 1024

/-- One iteration of the loops of `write_body_bytes` and `write_chunk_blocks`: the next block is
framed and written. -/
def writeBlocksStep (frame : Bytes → Bytes) (timedOut : String) :
    Bytes × Output → Loop.Next (Bytes × Output) (Option ErrorInfo × Output)
  | (data, output) =>
    if data.isEmpty then .leave (none, output)
    else if output.expired output.blocks then
      .leave (some { code := .timeout, message := timedOut }, output)
    else
      match output.write (frame (data.take blockSize)) with
      | (some e, output) => .leave (some e, output)
      | (none, output) => .again (data.drop blockSize, output)

/-- Every block shortens what is left to write. -/
lemma writeBlocksStep_decreases (frame : Bytes → Bytes) (timedOut : String) :
    Loop.Decreases (writeBlocksStep frame timedOut) fun s => s.1.length := by
  rintro ⟨data, output⟩ ⟨data', output'⟩ h
  simp only [writeBlocksStep] at h
  split_ifs at h with hempty
  split at h
  · cases h
  · cases h
    have hpos := List.length_pos_of_ne_nil (by simpa using hempty : data ≠ [])
    simp only [List.length_drop, blockSize]
    omega

/-- Write data in framed blocks. -/
def writeBlocks (frame : Bytes → Bytes) (timedOut : String) (data : Bytes) (output : Output) :
    Option ErrorInfo × Output :=
  Loop.run (writeBlocksStep frame timedOut) (fun s => s.1.length)
    (writeBlocksStep_decreases frame timedOut) (data, output)

/-- `write_body_bytes`. -/
def writeBodyBytes (body : Bytes) (output : Output) : Option ErrorInfo × Output :=
  writeBlocks id "Body write timed out" body output

/-- `make_chunk_frame`. -/
def makeChunkFrame (data : Bytes) : Bytes :=
  toChars 16 data.length ++ (crlf ++ (data ++ crlf))

/-- A chunk of at most 64 KiB is short. -/
lemma length_makeChunkFrame {data : Bytes} (h : data.length ≤ blockSize) :
    (makeChunkFrame data).length < 2 ^ 32 := by
  have hdigits : (toChars 16 data.length).length ≤ 5 := by
    rw [toChars, List.length_map, Numeral.digits]
    split_ifs
    · decide
    · rw [List.length_reverse, Nat.digits_length_le_iff (by decide)]
      exact h.trans_lt (by decide)
  have hcrlf : crlf.length = 2 := rfl
  rw [makeChunkFrame, List.length_append, List.length_append, List.length_append, hcrlf]
  unfold blockSize at h
  omega

/-- `write_chunk_blocks`. -/
def writeChunkBlocks (data : Bytes) (output : Output) : Option ErrorInfo × Output :=
  writeBlocks makeChunkFrame "Chunk write timed out" data output

/-- `write_chunk`: empty data is no chunk. -/
def writeChunk (data : Bytes) (output : Output) : Option ErrorInfo × Output :=
  if !data.isEmpty && decide (data.length ≤ blockSize) then output.write (makeChunkFrame data)
  else writeChunkBlocks data output

/-- `write_last_chunk`. -/
def writeLastChunk (output : Output) : Option ErrorInfo × Output :=
  output.write (bytes "0\r\n\r\n")

/-- Blocks of a long write: nonempty pieces of at most 64 KiB.  The last piece may be shorter than
the others; an empty write has no pieces. -/
structure Pieces (data : Bytes) (pieces : List Bytes) : Prop where
  flatten : pieces.flatten = data
  piece : ∀ p ∈ pieces, p ≠ [] ∧ p.length ≤ blockSize

/-- A successful long write hands on the framed pieces of the data, in order.  With the frame of a
chunk this is chunked coding, and with the identity the data itself. -/
theorem blocks_of_writeBlocks {frame : Bytes → Bytes} {timedOut : String} {data : Bytes}
    {output output' : Output} (h : writeBlocks frame timedOut data output = (none, output')) :
    ∃ pieces, Pieces data pieces ∧ output'.blocks = output.blocks ++ pieces.map frame := by
  let Post : Bytes × Output → Option ErrorInfo × Output → Prop := fun s a =>
    ∀ output', a = (none, output') →
      ∃ pieces, Pieces s.1 pieces ∧ output'.blocks = s.2.blocks ++ pieces.map frame
  have hrun : Post (data, output) (writeBlocks frame timedOut data output) := by
    refine Loop.run_induct (writeBlocksStep_decreases frame timedOut) ?_ ?_ (data, output)
    · rintro ⟨data, output⟩ a hb output' rfl
      simp only [writeBlocksStep] at hb
      split_ifs at hb with hempty
      · cases hb
        rw [List.isEmpty_iff] at hempty
        exact ⟨[], ⟨by simp [hempty], by simp⟩, by simp⟩
      · cases hb
      · split at hb <;> cases hb
    · rintro ⟨data, output⟩ ⟨data', output1⟩ a hb ih output' ha
      simp only [writeBlocksStep] at hb
      split_ifs at hb with hempty
      split at hb
      · cases hb
      · rename_i output2 hwrite
        cases hb
        obtain ⟨pieces, hpieces, hblocks⟩ := ih output' ha
        have hwritten := Output.blocks_write output (frame (data.take blockSize))
        rw [hwrite] at hwritten
        simp only at hwritten hblocks
        have hne : data.take blockSize ≠ [] := by
          rw [Ne, List.take_eq_nil_iff, not_or]
          exact ⟨by simp [blockSize], by simpa using hempty⟩
        refine ⟨data.take blockSize :: pieces, ⟨?_, ?_⟩, ?_⟩
        · rw [List.flatten_cons, hpieces.flatten, List.take_append_drop]
        · rw [List.forall_mem_cons]
          exact ⟨⟨hne, by rw [List.length_take]; omega⟩, hpieces.piece⟩
        · rw [hblocks, hwritten, List.map_cons, List.append_assoc, List.singleton_append]
  exact hrun output' h

/-- A reliable transport takes a long write. -/
theorem writeBlocks_reliable (frame : Bytes → Bytes) (timedOut : String) (data : Bytes)
    {output : Output} (h : output.Reliable) :
    (writeBlocks frame timedOut data output).1 = none ∧
      (writeBlocks frame timedOut data output).2.Reliable := by
  let Post : Bytes × Output → Option ErrorInfo × Output → Prop := fun s a =>
    s.2.Reliable → a.1 = none ∧ a.2.Reliable
  have hrun : Post (data, output) (writeBlocks frame timedOut data output) := by
    refine Loop.run_induct (writeBlocksStep_decreases frame timedOut) ?_ ?_ (data, output)
    · rintro ⟨data, output⟩ a hb hreliable
      simp only at hreliable
      simp only [writeBlocksStep, hreliable.expired, Bool.false_eq_true, if_false] at hb
      split_ifs at hb with hempty
      · cases hb
        exact ⟨rfl, hreliable⟩
      · obtain ⟨hnone, -, -⟩ := hreliable.write (frame (data.take blockSize))
        split at hb
        · rename_i e output' hwrite
          rw [hwrite] at hnone
          cases hnone
        · cases hb
    · rintro ⟨data, output⟩ ⟨data', output'⟩ a hb ih hreliable
      simp only at hreliable
      simp only [writeBlocksStep, hreliable.expired, Bool.false_eq_true, if_false] at hb
      split_ifs at hb with hempty
      obtain ⟨-, hreliable', -⟩ := hreliable.write (frame (data.take blockSize))
      split at hb
      · cases hb
      · rename_i output1 hwrite
        cases hb
        rw [hwrite] at hreliable'
        exact ih hreliable'
  exact hrun h

/-- A long write hands on pieces of at most 64 KiB, whether it succeeds or not.  This keeps its
writes below the size where a length would be narrowed. -/
lemma exists_pieces_writeBlocks (frame : Bytes → Bytes) (timedOut : String) (data : Bytes)
    (output : Output) : ∃ pieces : List Bytes, (∀ p ∈ pieces, p.length ≤ blockSize) ∧
      (writeBlocks frame timedOut data output).2.blocks = output.blocks ++ pieces.map frame := by
  let Post : Bytes × Output → Option ErrorInfo × Output → Prop := fun s a =>
    ∃ pieces : List Bytes, (∀ p ∈ pieces, p.length ≤ blockSize) ∧
      a.2.blocks = s.2.blocks ++ pieces.map frame
  have hnothing : ∀ output : Output, ∃ pieces : List Bytes, (∀ p ∈ pieces, p.length ≤ blockSize) ∧
      output.blocks = output.blocks ++ pieces.map frame := fun output => ⟨[], by simp, by simp⟩
  have hrun : Post (data, output) (writeBlocks frame timedOut data output) := by
    refine Loop.run_induct (writeBlocksStep_decreases frame timedOut) ?_ ?_ (data, output)
    · rintro ⟨data, output⟩ a hb
      have hwritten := Output.blocks_write output (frame (data.take blockSize))
      simp only [writeBlocksStep] at hb
      split_ifs at hb
      · cases hb
        exact hnothing output
      · cases hb
        exact hnothing output
      · split at hb
        · rename_i e output' hwrite
          cases hb
          rw [hwrite] at hwritten
          exact ⟨[data.take blockSize], by simp, hwritten⟩
        · cases hb
    · rintro ⟨data, output⟩ ⟨data', output'⟩ a hb ⟨pieces, hpieces, hblocks⟩
      have hwritten := Output.blocks_write output (frame (data.take blockSize))
      simp only [writeBlocksStep] at hb
      split_ifs at hb
      split at hb
      · cases hb
      · rename_i output1 hwrite
        cases hb
        rw [hwrite] at hwritten
        refine ⟨data.take blockSize :: pieces, List.forall_mem_cons.mpr ⟨by simp, hpieces⟩, ?_⟩
        rw [hblocks]
        simp only at hwritten ⊢
        rw [hwritten, List.map_cons, List.append_assoc, List.singleton_append]
  exact hrun

/-- Writing only adds blocks. -/
lemma blocks_prefix_writeBlocks (frame : Bytes → Bytes) (timedOut : String) (data : Bytes)
    (output : Output) : output.blocks <+: (writeBlocks frame timedOut data output).2.blocks := by
  obtain ⟨pieces, -, hblocks⟩ := exists_pieces_writeBlocks frame timedOut data output
  exact ⟨_, hblocks.symm⟩

/-- A chunk is handed on in short blocks, whether it is written wholly or not. -/
lemma exists_short_writeChunk (data : Bytes) (output : Output) : ∃ more : List Bytes,
    (∀ block ∈ more, block.length < 2 ^ 32) ∧
      (writeChunk data output).2.blocks = output.blocks ++ more := by
  unfold writeChunk
  split_ifs with hshort
  · simp only [Bool.and_eq_true, decide_eq_true_eq] at hshort
    refine ⟨[makeChunkFrame data], ?_, output.blocks_write _⟩
    exact List.forall_mem_singleton.mpr (length_makeChunkFrame hshort.2)
  · obtain ⟨pieces, hpieces, hblocks⟩ :=
      exists_pieces_writeBlocks makeChunkFrame "Chunk write timed out" data output
    refine ⟨pieces.map makeChunkFrame, ?_, hblocks⟩
    rw [List.forall_mem_map]
    exact fun p hp => length_makeChunkFrame (hpieces p hp)

/-- Writing a chunk only adds blocks. -/
lemma blocks_prefix_writeChunk (data : Bytes) (output : Output) :
    output.blocks <+: (writeChunk data output).2.blocks := by
  obtain ⟨more, -, hblocks⟩ := exists_short_writeChunk data output
  exact ⟨more, hblocks.symm⟩

/-! ### Producers -/

/-- The operations of a `StreamWriter::Sink` on its state; `flush` reports what `open` does.  The
client's request sink, the server's sinks and the sinks that only watch are instances. -/
structure SinkOps (σ : Type) where
  write : σ → Bytes → Bool × σ
  isOpen : σ → Bool

/-- Run a producer against a sink: what it threw, if it did, and the sink afterwards. -/
def Producer.run {σ : Type} (ops : SinkOps σ) : Producer → σ → Option Thrown × σ
  | .finished, s => (none, s)
  | .threw thrown, s => (some thrown, s)
  | .write data next, s => (next (ops.write s data).1).run ops (ops.write s data).2
  | .flush next, s => (next (ops.isOpen s)).run ops s
  | .isOpen next, s => (next (ops.isOpen s)).run ops s

/-- What every write of a sink preserves, a whole producer preserves.  The induction is over the
producer, whose answers from the sink are arbitrary; so no invariant of a sink has to speak of
producers. -/
theorem Producer.run_invariant {σ : Type} {ops : SinkOps σ} {I : σ → Prop}
    (hwrite : ∀ s data, I s → I (ops.write s data).2) (producer : Producer) {s : σ} (hs : I s) :
    I (producer.run ops s).2 := by
  induction producer generalizing s with
  | finished => exact hs
  | threw thrown => exact hs
  | write data next ih => exact ih _ (hwrite s data hs)
  | flush next ih => exact ih _ hs
  | isOpen next ih => exact ih _ hs

end Chhttp
