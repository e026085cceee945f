import Chhttp.Protocol.Body
import Chhttp.Protocol.Written

/-!
# Chunks written and read back

A producer writes byte strings one by one through `write_chunk` and ends with `write_last_chunk`.
Empty strings write nothing, and long ones become several chunks, so the transport receives the
`writtenFrame` of nonempty pieces of the data.  `read_body` takes this frame, and nothing else, from
whatever input it is at the front of.
-/

namespace Chhttp

open Fragment

/-- Calls of `write_chunk`, up to the first that fails, and then `write_last_chunk`. -/
def writeChunks : List Bytes → Output → Option ErrorInfo × Output
  | [], output => writeLastChunk output
  | data :: writes, output =>
    match writeChunk data output with
    | (some e, output) => (some e, output)
    | (none, output) => writeChunks writes output

/-- Pieces of one string, and then pieces of another one. -/
lemma Pieces.append {data more : Bytes} {pieces others : List Bytes} (h : Pieces data pieces)
    (h' : Pieces more others) : Pieces (data ++ more) (pieces ++ others) := by
  refine ⟨by rw [List.flatten_append, h.flatten, h'.flatten], ?_⟩
  exact List.forall_mem_append.mpr ⟨h.piece, h'.piece⟩

/-- `write_chunk` hands on chunks of nonempty pieces. -/
lemma blocks_of_writeChunk {data : Bytes} {output output' : Output}
    (h : writeChunk data output = (none, output')) :
    ∃ pieces, Pieces data pieces ∧
      output'.blocks = output.blocks ++ pieces.map makeChunkFrame := by
  unfold writeChunk at h
  split_ifs at h with hshort
  · simp only [Bool.and_eq_true, Bool.not_eq_true', List.isEmpty_eq_false_iff,
      decide_eq_true_eq] at hshort
    have hblocks := output.blocks_write (makeChunkFrame data)
    rw [h] at hblocks
    refine ⟨[data], ⟨List.flatten_singleton, ?_⟩, hblocks⟩
    intro piece hpiece
    rw [List.mem_singleton.mp hpiece]
    exact hshort
  · exact blocks_of_writeBlocks h

/-- All the calls hand on the frame of nonempty pieces. -/
lemma bytes_of_writeChunks {writes : List Bytes} {output output' : Output}
    (h : writeChunks writes output = (none, output')) :
    ∃ pieces, Pieces writes.flatten pieces ∧
      output'.bytes = output.bytes ++ (pieces.flatMap makeChunkFrame ++ bytes "0\r\n\r\n") := by
  induction writes generalizing output with
  | nil =>
    have hblocks := output.blocks_write (bytes "0\r\n\r\n")
    rw [show output.write (bytes "0\r\n\r\n") = (none, output') from h] at hblocks
    refine ⟨[], ⟨rfl, fun _ hpiece => absurd hpiece List.not_mem_nil⟩, ?_⟩
    rw [Output.bytes, hblocks, List.flatten_append]
    rfl
  | cons data writes ih =>
    rw [writeChunks] at h
    split at h
    · cases h
    · rename_i middle hwrite
      obtain ⟨pieces, hpieces, hblocks⟩ := blocks_of_writeChunk hwrite
      obtain ⟨others, hothers, hbytes⟩ := ih h
      refine ⟨pieces ++ others, hpieces.append hothers, ?_⟩
      rw [hbytes, Output.bytes, Output.bytes, hblocks, List.flatten_append, List.flatMap_append,
        ← List.flatMap_def, List.append_assoc, List.append_assoc]

/-- A reader that takes heads has room for the empty trailer section. -/
lemma two_le_of_takeHeadBytes {maxHeaderSize : ℕ} {input after : Input} {view : Bytes}
    (h : takeHeadBytes maxHeaderSize input = (.ok view, after)) : 2 ≤ maxHeaderSize := by
  obtain ⟨n, -, hn, -⟩ := (headTaken_of_takeHeadBytes h).found
  omega

/-- A chunked head that was read with the limits of a reader.  The hypothesis is about a head that
the reader accepted, not about its fields: the fields of a head are the business of other theorems.
-/
structure ChunkedHeadRead (options : HttpReadOptions) (head : ParsedHead) : Prop where
  read : ∃ before after view, takeHeadBytes options.maxHeaderSize before = (.ok view, after) ∧
    parseHead view = .ok head
  chunked : head.chunked = true

/-- Chunked encoding and decoding.  If all writes succeed, a buffered reader that has read a chunked
head, and whose limit leaves room for the data, reads the data back and leaves what is behind it. -/
theorem readBody_writeChunks {options : HttpReadOptions} {head : ParsedHead} {input : Input}
    {rest : Bytes} {writes : List Bytes} {output output' : Output} (untilEof : Bool)
    (hbuf : options.Buffered) (hhead : ChunkedHeadRead options head)
    (hwrites : writeChunks writes output = (none, output'))
    (havail : output.bytes ++ input.available = output'.bytes ++ rest)
    (hlimit : writes.flatten.length ≤ options.maxBodySize) :
    (readBody options head untilEof false input).result = .ok writes.flatten ∧
      (readBody options head untilEof false input).headers = head.headers ∧
      (readBody options head untilEof false input).input.available = rest := by
  obtain ⟨⟨_, _, _, htaken, -⟩, hchunked⟩ := hhead
  obtain ⟨pieces, hpieces, hbytes⟩ := bytes_of_writeChunks hwrites
  obtain ⟨hvalid, hpayload, hencode⟩ :=
    writtenFrame_valid hpieces (two_le_of_takeHeadBytes htaken)
  have hinput : input.available = (writtenFrame pieces).encode ++ rest := by
    rw [hbytes, List.append_assoc] at havail
    rw [hencode]
    exact List.append_cancel_left havail
  have htook := @readChunked_complete options hbuf (writtenFrame pieces) []
    { headers := head.headers, input, delivery := {} } rest hvalid hinput
    (Or.inl fun _ hline => absurd hline List.not_mem_nil)
    (by rw [hpayload, Nat.zero_add]; exact hlimit)
  rw [readBody_of_chunked hchunked]
  refine ⟨?_, ?_, ?_⟩
  · rw [htook.result, htook.delivered.body hbuf.onData hbuf.onDataAsync, hpayload]
    rfl
  · rw [htook.headers, List.append_nil]
  · exact List.append_cancel_left (htook.took.available.symm.trans hinput)

/-- Three writes, the second one empty, read byte by byte from a pipelined connection. -/
theorem readBody_writeChunks_of_three :
    ∃ head, (readBody {} head false false
      { buffer := [],
        reads := ((writeChunks [bytes "ab", [], bytes "0\r\n"] {}).2.bytes ++ bytes "GET").map
          fun b => .data [b] }).result = .ok (bytes "ab0\r\n") := by
  refine ⟨{ startLine := bytes "X", headers := [(bytes "Transfer-Encoding", bytes "chunked")],
            chunked := true }, ?_⟩
  refine (@readBody_writeChunks {} _ _ (bytes "GET") [bytes "ab", [], bytes "0\r\n"] {} _ false
    ⟨rfl, rfl, rfl, fun _ => rfl, fun _ => rfl⟩ ⟨?_, rfl⟩ rfl rfl (by decide)).1
  exact ⟨{ buffer := bytes "X\r\nTransfer-Encoding: chunked\r\n\r\n", reads := [] }, _, _, rfl, rfl⟩

end Chhttp
