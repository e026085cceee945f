import Chhttp.Protocol.Chunked

/-!
# Message bodies

`readBody` is `read_body`: a body in chunked coding, of a given length, up to the end of the
connection, or none.  `readFixed_sound` and `chunkedTaken_of_ok` say what the first two consume and
deliver.

The last section is about fragmentation.  A chunked body is read alike in all cuts of the same
bytes exactly when no acceptable frame with a bare LF in a trailer line stands at their front
(`readBody_chunked_cuts`).
-/

namespace Chhttp

open ListSearch Fragment

/-! ### The source -/

/-- One iteration of the loop up to the end of the connection. -/
def untilEofStep (options : HttpReadOptions) (s : ChunkState) : Loop.Next ChunkState BodyRead :=
  match s.input.read with
  | (.failed e, input) => .leave { s with result := .error e, input }
  | (.eof, input) => .leave { s with result := .ok s.delivery.body, input }
  | (.data received, input) =>
    match deliver options none s.delivery received with
    | (some e, delivery) => .leave { s with result := .error e, input, delivery }
    | (none, delivery) => .again { s with input, delivery }

/-- The loop reads from the connection. -/
lemma untilEofStep_decreases (options : HttpReadOptions) :
    Loop.Decreases (untilEofStep options) fun s => s.input.reads.length := by
  intro s s' h
  unfold untilEofStep at h
  split at h
  · cases h
  · cases h
  · rename_i received input hread
    split at h
    · cases h
    · cases h
      exact (Source.reads_read hread).2

/-- A body that ends with the connection: first what is buffered, then what arrives. -/
def readUntilEof (options : HttpReadOptions) (s : ChunkState) : BodyRead :=
  match deliver options none s.delivery s.input.buffer with
  | (some e, delivery) =>
    { s with result := .error e, input := s.input.consume s.input.buffer.length, delivery }
  | (none, delivery) =>
    Loop.run (untilEofStep options) (fun s => s.input.reads.length)
      (untilEofStep_decreases options)
      { s with input := s.input.consume s.input.buffer.length, delivery }

/-- A body of `total` bytes. -/
def readFixed (options : HttpReadOptions) (total : ℕ) (s : ChunkState) : BodyRead :=
  if options.maxBodySize < total then
    { s with
      result := .error { code := .bodyTooLarge, message := "HTTP body exceeds configured limit" } }
  else
    match readPayload options (some total) "Truncated HTTP body"
        { remaining := total, input := s.input, delivery := s.delivery } with
    | (some e, input, delivery) => { s with result := .error e, input, delivery }
    | (none, input, delivery) => { s with result := .ok delivery.body, input, delivery }

/-- `read_body`: no body, chunks, a length, or everything up to the end, in this order of
precedence. -/
def readBody (options : HttpReadOptions) (head : ParsedHead) (bodyUntilEof noBody : Bool)
    (input : Input) : BodyRead :=
  let s : ChunkState := { headers := head.headers, input, delivery := {} }
  if noBody then { s with result := .ok [] }
  else if head.chunked then readChunked options s
  else
    match head.contentLength with
    | some total => readFixed options total s
    | none => if bodyUntilEof then readUntilEof options s else { s with result := .ok [] }

/-! ### What is consumed and delivered -/

/-- A body of known length that was read: exactly its bytes were consumed and delivered.  No byte
behind the body is touched: what follows on the connection is left to the next message. -/
theorem readFixed_sound {options : HttpReadOptions} {total : ℕ} {s : ChunkState} {body : Bytes}
    (h : (readFixed options total s).result = .ok body) :
    ∃ data, data.length = total ∧ data.length ≤ options.maxBodySize ∧
      s.input.Took data (readFixed options total s).input ∧
      Delivered options s.delivery data (readFixed options total s).delivery ∧
      body = (readFixed options total s).delivery.body ∧
      (readFixed options total s).headers = s.headers := by
  unfold readFixed at h ⊢
  by_cases hmax : options.maxBodySize < total
  · rw [if_pos hmax] at h
    cases h
  · rw [if_neg hmax] at h ⊢
    rcases hp : readPayload options (some total) "Truncated HTTP body"
        { remaining := total, input := s.input, delivery := s.delivery } with ⟨e, input, d⟩
    rw [hp] at h
    cases e with
    | some e => cases h
    | none =>
      cases h
      obtain ⟨data, hlen, htook, hdel⟩ := readPayload_sound hp
      simp only at hlen
      exact ⟨data, hlen, by omega, htook, hdel, rfl, rfl⟩

/-- A body of known length that is there is read in buffered mode.  The cuts do not matter here, for
a length tells the reader where the body ends without looking at its bytes. -/
theorem readFixed_complete {options : HttpReadOptions} (hbuf : options.Buffered) {s : ChunkState}
    {data rest : Bytes} (havail : s.input.available = data ++ rest)
    (hlimit : s.delivery.received + data.length ≤ options.maxBodySize) :
    ∃ input d, readFixed options data.length s =
        { result := .ok (s.delivery.body ++ data), headers := s.headers, input, delivery := d } ∧
      s.input.Took data input := by
  have hpayload := @readPayload_complete options hbuf (some data.length) "Truncated HTTP body"
    ⟨data.length, s.input, s.delivery⟩ data rest havail rfl hlimit
  obtain ⟨input, d, hread, htook, hdel⟩ := hpayload
  refine ⟨input, d, ?_, htook⟩
  rw [readFixed, if_neg (by omega), hread]
  simp only [hdel.body hbuf.onData hbuf.onDataAsync]

/-- The buffered mode with the given limits. -/
def bufferedOptions (maxHeaderSize maxBodySize : ℕ) : HttpReadOptions := { maxHeaderSize, maxBodySize }

/-- The buffered mode has no callbacks. -/
lemma bufferedOptions_buffered (maxHeaderSize maxBodySize : ℕ) :
    (bufferedOptions maxHeaderSize maxBodySize).Buffered :=
  ⟨rfl, rfl, rfl, fun _ => rfl, fun _ => rfl⟩

/-! ### Fragmentation -/

/-- A way of cutting `w` into bytes that are already buffered and nonempty reads.  Empty reads are
excluded, because a transport that returns no bytes has ended. -/
structure Cut (w : Bytes) where
  buffered : Bytes
  reads : List Bytes
  nonempty : ∀ r ∈ reads, r ≠ []
  whole : buffered ++ reads.flatten = w

/-- The input a cut describes: the reads are followed by the end of the stream. -/
def Cut.input {w : Bytes} (cut : Cut w) : Input where
  buffer := cut.buffered
  reads := cut.reads.map .data ++ [.eof]

/-- Both reads succeed with the same body, headers and remainder, or both fail.  The errors may
differ, because a cut decides which of several faults is met first. -/
def SameOutcome (r r' : BodyRead) : Prop :=
  (∃ body, r.result = .ok body ∧ r'.result = .ok body ∧ r.headers = r'.headers ∧
    r.input.available = r'.input.available) ∨
  ∃ e e', r.result = .error e ∧ r'.result = .error e'

/-- Everything of `w` is there to read, whatever the cut. -/
lemma Cut.available {w : Bytes} (cut : Cut w) : cut.input.available = w := by
  have harriving : ∀ reads : List Bytes,
      arriving (reads.map .data ++ [(.eof : Event UInt8 ErrorInfo)]) = reads.flatten := by
    intro reads
    induction reads with
    | nil => rfl
    | cons r reads ih => simp [arriving, ih]
  rw [Source.available, Cut.input, harriving, cut.whole]

/-- The cut with everything in the buffer. -/
def Cut.single (w : Bytes) : Cut w where
  buffered := w
  reads := []
  nonempty := by simp
  whole := by simp

/-- The cut after the first `n` bytes. -/
def Cut.after (w : Bytes) (n : ℕ) (hn : n < w.length) : Cut w where
  buffered := w.take n
  reads := [w.drop n]
  nonempty := by simpa using hn
  whole := by simp

section

variable {maxHeaderSize maxBodySize : ℕ} {head : ParsedHead}

/-- The chunked branch of `read_body`. -/
lemma readBody_of_chunked {options : HttpReadOptions} (h : head.chunked = true) (untilEof : Bool)
    (input : Input) :
    readBody options head untilEof false input =
      readChunked options { headers := head.headers, input, delivery := {} } := by
  simp [readBody, h]

/-- A chunked body that was read in buffered mode was a valid frame within the limits. -/
lemma chunkedTaken_of_ok (h : head.chunked = true) {untilEof : Bool} {input : Input} {body : Bytes}
    (hr : (readBody (bufferedOptions maxHeaderSize maxBodySize) head untilEof false input).result =
      .ok body) :
    ∃ (frame : ChunkedFrame) (fields : Headers), frame.Valid maxHeaderSize fields ∧
      frame.payload.length ≤ maxBodySize ∧
      body = frame.payload ∧
      (readBody (bufferedOptions maxHeaderSize maxBodySize) head untilEof false input).headers =
        head.headers ++ fields ∧
      input.Took frame.encode
        (readBody (bufferedOptions maxHeaderSize maxBodySize) head untilEof false input).input := by
  rw [readBody_of_chunked h] at hr ⊢
  obtain ⟨frame, fields, htaken⟩ := readChunked_sound hr
  have hbody := htaken.delivered.body rfl rfl
  have hreceived := htaken.delivered.received
  have hlimit := htaken.delivered.limit (Nat.zero_le _)
  rw [htaken.result] at hr
  refine ⟨frame, fields, htaken.valid, ?_, ?_, htaken.headers, htaken.took⟩
  · rw [hreceived] at hlimit
    simpa [bufferedOptions] using hlimit
  · cases hr
    rw [hbody]
    simp

/-- A valid frame within the limits is read in buffered mode, unless a bare LF is cut off. -/
lemma readBody_of_frame (h : head.chunked = true) (untilEof : Bool) {input : Input}
    {frame : ChunkedFrame} {fields : Headers} {rest : Bytes}
    (hvalid : frame.Valid maxHeaderSize fields) (hlimit : frame.payload.length ≤ maxBodySize)
    (havail : input.available = frame.encode ++ rest)
    (hcut : Uncut frame.trailers frame.encode input) :
    ∃ r, readBody (bufferedOptions maxHeaderSize maxBodySize) head untilEof false input = r ∧
      r.result = .ok frame.payload ∧ r.headers = head.headers ++ fields ∧
      r.input.available = rest := by
  rw [readBody_of_chunked h]
  obtain ⟨-, hheaders, htook, hdel, hresult⟩ := readChunked_complete
    (s := { headers := head.headers, input, delivery := {} })
    (bufferedOptions_buffered maxHeaderSize maxBodySize) hvalid havail hcut
    (by simpa [bufferedOptions] using hlimit)
  refine ⟨_, rfl, ?_, hheaders, ?_⟩
  · rw [hresult, hdel.body rfl rfl]
    rfl
  · exact List.append_cancel_left (htook.available.symm.trans havail)

end

/-- Chunked decoding and fragmentation.  All cuts of `w` lead to the same outcome exactly when `w`
does not start with an acceptable frame that has a bare LF in a trailer line: such a frame is
accepted when it has been received whole, and rejected when a read ends with the LF. -/
theorem readBody_chunked_cuts (w : Bytes) (maxHeaderSize maxBodySize : ℕ) (head : ParsedHead)
    (untilEof : Bool) (h : head.chunked = true) :
    (∀ cut cut' : Cut w, SameOutcome
      (readBody (bufferedOptions maxHeaderSize maxBodySize) head untilEof false cut.input)
      (readBody (bufferedOptions maxHeaderSize maxBodySize) head untilEof false cut'.input)) ↔
    ∀ (frame : ChunkedFrame) (fields : Headers) (rest : Bytes),
      w = frame.encode ++ rest → frame.Valid maxHeaderSize fields →
      frame.payload.length ≤ maxBodySize → ∀ trailer ∈ frame.trailers, lf ∉ trailer := by
  constructor
  · intro hsame frame fields rest hw hvalid hlimit trailer htrailer hlf
    obtain ⟨before, after, htrailers⟩ := List.append_of_mem htrailer
    obtain ⟨line, tail, rfl⟩ := List.append_of_mem hlf
    let u := frame.chunks.flatMap ChunkedFrame.encodeChunk ++
      (frame.last ++ (crlf ++ (lineBytes before ++ (line ++ [lf]))))
    have hu : w = u ++ (tail ++ (crlf ++ (lineBytes after ++ (crlf ++ rest)))) := by
      rw [hw, ChunkedFrame.encode, htrailers]
      simp [u]
    have hlen : u.length < w.length := by
      rw [hu]
      simp only [List.length_append, crlf_length]
      omega
    -- the two cuts that differ: everything at once, and a read that ends with the LF
    obtain ⟨r, hr, hok, -, -⟩ := readBody_of_frame h untilEof hvalid hlimit
      ((Cut.single w).available.trans hw)
      (Or.inr (by rw [hw]; simp [Cut.single, Cut.input]))
    have herror : (readBody (bufferedOptions maxHeaderSize maxBodySize) head untilEof false
        (Cut.after w u.length hlen).input).result =
          .error (protocolError "Bare LF in HTTP message") := by
      rw [readBody_of_chunked h]
      refine readChunked_bareLf (bufferedOptions_buffered _ _) hvalid htrailers ?_
        (by simpa [bufferedOptions] using hlimit)
      simp only [Cut.after, Cut.input]
      conv_lhs => rw [hu]
      exact List.take_left
    rcases hsame (Cut.single w) (Cut.after w u.length hlen) with ⟨body, -, hbody, -⟩ | ⟨e, _, he, -⟩
    · rw [herror] at hbody
      cases hbody
    · rw [hr, hok] at he
      cases he
  · intro hnolf cut cut'
    have hagree : ∀ c c' : Cut w, ∀ body,
        (readBody (bufferedOptions maxHeaderSize maxBodySize) head untilEof false c.input).result =
          .ok body → SameOutcome
            (readBody (bufferedOptions maxHeaderSize maxBodySize) head untilEof false c.input)
            (readBody (bufferedOptions maxHeaderSize maxBodySize) head untilEof false c'.input) := by
      intro c c' body hbody
      obtain ⟨frame, fields, hvalid, hlimit, rfl, hheaders, htook⟩ := chunkedTaken_of_ok h hbody
      have hw := c.available.symm.trans htook.available
      obtain ⟨r, hr, hok, hheaders', hrest⟩ := readBody_of_frame h untilEof hvalid hlimit
        (c'.available.trans hw) (Or.inl (hnolf frame fields _ hw hvalid hlimit))
      refine Or.inl ⟨frame.payload, hbody, ?_, ?_, ?_⟩
      · rw [hr, hok]
      · rw [hheaders, hr, hheaders']
      · rw [hr, hrest]
    cases hr : (readBody (bufferedOptions maxHeaderSize maxBodySize) head untilEof false
        cut.input).result with
    | ok body => exact hagree cut cut' body hr
    | error e =>
      cases hr' : (readBody (bufferedOptions maxHeaderSize maxBodySize) head untilEof false
          cut'.input).result with
      | ok body =>
        rcases hagree cut' cut body hr' with ⟨b, -, hb, -⟩ | ⟨e1, e2, he, -⟩
        · rw [hr] at hb
          cases hb
        · rw [hr'] at he
          cases he
      | error e' => exact Or.inr ⟨e, e', hr, hr'⟩

/-- The head of a message whose only field says that it is chunked. -/
def chunkedHead : ParsedHead := { startLine := [], chunked := true }

/-- An empty chunked body with the trailer `a: b` LF. -/
def bareLfBody : Bytes := bytes "0\r\na: b\n\r\n\r\n"

/-- The cuts of an empty body without trailers agree, and those of a trailer with a bare LF do not. -/
theorem readBody_chunked_cuts_agree :
    (∀ cut cut' : Cut (bytes "0\r\n\r\n"), SameOutcome
      (readBody (bufferedOptions 16 0) chunkedHead false false cut.input)
      (readBody (bufferedOptions 16 0) chunkedHead false false cut'.input)) ∧
    ¬ ∀ cut cut' : Cut bareLfBody, SameOutcome
      (readBody (bufferedOptions 64 64) chunkedHead false false cut.input)
      (readBody (bufferedOptions 64 64) chunkedHead false false cut'.input) := by
  constructor
  · refine (readBody_chunked_cuts _ 16 0 chunkedHead false rfl).mpr ?_
    intro frame fields rest hw hvalid hlimit trailer htrailer
    -- a trailer line would need more than these five bytes
    have hlen : 5 = (frame.encode ++ rest).length := congrArg List.length hw
    obtain ⟨before, after, htrailers⟩ := List.append_of_mem htrailer
    rw [ChunkedFrame.encode, htrailers, lineBytes_append, lineBytes_cons] at hlen
    simp only [List.length_append, crlf_length] at hlen
    omega
  · intro hagree
    have hvalid : ChunkedFrame.Valid 64 ⟨[], bytes "0", [bytes "a: b\n"]⟩ [(bytes "a", bytes "b")] :=
      ⟨by simp, ⟨⟨bytes "0", [], rfl, rfl, .inl rfl⟩, by decide⟩,
        ⟨.cons rfl .nil, by simp; decide, by decide⟩⟩
    exact (readBody_chunked_cuts bareLfBody 64 64 chunkedHead false rfl).mp hagree
      ⟨[], bytes "0", [bytes "a: b\n"]⟩ _ [] rfl hvalid (by decide) _ List.mem_cons_self (by decide)

/-- The trailer value with a bare LF is accepted from one buffer and rejected from two. -/
theorem readBody_bareLf_cuts_differ :
    ¬ ∀ (w : Bytes) (maxHeaderSize maxBodySize : ℕ) (head : ParsedHead) (untilEof : Bool),
      head.chunked = true → ∀ cut cut' : Cut w, SameOutcome
        (readBody (bufferedOptions maxHeaderSize maxBodySize) head untilEof false cut.input)
        (readBody (bufferedOptions maxHeaderSize maxBodySize) head untilEof false cut'.input) := by
  intro h
  have hwhole : (readBody (bufferedOptions 64 64) chunkedHead false false
      (Cut.single bareLfBody).input).result = .ok [] := rfl
  have hcut : (readBody (bufferedOptions 64 64) chunkedHead false false
      (Cut.after bareLfBody 8 (by decide)).input).result =
        .error (protocolError "Bare LF in HTTP message") := rfl
  rcases h bareLfBody 64 64 chunkedHead false rfl (Cut.single bareLfBody)
    (Cut.after bareLfBody 8 (by decide)) with ⟨body, -, hbody, -⟩ | ⟨e, _, he, -⟩
  · rw [hcut] at hbody
    cases hbody
  · rw [hwhole] at he
    cases he

end Chhttp
