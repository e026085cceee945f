import Chhttp.Common.Text

/-!
# Base64

`base64Encode`, `Base64Encoder` and `base64Decode` of the source.  The encoders write blocks into a
string that they have sized before, and nothing checks these writes; here `store` does, and
`fill` is what the string contains before.

`encoded` is the encoding as a recursion on triples.  The one-shot encoder computes it, and after any
updates the incremental one has written the encoding of all complete triples so far, whatever `fill`
is (`update_eq`).
-/

namespace Chhttp

/-! ### The source -/

/-- `alphabet`. -/
def base64Alphabet : Bytes :=
  bytes "ABCDEFGHIJKLMNOPQRSTUVWXYZabcdefghijklmnopqrstuvwxyz0123456789+/"

/-- A character of the alphabet. -/
def base64Char (n : ℕ) : UInt8 := base64Alphabet.getD n 0

/-- `'='`. -/
def padChar : UInt8 := 0x3d

/-- The four characters of a triple. -/
def encodeTriple (first second third : UInt8) : Bytes :=
  let bits := first.toNat * 0x10000 + second.toNat * 0x100 + third.toNat
  [base64Char (bits / 2 ^ 18 % 0x40), base64Char (bits / 2 ^ 12 % 0x40),
    base64Char (bits / 2 ^ 6 % 0x40), base64Char (bits % 0x40)]

/-- What goes wrong in an encoder: a call after `finish`, or an access out of bounds.  The first is
the error that the source returns; the second one would be undefined behaviour there, and the
theorems show that it does not happen. -/
inductive Base64Fault where
  | logicError
  | outOfBounds
  deriving DecidableEq

/-- Write into a string. -/
def store (buffer : Bytes) (output : ℕ) (data : Bytes) : Except Base64Fault Bytes :=
  if output + data.length ≤ buffer.length then
    .ok (buffer.take output ++ data ++ buffer.drop (output + data.length))
  else .error .outOfBounds

/-- `base64_encode_blocks`, from a position of the string on. -/
def base64EncodeBlocks : Bytes → Bytes → ℕ → Except Base64Fault Bytes
  | first :: second :: third :: rest, buffer, output => do
    let buffer ← store buffer output (encodeTriple first second third)
    base64EncodeBlocks rest buffer (output + 4)
  | [], buffer, _ => .ok buffer
  | _, _, _ => .error .outOfBounds

/-- The incomplete triple at the end of `base64_encode`. -/
def encodeTail (tail buffer : Bytes) (output : ℕ) : Except Base64Fault Bytes := do
  let buffer ← base64EncodeBlocks (tail ++ List.replicate (3 - tail.length) 0) buffer output
  let buffer ← store buffer (buffer.length - 1) [padChar]
  if tail.length = 1 then store buffer (buffer.length - 2) [padChar] else .ok buffer

/-- `base64_encode`.  The source sizes its buffer first and writes into it by index; `fill` is what
the buffer holds before, and an index outside of it is a fault. -/
def base64Encode (value : Bytes) (fill : UInt8 := 0) : Except Base64Fault Bytes := do
  let groups := value.length / 3 + if value.length % 3 ≠ 0 then 1 else 0
  let complete := value.length - value.length % 3
  let buffer ← base64EncodeBlocks (value.take complete) (List.replicate (groups * 4) fill) 0
  if complete ≠ value.length then encodeTail (value.drop complete) buffer (complete / 3 * 4)
  else .ok buffer

/-- The text that `base64_encode` returns, which stays within its buffer (`base64Text_eq`). -/
def base64Text (value : Bytes) : Bytes := (base64Encode value).toOption.getD []

/-- `Base64Encoder`.  The source keeps at most two bytes that do not make a triple yet, in an array
with a counter; `pending` are the bytes of `pending_` below `pending_size_`. -/
structure Base64Encoder where
  pending : Bytes := []
  finished : Bool := false

namespace Base64Encoder

/-- `Base64Encoder::update`. -/
def update (e : Base64Encoder) (data : Bytes) (fill : UInt8 := 0) :
    Except Base64Fault (Bytes × Base64Encoder) :=
  if e.finished then .error .logicError
  else do
    let groups := data.length / 3 + (data.length % 3 + e.pending.length) / 3
    let buffer := List.replicate (groups * 4) fill
    let cursor := min (3 - e.pending.length) data.length
    let pending := e.pending ++ data.take cursor
    let full := pending.length == 3
    let buffer ← if full then base64EncodeBlocks pending buffer 0 else .ok buffer
    let destination := if full then 4 else 0
    let pending := if full then [] else pending
    let complete := (data.length - cursor) / 3 * 3
    let buffer ←
      if complete ≠ 0 then
        base64EncodeBlocks ((data.drop cursor).take complete) buffer destination
      else .ok buffer
    .ok (buffer, { e with pending := pending ++ data.drop (cursor + complete) })

/-- `Base64Encoder::finish`: what is pending, with its padding; a second call does nothing. -/
def finish (e : Base64Encoder) : Bytes × Base64Encoder :=
  if e.finished then ([], e)
  else
    match e.pending with
    | [] => ([], { e with finished := true })
    | [first] =>
      ([base64Char (first.toNat / 4), base64Char (first.toNat % 4 * 16), padChar, padChar],
        { pending := [], finished := true })
    | first :: second :: _ =>
      ([base64Char (first.toNat / 4),
          base64Char (first.toNat % 4 * 16 + second.toNat / 16),
          base64Char (second.toNat % 16 * 4), padChar],
        { pending := [], finished := true })

/-- A list of spans passed to `update` one after the other. -/
def updateAll (fill : UInt8) : List Bytes → Base64Encoder → Except Base64Fault (Bytes × Base64Encoder)
  | [], e => .ok ([], e)
  | data :: spans, e => do
    let (output, e) ← e.update data fill
    let (rest, e) ← updateAll fill spans e
    .ok (output ++ rest, e)

end Base64Encoder

/-- `base64_encoded_size`: the number of characters, or none where it does not fit into 64 bits. -/
def base64EncodedSize (inputSize : ℕ) : Option ℕ :=
  if uint64Limit - 1 - 2 < inputSize then none
  else if (uint64Limit - 1) / 4 < (inputSize + 2) / 3 then none
  else some ((inputSize + 2) / 3 * 4)

/-- An entry of the table `decode`: `0xff` for what is not in the alphabet. -/
def base64Value (c : UInt8) : ℕ := if c ∈ base64Alphabet then base64Alphabet.idxOf c else 0xff

/-- The loop over the last characters of a quartet, with the bits and the padding so far. -/
def decodePadded (last : Bool) : ℕ → Bytes → ℕ → ℕ → Result (ℕ × ℕ)
  | _, [], bits, padding => .ok (bits, padding)
  | index, ch :: rest, bits, padding =>
    if ch = padChar then
      if index < 2 ∨ !last then .error (protocolError "Invalid Base64 padding")
      else decodePadded last (index + 1) rest (bits * 0x40) (padding + 1)
    else if base64Value ch = 0xff ∨ padding ≠ 0 then
      .error (protocolError "Invalid Base64 character")
    else decodePadded last (index + 1) rest (bits * 0x40 + base64Value ch) padding

/-- One iteration of `base64_decode`. -/
def decodeQuartet (last : Bool) (c0 c1 c2 c3 : UInt8) : Result Bytes :=
  let a := base64Value c0
  let b := base64Value c1
  let c := base64Value c2
  let d := base64Value c3
  if a ||| b ||| c ||| d < 0x40 then
    .ok [UInt8.ofNat (a * 4 + b / 16), UInt8.ofNat (b * 16 + c / 4), UInt8.ofNat (c * 0x40 + d)]
  else
    match decodePadded last 0 [c0, c1, c2, c3] 0 0 with
    | .error e => .error e
    | .ok (bits, padding) =>
      .ok (UInt8.ofNat (bits / 2 ^ 16) ::
        ((if padding < 2 then [UInt8.ofNat (bits / 2 ^ 8)] else []) ++
          if padding = 0 then [UInt8.ofNat bits] else []))

/-- The loop of `base64_decode`. -/
def decodeQuartets : Bytes → Result Bytes
  | c0 :: c1 :: c2 :: c3 :: rest =>
    match decodeQuartet rest.isEmpty c0 c1 c2 c3 with
    | .error e => .error e
    | .ok output =>
      match decodeQuartets rest with
      | .error e => .error e
      | .ok more => .ok (output ++ more)
  | _ => .ok []

/-- `base64_decode`: quartets, of which only the last one may have padding. -/
def base64Decode (value : Bytes) : Result Bytes :=
  if value.length % 4 ≠ 0 then .error (protocolError "Invalid Base64 length")
  else decodeQuartets value

/-! ### Encoding -/

/-- The characters of the complete triples. -/
def encodeTriples : Bytes → Bytes
  | first :: second :: third :: rest => encodeTriple first second third ++ encodeTriples rest
  | _ => []

/-- What is left behind the complete triples. -/
def remainder : Bytes → Bytes
  | _ :: _ :: _ :: rest => remainder rest
  | value => value

/-- The encoding.  It is what spans of bytes come to, however they are cut. -/
def encoded (value : Bytes) : Bytes :=
  encodeTriples value ++ (Base64Encoder.finish { pending := remainder value }).1

/-- Fewer than three bytes are no triple. -/
lemma short_of_no_triple {value : Bytes}
    (h : ∀ first second third rest, value = first :: second :: third :: rest → False) :
    value.length < 3 := by
  match value, h with
  | [], _ => decide
  | [_], _ => simp
  | [_, _], _ => simp
  | first :: second :: third :: rest, h => exact (h first second third rest rfl).elim

/-- Less than a triple is all remainder. -/
lemma encode_of_short {value : Bytes} (h : value.length < 3) :
    encodeTriples value = [] ∧ remainder value = value := by
  match value, h with
  | [], _ => exact ⟨rfl, rfl⟩
  | [_], _ => exact ⟨rfl, rfl⟩
  | [_, _], _ => exact ⟨rfl, rfl⟩

/-- Each triple becomes four characters. -/
lemma length_encodeTriples (value : Bytes) : (encodeTriples value).length = value.length / 3 * 4 := by
  induction value using encodeTriples.induct with
  | case1 first second third rest ih =>
    rw [encodeTriples, List.length_append, ih]
    simp only [encodeTriple, List.length_cons, List.length_nil]
    omega
  | case2 value h =>
    have hlen := short_of_no_triple h
    rw [(encode_of_short hlen).1, List.length_nil]
    omega

/-- The remainder is what does not make a triple. -/
lemma length_remainder (value : Bytes) : (remainder value).length = value.length % 3 := by
  induction value using remainder.induct with
  | case1 first second third rest ih =>
    rw [remainder, ih]
    simp only [List.length_cons]
    omega
  | case2 value h =>
    have hlen := short_of_no_triple h
    rw [(encode_of_short hlen).2]
    omega

/-- What comes behind a text continues its remainder. -/
lemma encodeTriples_append (u v : Bytes) :
    encodeTriples (u ++ v) = encodeTriples u ++ encodeTriples (remainder u ++ v) ∧
      remainder (u ++ v) = remainder (remainder u ++ v) := by
  induction u using encodeTriples.induct with
  | case1 first second third rest ih =>
    simp only [List.cons_append, encodeTriples, remainder, ih.1, ih.2, List.append_assoc, and_self]
  | case2 u h =>
    obtain ⟨hencode, hrest⟩ := encode_of_short (short_of_no_triple h)
    rw [hencode, hrest]
    exact ⟨rfl, rfl⟩

/-- Complete triples leave nothing. -/
lemma remainder_of_complete {u : Bytes} (h : u.length % 3 = 0) : remainder u = [] :=
  List.eq_nil_of_length_eq_zero ((length_remainder u).trans h)

/-- Behind complete triples the encoding starts anew. -/
lemma encode_append_of_complete {u : Bytes} (h : u.length % 3 = 0) (v : Bytes) :
    encodeTriples (u ++ v) = encodeTriples u ++ encodeTriples v ∧
      remainder (u ++ v) = remainder v := by
  have happend := encodeTriples_append u v
  rwa [remainder_of_complete h, List.nil_append] at happend

/-- The characters of a triple, from its bytes. -/
lemma encodeTriple_eq (first second third : UInt8) :
    encodeTriple first second third =
      [base64Char (first.toNat / 4), base64Char (first.toNat % 4 * 16 + second.toNat / 16),
        base64Char (second.toNat % 16 * 4 + third.toNat / 64), base64Char (third.toNat % 64)] := by
  have h1 : first.toNat < 256 := UInt8.toNat_lt_size first
  have h2 : second.toNat < 256 := UInt8.toNat_lt_size second
  have h3 : third.toNat < 256 := UInt8.toNat_lt_size third
  generalize hbits : first.toNat * 0x10000 + second.toNat * 0x100 + third.toNat = bits
  rw [encodeTriple, hbits, show bits / 2 ^ 18 % 0x40 = first.toNat / 4 by omega,
    show bits / 2 ^ 12 % 0x40 = first.toNat % 4 * 16 + second.toNat / 16 by omega,
    show bits / 2 ^ 6 % 0x40 = second.toNat % 16 * 4 + third.toNat / 64 by omega,
    show bits % 0x40 = third.toNat % 64 by omega]

/-! ### Writing -/

/-- A part of the string is replaced. -/
lemma store_eq {before old after data : Bytes} (h : old.length = data.length) :
    store (before ++ old ++ after) before.length data = .ok (before ++ data ++ after) := by
  have hfits : before.length + data.length ≤ (before ++ old ++ after).length := by
    simp only [List.length_append]
    omega
  have hlen : before.length + data.length = (before ++ old).length := by
    rw [List.length_append, h]
  rw [store, if_pos hfits, hlen, List.drop_left, List.append_assoc before old, List.take_left]

/-- The unchecked writer stays within a part of the string that has the right size, and fills it. -/
lemma base64EncodeBlocks_eq {value before middle after : Bytes} (h : value.length % 3 = 0)
    (hmiddle : middle.length = value.length / 3 * 4) :
    base64EncodeBlocks value (before ++ middle ++ after) before.length =
      .ok (before ++ encodeTriples value ++ after) := by
  induction value using encodeTriples.induct generalizing before middle with
  | case1 first second third rest ih =>
    simp only [List.length_cons] at h hmiddle
    have htriple : (encodeTriple first second third).length = 4 := rfl
    have hfour : (middle.take 4).length = (encodeTriple first second third).length := by
      rw [List.length_take, htriple]
      omega
    have hrest : (middle.drop 4).length = rest.length / 3 * 4 := by
      rw [List.length_drop]
      omega
    have hsplit : before ++ middle ++ after =
        before ++ middle.take 4 ++ (middle.drop 4 ++ after) := by
      rw [List.append_assoc, List.append_assoc, ← List.append_assoc (middle.take 4),
        List.take_append_drop]
    have hih := @ih (before ++ encodeTriple first second third) (middle.drop 4) (by omega) hrest
    rw [List.length_append, htriple] at hih
    rw [base64EncodeBlocks, hsplit, store_eq hfour]
    change base64EncodeBlocks rest _ _ = _
    rw [← List.append_assoc, hih, encodeTriples, List.append_assoc before]
  | case2 value hvalue =>
    have hshort := short_of_no_triple hvalue
    obtain rfl : value = [] := List.eq_nil_of_length_eq_zero (by omega)
    obtain rfl : middle = [] := List.eq_nil_of_length_eq_zero (by rw [hmiddle]; rfl)
    rfl

/-- The blocks at the start of a string. -/
lemma base64EncodeBlocks_start {value middle after : Bytes} (h : value.length % 3 = 0)
    (hmiddle : middle.length = value.length / 3 * 4) :
    base64EncodeBlocks value (middle ++ after) 0 = .ok (encodeTriples value ++ after) :=
  @base64EncodeBlocks_eq value [] middle after h hmiddle

/-- A string that was sized for complete triples and no more. -/
lemma replicate_groups (fill : UInt8) (m n : ℕ) :
    List.replicate ((m + n) * 4) fill = List.replicate (m * 4) fill ++ List.replicate (n * 4) fill := by
  rw [Nat.add_mul, List.replicate_add]

/-- The incomplete triple of the one-shot encoder.  It is written into the space behind the whole
triples, which is why the output is cut in three. -/
lemma encodeTail_eq {tail before middle : Bytes} (hpos : tail ≠ []) (hshort : tail.length < 3)
    (hmiddle : middle.length = 4) :
    encodeTail tail (before ++ middle) before.length =
      .ok (before ++ (Base64Encoder.finish { pending := tail }).1) := by
  have hblocks : ∀ triple : Bytes, triple.length = 3 →
      base64EncodeBlocks triple (before ++ middle) before.length =
        .ok (before ++ encodeTriples triple) := by
    intro triple htriple
    have hwrite := @base64EncodeBlocks_eq triple before middle [] (by rw [htriple])
      (by rw [hmiddle, htriple])
    rwa [List.append_nil, List.append_nil] at hwrite
  have hlast : ∀ w x y z : UInt8, store (before ++ [w, x, y, z])
      ((before ++ [w, x, y, z]).length - 1) [padChar] = .ok (before ++ [w, x, y, padChar]) := by
    intro w x y z
    have hstore := @store_eq (before ++ [w, x, y]) [z] [] [padChar] rfl
    simpa using hstore
  have hbefore : ∀ w x y z : UInt8, store (before ++ [w, x, y, z])
      ((before ++ [w, x, y, z]).length - 2) [padChar] = .ok (before ++ [w, x, padChar, z]) := by
    intro w x y z
    have hstore := @store_eq (before ++ [w, x]) [y] [z] [padChar] rfl
    simpa using hstore
  match tail, hpos, hshort with
  | [first], _, _ =>
    have htriple : encodeTriples ([first] ++ List.replicate (3 - [first].length) 0) = _ :=
      encodeTriple_eq first 0 0
    rw [encodeTail, hblocks _ rfl, htriple]
    change (store _ _ _ >>= _) = _
    rw [hlast]
    change store _ _ _ = _
    rw [hbefore]
    rfl
  | [first, second], _, _ =>
    have htriple : encodeTriples ([first, second] ++ List.replicate (3 - [first, second].length) 0) =
        _ := encodeTriple_eq first second 0
    rw [encodeTail, hblocks _ rfl, htriple]
    change (store _ _ _ >>= _) = _
    rw [hlast]
    rfl

/-- `base64_encode` writes the encoding. -/
lemma base64Encode_eq (value : Bytes) (fill : UInt8) :
    base64Encode value fill = .ok (encoded value) := by
  have hlen : (value.take (value.length - value.length % 3)).length =
      value.length - value.length % 3 := by
    rw [List.length_take]
    omega
  have hmod : (value.take (value.length - value.length % 3)).length % 3 = 0 := by omega
  have hsplit := List.take_append_drop (value.length - value.length % 3) value
  unfold base64Encode
  dsimp only
  generalize hcomplete : value.take (value.length - value.length % 3) = complete at *
  generalize htail : value.drop (value.length - value.length % 3) = tail at *
  have htailLen : tail.length = value.length % 3 := by
    rw [← htail, List.length_drop]
    omega
  obtain ⟨hencode, hrest⟩ := encode_append_of_complete hmod tail
  obtain ⟨hnone, hkept⟩ := @encode_of_short tail (by omega)
  have hencoded : encoded value =
      encodeTriples complete ++ (Base64Encoder.finish { pending := tail }).1 := by
    rw [encoded, ← hsplit, hencode, hrest, hnone, hkept, List.append_nil]
  have hblocks := @base64EncodeBlocks_start complete
    (List.replicate (complete.length / 3 * 4) fill)
    (List.replicate ((if value.length % 3 ≠ 0 then 1 else 0) * 4) fill) hmod
    List.length_replicate
  rw [← replicate_groups, show complete.length / 3 = value.length / 3 by omega] at hblocks
  rw [hblocks, hencoded, ← hlen]
  change (if complete.length ≠ value.length then encodeTail _ _ _ else _) = _
  have hposition : complete.length / 3 * 4 = (encodeTriples complete).length :=
    (length_encodeTriples complete).symm
  split_ifs with hne hzero
  · rw [hposition]
    apply encodeTail_eq
    · rintro rfl
      rw [List.length_nil] at htailLen
      omega
    · omega
    · rfl
  · omega
  · omega
  · obtain rfl : tail = [] := List.eq_nil_of_length_eq_zero (by omega)
    rfl

/-- The text that `base64_encode` returns is the encoding. -/
lemma base64Text_eq (value : Bytes) : base64Text value = encoded value := by
  rw [base64Text, base64Encode_eq]
  rfl

namespace Base64Encoder

/-- `update` writes the triples that it completes, and keeps the rest.  Fewer than three bytes are
kept, so the next call completes at most one triple with them. -/
lemma update_eq {e : Base64Encoder} (hfinished : e.finished = false) (hpending : e.pending.length < 3)
    (data : Bytes) (fill : UInt8) :
    e.update data fill =
      .ok (encodeTriples (e.pending ++ data), { pending := remainder (e.pending ++ data) }) := by
  unfold update
  rw [if_neg (by rw [hfinished]; exact Bool.false_ne_true)]
  dsimp only
  -- without a complete triple the block only joins the pending bytes
  by_cases hfull : e.pending.length + data.length < 3
  · have hcursor : min (3 - e.pending.length) data.length = data.length := by omega
    have hgroups : data.length / 3 + (data.length % 3 + e.pending.length) / 3 = 0 := by omega
    have hthree : ((e.pending ++ data).length == 3) = false := by
      rw [beq_eq_false_iff_ne, List.length_append]
      omega
    obtain ⟨hencode, hrest⟩ := @encode_of_short (e.pending ++ data)
      (by rwa [List.length_append])
    rw [hcursor, hgroups, List.take_length, hthree, Nat.sub_self, hencode, hrest, hfinished]
    simp [bind, Except.bind]
  · have hcursor : min (3 - e.pending.length) data.length = 3 - e.pending.length := by omega
    rw [hcursor]
    -- otherwise it falls into three parts: what completes the triple, whole triples, and the rest
    generalize hhead : e.pending ++ data.take (3 - e.pending.length) = head
    generalize hcomplete : (data.length - (3 - e.pending.length)) / 3 * 3 = complete
    generalize hmiddle : (data.drop (3 - e.pending.length)).take complete = middle
    generalize htail : data.drop (3 - e.pending.length + complete) = tail
    have hheadLen : head.length = 3 := by
      rw [← hhead, List.length_append, List.length_take]
      omega
    have hmiddleLen : middle.length = complete := by
      rw [← hmiddle, List.length_take, List.length_drop]
      omega
    have htailLen : tail.length < 3 := by
      rw [← htail, List.length_drop]
      omega
    have hsplit : e.pending ++ data = head ++ (middle ++ tail) := by
      rw [← hhead, ← hmiddle, ← htail, ← List.drop_drop, List.append_assoc, List.take_append_drop,
        List.take_append_drop]
    have hgroups : data.length / 3 + (data.length % 3 + e.pending.length) / 3 =
        1 + middle.length / 3 := by omega
    have hheadMod : head.length % 3 = 0 := by omega
    have hmiddleMod : middle.length % 3 = 0 := by omega
    obtain ⟨hencodeMiddle, hrestMiddle⟩ := encode_append_of_complete hmiddleMod tail
    obtain ⟨hencodeHead, hrestHead⟩ := encode_append_of_complete hheadMod (middle ++ tail)
    obtain ⟨hnone, hkept⟩ := encode_of_short htailLen
    have hfirst := @base64EncodeBlocks_start head (List.replicate (1 * 4) fill)
      (List.replicate (middle.length / 3 * 4) fill) hheadMod (by rw [hheadLen]; rfl)
    have hsecond := @base64EncodeBlocks_eq middle (encodeTriples head)
      (List.replicate (middle.length / 3 * 4) fill) [] hmiddleMod List.length_replicate
    rw [List.append_nil, List.append_nil, length_encodeTriples, hheadLen] at hsecond
    -- the two calls of the source fill the front and the middle of one output
    rw [hgroups, replicate_groups, hheadLen, hsplit, hencodeHead, hrestHead, hencodeMiddle,
      hrestMiddle, hnone, hkept, List.append_nil, hfinished]
    change (base64EncodeBlocks head _ 0 >>= _) = _
    rw [hfirst]
    change (if complete ≠ 0 then base64EncodeBlocks middle _ (3 / 3 * 4) >>= _ else _) = _
    by_cases hzero : complete = 0
    · obtain rfl : middle = [] := List.eq_nil_of_length_eq_zero (hmiddleLen.trans hzero)
      rw [if_neg (not_not.mpr hzero)]
      rfl
    · rw [if_pos hzero, hsecond]
      rfl

/-- After any updates, the encoder has written the triples so far and keeps the remainder. -/
lemma updateAll_eq {e : Base64Encoder} (hfinished : e.finished = false)
    (hpending : e.pending.length < 3) (spans : List Bytes) (fill : UInt8) :
    updateAll fill spans e =
      .ok (encodeTriples (e.pending ++ spans.flatten),
        { pending := remainder (e.pending ++ spans.flatten) }) := by
  induction spans generalizing e with
  | nil =>
    obtain ⟨hencode, hrest⟩ := encode_of_short hpending
    obtain ⟨pending, finished⟩ := e
    obtain rfl : finished = false := hfinished
    rw [List.flatten_nil, List.append_nil, hencode, hrest]
    rfl
  | cons data spans ih =>
    have hlen : (remainder (e.pending ++ data)).length < 3 := by
      rw [length_remainder]
      omega
    have hnext := @ih { pending := remainder (e.pending ++ data) } rfl hlen
    obtain ⟨hencode, hrest⟩ := encodeTriples_append (e.pending ++ data) spans.flatten
    rw [updateAll, update_eq hfinished hpending]
    change (updateAll fill spans _ >>= _) = _
    rw [hnext, List.flatten_cons, ← List.append_assoc, hencode, hrest]
    rfl

end Base64Encoder

/-! ### Decoding -/

/-- A character of the alphabet is read back. -/
lemma base64Value_base64Char {n : ℕ} (h : n < 64) :
    base64Value (base64Char n) = n ∧ base64Char n ≠ padChar := by
  have hall : ∀ n < 64, base64Value (base64Char n) = n ∧ base64Char n ≠ padChar := by
    decide +kernel
  exact hall n h

/-- A quartet without padding. -/
lemma decodeQuartet_of_lt {c0 c1 c2 c3 : UInt8} (last : Bool) (h0 : base64Value c0 < 64)
    (h1 : base64Value c1 < 64) (h2 : base64Value c2 < 64) (h3 : base64Value c3 < 64) :
    decodeQuartet last c0 c1 c2 c3 =
      .ok [UInt8.ofNat (base64Value c0 * 4 + base64Value c1 / 16),
        UInt8.ofNat (base64Value c1 * 16 + base64Value c2 / 4),
        UInt8.ofNat (base64Value c2 * 64 + base64Value c3)] := by
  have hor : base64Value c0 ||| base64Value c1 ||| base64Value c2 ||| base64Value c3 < 2 ^ 6 :=
    Nat.or_lt_two_pow (Nat.or_lt_two_pow (Nat.or_lt_two_pow h0 h1) h2) h3
  exact if_pos hor

/-- A byte from a number that is equal to it up to a multiple of 256. -/
lemma ofNat_eq_of_mod {n : ℕ} {c : UInt8} (h : n % 256 = c.toNat) : UInt8.ofNat n = c := by
  apply UInt8.toNat_inj.mp
  rw [UInt8.toNat_ofNat', ← h]

/-- A triple is read back. -/
lemma decodeQuartet_encodeTriple (last : Bool) (first second third : UInt8) :
    decodeQuartet last (base64Char (first.toNat / 4))
        (base64Char (first.toNat % 4 * 16 + second.toNat / 16))
        (base64Char (second.toNat % 16 * 4 + third.toNat / 64)) (base64Char (third.toNat % 64)) =
      .ok [first, second, third] := by
  have h1 : first.toNat < 256 := UInt8.toNat_lt_size first
  have h2 : second.toNat < 256 := UInt8.toNat_lt_size second
  have h3 : third.toNat < 256 := UInt8.toNat_lt_size third
  obtain ⟨ha, -⟩ := base64Value_base64Char (n := first.toNat / 4) (by omega)
  obtain ⟨hb, -⟩ := base64Value_base64Char (n := first.toNat % 4 * 16 + second.toNat / 16) (by omega)
  obtain ⟨hc, -⟩ := base64Value_base64Char (n := second.toNat % 16 * 4 + third.toNat / 64) (by omega)
  obtain ⟨hd, -⟩ := base64Value_base64Char (n := third.toNat % 64) (by omega)
  rw [decodeQuartet_of_lt last (by omega) (by omega) (by omega) (by omega), ha, hb, hc, hd,
    ofNat_eq_of_mod (c := first) (by omega), ofNat_eq_of_mod (c := second) (by omega),
    ofNat_eq_of_mod (c := third) (by omega)]

/-- The padding is no character of the alphabet. -/
lemma base64Value_padChar : base64Value padChar = 0xff := by decide

/-- What the characters of a quartet come to, without the padding. -/
lemma decodePadded_char {last : Bool} {index bits n : ℕ} {rest : Bytes} (h : n < 64) :
    decodePadded last index (base64Char n :: rest) bits 0 =
      decodePadded last (index + 1) rest (bits * 0x40 + n) 0 := by
  obtain ⟨hvalue, hpad⟩ := base64Value_base64Char h
  rw [decodePadded, if_neg hpad, hvalue, if_neg (by omega)]

/-- A padding character in its place. -/
lemma decodePadded_pad {index bits padding : ℕ} {rest : Bytes} (h : 2 ≤ index) :
    decodePadded true index (padChar :: rest) bits padding =
      decodePadded true (index + 1) rest (bits * 0x40) (padding + 1) := by
  rw [decodePadded, if_pos rfl, if_neg]
  rintro (hindex | hlast)
  · omega
  · cases hlast

/-- A quartet with padding is not read by the fast path. -/
lemma decodeQuartet_padded (last : Bool) (c0 c1 c2 : UInt8) :
    decodeQuartet last c0 c1 c2 padChar =
      match decodePadded last 0 [c0, c1, c2, padChar] 0 0 with
      | .error e => .error e
      | .ok (bits, padding) =>
        .ok (UInt8.ofNat (bits / 2 ^ 16) ::
          ((if padding < 2 then [UInt8.ofNat (bits / 2 ^ 8)] else []) ++
            if padding = 0 then [UInt8.ofNat bits] else [])) := by
  have hor : ¬base64Value c0 ||| base64Value c1 ||| base64Value c2 ||| base64Value padChar < 0x40 := by
    rw [base64Value_padChar, not_lt]
    exact le_trans (by decide) Nat.right_le_or
  exact if_neg hor

/-- The last quartet of one byte. -/
lemma decodeQuartet_one (first : UInt8) :
    decodeQuartet true (base64Char (first.toNat / 4)) (base64Char (first.toNat % 4 * 16)) padChar
        padChar = .ok [first] := by
  have h1 : first.toNat < 256 := UInt8.toNat_lt_size first
  rw [decodeQuartet_padded, decodePadded_char (by omega), decodePadded_char (by omega),
    decodePadded_pad (by omega), decodePadded_pad (by omega), decodePadded]
  dsimp only
  rw [ofNat_eq_of_mod (c := first) (by omega)]
  rfl

/-- The last quartet of two bytes. -/
lemma decodeQuartet_two (first second : UInt8) :
    decodeQuartet true (base64Char (first.toNat / 4))
        (base64Char (first.toNat % 4 * 16 + second.toNat / 16))
        (base64Char (second.toNat % 16 * 4)) padChar = .ok [first, second] := by
  have h1 : first.toNat < 256 := UInt8.toNat_lt_size first
  have h2 : second.toNat < 256 := UInt8.toNat_lt_size second
  rw [decodeQuartet_padded, decodePadded_char (by omega), decodePadded_char (by omega),
    decodePadded_char (by omega), decodePadded_pad (by omega), decodePadded]
  dsimp only
  rw [ofNat_eq_of_mod (c := first) (by omega), ofNat_eq_of_mod (c := second) (by omega)]
  rfl

/-- `base64_decode` inverts the encoding. -/
lemma decodeQuartets_encoded (value : Bytes) : decodeQuartets (encoded value) = .ok value := by
  induction value using encodeTriples.induct with
  | case1 first second third rest ih =>
    have hencoded : encoded (first :: second :: third :: rest) =
        encodeTriple first second third ++ encoded rest := by
      simp only [encoded, encodeTriples, remainder, List.append_assoc]
    rw [hencoded, encodeTriple_eq]
    simp only [List.cons_append, List.nil_append, decodeQuartets]
    rw [decodeQuartet_encodeTriple, ih]
    rfl
  | case2 value h =>
    match value, short_of_no_triple h with
    | [], _ => rfl
    | [first], _ =>
      change decodeQuartets [_, _, _, _] = _
      rw [decodeQuartets, List.isEmpty_nil, decodeQuartet_one]
      rfl
    | [first, second], _ =>
      change decodeQuartets [_, _, _, _] = _
      rw [decodeQuartets, List.isEmpty_nil, decodeQuartet_two]
      rfl

/-- The length of an encoding. -/
lemma length_encoded (value : Bytes) : (encoded value).length = (value.length + 2) / 3 * 4 := by
  have hrest := length_remainder value
  rw [encoded, List.length_append, length_encodeTriples]
  match hremainder : remainder value with
  | [] =>
    rw [hremainder, List.length_nil] at hrest
    change _ + 0 = _
    omega
  | [_] =>
    rw [hremainder, List.length_singleton] at hrest
    change _ + 4 = _
    omega
  | _ :: _ :: more =>
    rw [hremainder, List.length_cons, List.length_cons] at hrest
    change _ + 4 = _
    omega

/-- `base64_encoded_size` is the length of the encoding, if this is the number of a
`std::uint64_t`. -/
lemma base64EncodedSize_eq (value : Bytes) :
    base64EncodedSize value.length =
      if (encoded value).length < uint64Limit then some (encoded value).length else none := by
  rw [length_encoded, base64EncodedSize]
  unfold uint64Limit
  split_ifs <;> first | rfl | omega

/-- What `base64_decode` accepts: characters of the alphabet and at most two padding characters,
four at a time. -/
structure Base64Text (value : Bytes) : Prop where
  length : value.length % 4 = 0
  chars : ∃ (text : Bytes) (padding : ℕ), value = text ++ List.replicate padding padChar ∧
    padding ≤ 2 ∧ ∀ c ∈ text, c ∈ base64Alphabet

/-- The values below 64 are those of the alphabet, -/
lemma base64Value_lt_iff {c : UInt8} : base64Value c < 64 ↔ c ∈ base64Alphabet := by
  rw [base64Value]
  by_cases h : c ∈ base64Alphabet
  · rw [if_pos h]
    exact ⟨fun _ => h, fun _ => List.idxOf_lt_length_of_mem h⟩
  · rw [if_neg h]
    exact ⟨fun hlt => absurd hlt (by decide), fun hmem => absurd hmem h⟩

/-- and every other character has the value 0xff. -/
lemma base64Value_eq_iff {c : UInt8} : base64Value c = 0xff ↔ c ∉ base64Alphabet := by
  constructor
  · intro h hmem
    have hlt := base64Value_lt_iff.mpr hmem
    omega
  · intro h
    exact if_neg h

/-- The padding character is not in the alphabet. -/
lemma ne_padChar_of_mem {c : UInt8} (h : c ∈ base64Alphabet) : c ≠ padChar := by
  rintro rfl
  exact absurd h (by decide)

/-- The first character of a padded text belongs to the text or is padding. -/
lemma cons_eq_append_padding {ch : UInt8} {rest text : Bytes} {n : ℕ}
    (h : ch :: rest = text ++ List.replicate n padChar) :
    (∃ more, text = ch :: more ∧ rest = more ++ List.replicate n padChar) ∨
      text = [] ∧ ch = padChar ∧ ∃ m, n = m + 1 ∧ rest = List.replicate m padChar := by
  cases text with
  | cons c text =>
    obtain ⟨rfl, rfl⟩ := List.cons.inj h
    exact .inl ⟨text, rfl, rfl⟩
  | nil =>
    cases n with
    | zero => cases h
    | succ m =>
      obtain ⟨rfl, rfl⟩ := List.cons.inj h
      exact .inr ⟨rfl, rfl, m, rfl, rfl⟩

/-- The slow path reads characters of the alphabet, and padding behind them if this is the last
quartet. -/
lemma decodePadded_ok_iff {last : Bool} {index : ℕ} {chars : Bytes} {bits padding : ℕ} :
    (∃ out, decodePadded last index chars bits padding = .ok out) ↔
      ∃ (text : Bytes) (n : ℕ), chars = text ++ List.replicate n padChar ∧
        (∀ c ∈ text, c ∈ base64Alphabet) ∧ (padding ≠ 0 → text = []) ∧
        (n ≠ 0 → last = true ∧ 2 ≤ index + text.length) := by
  -- the induction is on what is left of the quartet: once padding has come, only padding may follow
  induction chars generalizing index bits padding with
  | nil =>
    refine iff_of_true ⟨_, rfl⟩ ⟨[], 0, rfl, ?_, fun _ => rfl, fun h => absurd rfl h⟩
    exact fun c hc => absurd hc List.not_mem_nil
  | cons ch rest ih =>
    by_cases hpad : ch = padChar
    · subst hpad
      by_cases hbad : index < 2 ∨ (!last) = true
      · rw [decodePadded, if_pos rfl, if_pos hbad]
        refine iff_of_false (fun ⟨_, h⟩ => nomatch h) ?_
        rintro ⟨text, n, hsplit, hall, -, hplace⟩
        rcases cons_eq_append_padding hsplit with ⟨more, rfl, -⟩ | ⟨rfl, -, m, rfl, -⟩
        · exact ne_padChar_of_mem (hall _ List.mem_cons_self) rfl
        · obtain ⟨rfl, hindex⟩ := hplace (Nat.succ_ne_zero m)
          simp only [List.length_nil, Bool.not_true, Bool.false_eq_true, or_false] at hindex hbad
          omega
      · rw [decodePadded, if_pos rfl, if_neg hbad, ih]
        push Not at hbad
        obtain ⟨hindex, hlast⟩ := hbad
        have hlast : last = true := by simpa using hlast
        constructor
        · rintro ⟨text, n, rfl, hall, hnone, -⟩
          obtain rfl := hnone (Nat.succ_ne_zero _)
          exact ⟨[], n + 1, rfl, hall, fun _ => rfl, fun _ => ⟨hlast, hindex⟩⟩
        · rintro ⟨text, n, hsplit, hall, -, -⟩
          rcases cons_eq_append_padding hsplit with ⟨more, rfl, -⟩ | ⟨rfl, -, m, rfl, rfl⟩
          · exact absurd rfl (ne_padChar_of_mem (hall _ List.mem_cons_self))
          · exact ⟨[], m, rfl, hall, fun _ => rfl, fun _ => ⟨hlast, Nat.le_succ_of_le hindex⟩⟩
    · by_cases hbad : base64Value ch = 0xff ∨ padding ≠ 0
      · rw [decodePadded, if_neg hpad, if_pos hbad]
        refine iff_of_false (fun ⟨_, h⟩ => nomatch h) ?_
        rintro ⟨text, n, hsplit, hall, hnone, -⟩
        rcases cons_eq_append_padding hsplit with ⟨more, rfl, -⟩ | ⟨-, hch, -⟩
        · rcases hbad with hvalue | hpadding
          · exact base64Value_eq_iff.mp hvalue (hall _ List.mem_cons_self)
          · cases hnone hpadding
        · exact hpad hch
      · rw [decodePadded, if_neg hpad, if_neg hbad, ih]
        push Not at hbad
        obtain ⟨hvalue, rfl⟩ := hbad
        have hmem : ch ∈ base64Alphabet := not_not.mp fun h => hvalue (base64Value_eq_iff.mpr h)
        constructor
        · rintro ⟨text, n, rfl, hall, -, hplace⟩
          refine ⟨ch :: text, n, rfl, List.forall_mem_cons.mpr ⟨hmem, hall⟩,
            fun h => absurd rfl h, fun hn => ?_⟩
          obtain ⟨hlast, hindex⟩ := hplace hn
          rw [List.length_cons]
          exact ⟨hlast, by omega⟩
        · rintro ⟨text, n, hsplit, hall, -, hplace⟩
          rcases cons_eq_append_padding hsplit with ⟨more, rfl, rfl⟩ | ⟨-, hch, -⟩
          · refine ⟨more, n, rfl, (List.forall_mem_cons.mp hall).2, fun h => absurd rfl h,
              fun hn => ?_⟩
            obtain ⟨hlast, hindex⟩ := hplace hn
            rw [List.length_cons] at hindex
            exact ⟨hlast, by omega⟩
          · exact absurd hch hpad

/-- The fast path is taken for characters of the alphabet only. -/
lemma decodeQuartet_ok_iff {last : Bool} {c0 c1 c2 c3 : UInt8} :
    (∃ out, decodeQuartet last c0 c1 c2 c3 = .ok out) ↔
      ∃ (text : Bytes) (n : ℕ), [c0, c1, c2, c3] = text ++ List.replicate n padChar ∧
        (∀ c ∈ text, c ∈ base64Alphabet) ∧ (n ≠ 0 → last = true ∧ 2 ≤ text.length) := by
  by_cases hfast : base64Value c0 ||| base64Value c1 ||| base64Value c2 ||| base64Value c3 < 0x40
  · have hlt : ∀ c ∈ [c0, c1, c2, c3], base64Value c < 64 := by
      intro c hc
      apply lt_of_le_of_lt _ hfast
      simp only [List.mem_cons, List.not_mem_nil, or_false] at hc
      rcases hc with rfl | rfl | rfl | rfl
      · exact Nat.left_le_or.trans (Nat.left_le_or.trans Nat.left_le_or)
      · exact Nat.right_le_or.trans (Nat.left_le_or.trans Nat.left_le_or)
      · exact Nat.right_le_or.trans Nat.left_le_or
      · exact Nat.right_le_or
    refine iff_of_true ⟨_, if_pos hfast⟩ ⟨[c0, c1, c2, c3], 0, rfl, ?_, fun h => absurd rfl h⟩
    exact fun c hc => base64Value_lt_iff.mp (hlt c hc)
  · have hslow := @decodePadded_ok_iff last 0 [c0, c1, c2, c3] 0 0
    simp only [ne_eq, not_true_eq_false, false_implies, true_and, Nat.zero_add] at hslow
    apply Iff.trans _ hslow
    simp only [decodeQuartet, if_neg hfast]
    cases decodePadded last 0 [c0, c1, c2, c3] 0 0 with
    | error e => exact iff_of_false (fun ⟨_, h⟩ => nomatch h) (fun ⟨_, h⟩ => nomatch h)
    | ok out => exact iff_of_true ⟨_, rfl⟩ ⟨_, rfl⟩

/-- A quartet in front of others. -/
lemma decodeQuartets_cons_ok_iff {c0 c1 c2 c3 : UInt8} {rest : Bytes} :
    (∃ data, decodeQuartets (c0 :: c1 :: c2 :: c3 :: rest) = .ok data) ↔
      (∃ out, decodeQuartet rest.isEmpty c0 c1 c2 c3 = .ok out) ∧
        ∃ more, decodeQuartets rest = .ok more := by
  rw [decodeQuartets]
  cases decodeQuartet rest.isEmpty c0 c1 c2 c3 with
  | error e => exact iff_of_false (fun ⟨_, h⟩ => nomatch h) (fun ⟨⟨_, h⟩, _⟩ => nomatch h)
  | ok out =>
    cases decodeQuartets rest with
    | error e => exact iff_of_false (fun ⟨_, h⟩ => nomatch h) (fun ⟨_, _, h⟩ => nomatch h)
    | ok more => exact iff_of_true ⟨_, rfl⟩ ⟨⟨_, rfl⟩, _, rfl⟩

/-- The loop accepts characters of the alphabet and at most two padding characters. -/
lemma decodeQuartets_ok_iff : ∀ {value : Bytes}, value.length % 4 = 0 →
    ((∃ data, decodeQuartets value = .ok data) ↔
      ∃ (text : Bytes) (padding : ℕ), value = text ++ List.replicate padding padChar ∧
        padding ≤ 2 ∧ ∀ c ∈ text, c ∈ base64Alphabet)
  | [], _ => iff_of_true ⟨_, rfl⟩
      ⟨[], 0, rfl, Nat.zero_le _, fun _ hc => absurd hc List.not_mem_nil⟩
  | [_], h => nomatch h
  | [_, _], h => nomatch h
  | [_, _, _], h => nomatch h
  | c0 :: c1 :: c2 :: c3 :: rest, h => by
    simp only [List.length_cons] at h
    rw [decodeQuartets_cons_ok_iff, decodeQuartet_ok_iff, decodeQuartets_ok_iff (by omega)]
    constructor
    · rintro ⟨⟨text, n, hsplit, hall, hplace⟩, more, m, rfl, hm, hmore⟩
      have hfour := congrArg List.length hsplit
      simp only [List.length_cons, List.length_nil, List.length_append,
        List.length_replicate] at hfour
      by_cases hn : n = 0
      · subst hn
        rw [List.replicate_zero, List.append_nil] at hsplit
        subst hsplit
        exact ⟨_, m, rfl, hm, List.forall_mem_append.mpr ⟨hall, hmore⟩⟩
      · obtain ⟨hlast, htwo⟩ := hplace hn
        rw [List.isEmpty_iff] at hlast
        rw [hlast]
        exact ⟨text, n, hsplit, by omega, hall⟩
    · rintro ⟨text, n, hsplit, hn, hall⟩
      have htotal := congrArg List.length hsplit
      simp only [List.length_cons, List.length_append, List.length_replicate] at htotal
      cases rest with
      | nil =>
        rw [List.length_nil] at htotal
        exact ⟨⟨text, n, hsplit, hall, fun _ => ⟨rfl, by omega⟩⟩, [], 0, rfl, Nat.zero_le _,
          fun _ hc => absurd hc List.not_mem_nil⟩
      | cons c rest =>
        -- the padding is too short to reach into this quartet
        rw [List.length_cons] at htotal h
        have hfour : 4 ≤ text.length := by omega
        have hhead : text.take 4 = [c0, c1, c2, c3] := by
          have htake := congrArg (List.take 4) hsplit
          rw [List.take_append_of_le_length hfour] at htake
          exact htake.symm
        have hbehind : c :: rest = text.drop 4 ++ List.replicate n padChar := by
          have hdrop := congrArg (List.drop 4) hsplit
          rwa [List.drop_append_of_le_length hfour] at hdrop
        refine ⟨⟨text.take 4, 0, ?_, fun x hx => hall x (List.mem_of_mem_take hx),
          fun hzero => absurd rfl hzero⟩, text.drop 4, n, hbehind, hn,
          fun x hx => hall x (List.mem_of_mem_drop hx)⟩
        rw [hhead, List.replicate_zero, List.append_nil]

/-- `base64_decode` accepts `Base64Text`. -/
lemma base64Decode_ok_iff {value : Bytes} :
    (∃ data, base64Decode value = .ok data) ↔ Base64Text value := by
  by_cases hlen : value.length % 4 = 0
  · rw [base64Decode, if_neg (not_not.mpr hlen), decodeQuartets_ok_iff hlen]
    exact ⟨fun h => ⟨hlen, h⟩, fun h => h.chars⟩
  · rw [base64Decode, if_pos hlen]
    exact iff_of_false (fun ⟨_, h⟩ => nomatch h) fun h => hlen h.length

/-- **Base64.**  Whatever the spans, and whatever the strings contain that the encoders have sized,
the output of the incremental encoder is the one-shot encoding of what was passed, its length is
`base64_encoded_size`, and `base64_decode` returns what was passed.  The decoder accepts exactly
`Base64Text`. -/
theorem base64_incremental :
    (∀ spans : List Bytes, ∃ (output : Bytes) (encoder : Base64Encoder),
      (∀ fill, Base64Encoder.updateAll fill spans {} = .ok (output, encoder)) ∧
      (∀ fill, base64Encode spans.flatten fill = .ok (output ++ encoder.finish.1)) ∧
      base64EncodedSize spans.flatten.length =
        (if (output ++ encoder.finish.1).length < uint64Limit then
          some (output ++ encoder.finish.1).length else none) ∧
      base64Decode (output ++ encoder.finish.1) = .ok spans.flatten) ∧
    ∀ value : Bytes, (∃ data, base64Decode value = .ok data) ↔ Base64Text value := by
  refine ⟨fun spans => ?_, fun _ => base64Decode_ok_iff⟩
  refine ⟨encodeTriples spans.flatten, { pending := remainder spans.flatten }, fun fill => ?_,
    base64Encode_eq spans.flatten, base64EncodedSize_eq spans.flatten, ?_⟩
  · exact Base64Encoder.updateAll_eq rfl (by decide) spans fill
  · have hlen := length_encoded spans.flatten
    have hmod : ¬(encoded spans.flatten).length % 4 ≠ 0 := by omega
    exact (if_neg hmod).trans (decodeQuartets_encoded spans.flatten)

end Chhttp
