import Chhttp.WebSocket.Channel

/-!
# WebSocket frames that arrive

A frame whose bytes are at the front of what there is to read is taken from the input as it was
sent, in however many reads its bytes arrive (`readFrame_frameBytes`).
-/

namespace Chhttp.WebSocket

open Fragment

/-- The frames that the reader accepts: control frames are short and complete, and no frame is
larger than a message may be. -/
structure Frame.Acceptable (f : Frame) : Prop where
  opcode : f.opcode < 16
  control : 8 ≤ f.opcode → f.final = true ∧ f.payload.length ≤ 125
  length : f.payload.length ≤ maxMessage

/-! ### The header as a list of bytes -/

/-- Masking the payload again restores it. -/
@[simp] lemma wirePayload_wirePayload (clientSide : Bool) (mask : Mask) (payload : Bytes) :
    wirePayload clientSide mask (wirePayload clientSide mask payload) = payload := by
  unfold wirePayload
  split_ifs
  · exact applyMask_applyMask mask payload
  · rfl

/-- The length field of the second byte. -/
def shortLength (size : ℕ) : ℕ := if size ≤ 125 then size else if size ≤ 65535 then 126 else 127

/-- The bytes of the length after the second byte. -/
def longLength (size : ℕ) : Bytes :=
  if size ≤ 125 then [] else if size ≤ 65535 then bigEndian 2 size else bigEndian 8 size

/-- The length begins with its short form. -/
lemma lengthBytes_eq (maskBit size : ℕ) :
    lengthBytes maskBit size = UInt8.ofNat (maskBit + shortLength size) :: longLength size := by
  unfold lengthBytes shortLength longLength
  split_ifs <;> rfl

/-- The short form fits into seven bits. -/
lemma shortLength_lt (size : ℕ) : shortLength size < 128 := by
  unfold shortLength
  split_ifs <;> omega

/-- The second byte of a frame. -/
def secondByte (masked : Bool) (size : ℕ) : UInt8 :=
  UInt8.ofNat ((if masked then 0x80 else 0) + shortLength size)

/-- The bytes of a frame, field by field. -/
lemma frameBytes_eq (masked : Bool) (mask : Mask) (f : Frame) :
    frameBytes masked mask f =
      firstByte f.final f.opcode :: secondByte masked f.payload.length ::
        (longLength f.payload.length ++
          ((if masked then List.ofFn mask else []) ++ wirePayload masked mask f.payload)) := by
  simp only [frameBytes, headerBytes, lengthBytes_eq, secondByte, List.cons_append,
    List.append_assoc]

/-- The value of the first byte. -/
lemma firstByte_toNat (final : Bool) {opcode : ℕ} (h : opcode < 16) :
    (firstByte final opcode).toNat = (if final then 0x80 else 0) + opcode := by
  rw [firstByte, UInt8.toNat_ofNat']
  apply Nat.mod_eq_of_lt
  split_ifs <;> omega

/-- The value of the second byte. -/
lemma secondByte_toNat (masked : Bool) (size : ℕ) :
    (secondByte masked size).toNat = (if masked then 0x80 else 0) + shortLength size := by
  have hshort := shortLength_lt size
  rw [secondByte, UInt8.toNat_ofNat']
  apply Nat.mod_eq_of_lt
  split_ifs <;> omega

/-- The most significant byte of a length that fits into seven bytes is zero. -/
lemma bigEndian_eight_head {size : ℕ} (h : size ≤ maxMessage) :
    bigEndian 8 size = 0 :: bigEndian 7 size := by
  have hzero : size >>> (8 * 7) = 0 := by
    rw [Nat.shiftRight_eq_div_pow]
    exact Nat.div_eq_of_lt (by unfold maxMessage at h; omega)
  rw [bigEndian_succ, hzero]
  rfl

namespace Channel

/-! ### Looking into the buffer -/

/-- Bytes that have been received are the first that there are to read. -/
lemma getD_buffer {input : Input} {index : ℕ} (h : index < input.buffer.length) :
    input.buffer.getD index 0 = input.available.getD index 0 := by
  rw [Source.available, List.getD_append _ _ _ _ h]

/-- A part of the buffer is a part of what there is to read. -/
lemma slice_buffer {input : Input} {start count : ℕ} (h : start + count ≤ input.buffer.length) :
    (input.buffer.drop start).take count = (input.available.drop start).take count := by
  rw [Source.available, List.drop_append_of_le_length (by omega),
    List.take_append_of_le_length (by rw [List.length_drop]; omega)]

/-- `need` succeeds when enough bytes arrive. -/
lemma need_enough (count : ℕ) (ch : Channel) (h : count ≤ ch.input.available.length) :
    ∃ input, need count ch = (none, { ch with input }) ∧ count ≤ input.buffer.length ∧
      input.available = ch.input.available := by
  have hneed := need_spec count ch
  generalize need count ch = r at hneed
  cases hneed with
  | enough hlen havailable hsize => exact ⟨_, rfl, hlen, havailable⟩
  | short hshort hsize => omega

/-- What is left when the first word has been consumed. -/
lemma available_consume_append {input : Input} {p rest : Bytes} (h : input.available = p ++ rest)
    (hlen : p.length ≤ input.buffer.length) : (input.consume p.length).available = rest := by
  have hconsume := input.available_consume p.length
  rw [h] at hconsume
  exact (List.append_inj hconsume (by rw [List.length_take, Nat.min_eq_left hlen])).2.symm

/-! ### The stages of `read` -/

/-- The length is read back. -/
lemma readLength_longLength {ch : Channel} {size : ℕ} {b0 b1 : UInt8} {rest : Bytes}
    (hsize : size ≤ maxMessage) (h : ch.input.available = b0 :: b1 :: (longLength size ++ rest)) :
    ∃ input, readLength (shortLength size) ch =
        (.ok (size, 2 + (longLength size).length), { ch with input }) ∧
      input.available = ch.input.available := by
  by_cases hsmall : size ≤ 125
  · have hshort : shortLength size = size := if_pos hsmall
    have hlong : longLength size = [] := if_pos hsmall
    refine ⟨ch.input, ?_, rfl⟩
    rw [readLength, hshort, hlong, if_neg (by omega), if_neg (by omega)]
    rfl
  · by_cases hmedium : size ≤ 65535
    · have hshort : shortLength size = 126 := by rw [shortLength, if_neg hsmall, if_pos hmedium]
      have hlong : longLength size = bigEndian 2 size := by
        rw [longLength, if_neg hsmall, if_pos hmedium]
      rw [hlong] at h
      obtain ⟨input, hneed, hlen, havailable⟩ :=
        need_enough 4 ch (by rw [h]; simp)
      have hslice : (input.buffer.drop 2).take 2 = bigEndian 2 size := by
        rw [slice_buffer hlen, havailable, h]
        simp
      refine ⟨input, ?_, havailable⟩
      rw [readLength, hshort, hlong, if_pos rfl, hneed]
      dsimp only
      rw [hslice, fromBigEndian_bigEndian (by omega), if_neg (by omega), bigEndian_length]
    · have hshort : shortLength size = 127 := by rw [shortLength, if_neg hsmall, if_neg hmedium]
      have hlong : longLength size = bigEndian 8 size := by
        rw [longLength, if_neg hsmall, if_neg hmedium]
      rw [hlong] at h
      obtain ⟨input, hneed, hlen, havailable⟩ :=
        need_enough 10 ch (by rw [h]; simp)
      have hslice : (input.buffer.drop 2).take 8 = bigEndian 8 size := by
        rw [slice_buffer hlen, havailable, h]
        simp
      have htop : ({ ch with input } : Channel).byte 2 = 0 := by
        rw [byte, getD_buffer (by dsimp only; omega), havailable, h, bigEndian_eight_head hsize]
        rfl
      have hfits : size < 256 ^ 8 := by
        unfold maxMessage at hsize
        omega
      refine ⟨input, ?_, havailable⟩
      rw [readLength, hshort, hlong, if_neg (by decide), if_pos rfl, hneed]
      dsimp only
      rw [if_neg (by rw [htop]; decide), hslice, fromBigEndian_bigEndian hfits,
        if_neg hmedium, bigEndian_length]

/-- The mask is read back. -/
lemma readMask_ofFn {ch : Channel} {masked : Bool} {mask : Mask} {before rest : Bytes}
    (h : ch.input.available =
      before ++ ((if masked then List.ofFn mask else []) ++ rest)) :
    ∃ mask' cursor input, readMask masked before.length ch =
        (.ok (mask', cursor), { ch with input }) ∧
      cursor = (before ++ if masked then List.ofFn mask else []).length ∧
      (masked = true → mask' = mask) ∧ input.available = ch.input.available := by
  cases masked with
  | false => exact ⟨_, _, ch.input, rfl, by simp, by simp, rfl⟩
  | true =>
    obtain ⟨input, hneed, hlen, havailable⟩ :=
      need_enough (before.length + 4) ch (by rw [h]; simp)
    refine ⟨fun i => input.buffer.getD (before.length + i) 0, before.length + 4, input, ?_, by simp,
      ?_, havailable⟩
    · rw [readMask, if_pos rfl, hneed]
    · intro _
      funext i
      rw [getD_buffer (by omega), havailable, h, if_pos rfl,
        List.getD_append_right _ _ _ _ (Nat.le_add_right _ _), Nat.add_sub_cancel_left,
        List.getD_append _ _ _ _ (by simp), List.getD_eq_getElem _ _ (by simp), List.getElem_ofFn]

/-- The payload is read back, and the frame is consumed. -/
lemma readPayload_wirePayload {ch : Channel} {f : Frame} {masked : Bool} {mask mask' : Mask}
    {before rest : Bytes} (hmask : masked = true → mask' = mask) (hbefore : before.length < 64)
    (hlength : f.payload.length ≤ maxMessage)
    (h : ch.input.available = before ++ (wirePayload masked mask f.payload ++ rest)) :
    ∃ input, readPayload f.final f.opcode masked mask' before.length f.payload.length ch =
        (.ok f, { ch with input, consumed := ch.consumed ++ [f] }) ∧
      input.available = rest := by
  have hwire : wirePayload masked mask' (wirePayload masked mask f.payload) = f.payload := by
    cases masked with
    | false => rfl
    | true => rw [hmask rfl, wirePayload_wirePayload]
  obtain ⟨input, hneed, hlen, havailable⟩ :=
    need_enough (before.length + f.payload.length) ch (by rw [h]; simp)
  have hslice : (input.buffer.drop before.length).take f.payload.length =
      wirePayload masked mask f.payload := by
    rw [slice_buffer hlen, havailable, h, List.drop_left, List.take_left' (wirePayload_length _ _ _)]
  refine ⟨input.consume (before.length + f.payload.length), ?_, ?_⟩
  · unfold maxMessage at hlength
    rw [readPayload, if_neg (by omega), hneed]
    dsimp only
    rw [hslice, hwire]
  · have hframe : (before ++ wirePayload masked mask f.payload).length =
        before.length + f.payload.length := by
      rw [List.length_append, wirePayload_length]
    rw [← hframe]
    rw [← hframe] at hlen
    apply available_consume_append _ hlen
    rw [havailable, h, List.append_assoc]

/-- The rest of a frame after its first two bytes is read back. -/
lemma readRest_frame {ch : Channel} {f : Frame} {masked : Bool} {mask : Mask} {b0 b1 : UInt8}
    {rest : Bytes} (hf : f.Acceptable)
    (h : ch.input.available = b0 :: b1 :: (longLength f.payload.length ++
      ((if masked then List.ofFn mask else []) ++ (wirePayload masked mask f.payload ++ rest)))) :
    ∃ input, readRest f.final f.opcode masked (shortLength f.payload.length) ch =
        (.ok f, { ch with input, consumed := ch.consumed ++ [f] }) ∧
      input.available = rest := by
  obtain ⟨input1, hlength, havailable1⟩ := readLength_longLength hf.length h
  rw [h] at havailable1
  set before := b0 :: b1 :: longLength f.payload.length with hbefore
  have hcount : 2 + (longLength f.payload.length).length = before.length := by
    rw [hbefore, List.length_cons, List.length_cons]
    omega
  obtain ⟨mask', cursor, input2, hmask, hcursor, hsame, havailable2⟩ :=
    @readMask_ofFn { ch with input := input1 } masked mask before _ havailable1
  have hshort : (before ++ if masked then List.ofFn mask else []).length < 64 := by
    have hlong : (longLength f.payload.length).length ≤ 8 := by
      unfold longLength
      split_ifs <;> simp
    rw [List.length_append]
    split_ifs <;> simp <;> omega
  obtain ⟨input3, hpayload, havailable3⟩ :=
    @readPayload_wirePayload { ch with input := input2 } f masked mask mask'
      (before ++ if masked then List.ofFn mask else []) rest hsame hshort hf.length
      (by rw [havailable2]; dsimp only; rw [havailable1, List.append_assoc]; rfl)
  refine ⟨input3, ?_, havailable3⟩
  have hvalid : ¬ ((8 ≤ f.opcode ∧ (f.final = false ∨ 125 < f.payload.length)) ∨
      maxMessage < f.payload.length) := by
    rintro (⟨hcontrol, hbad⟩ | hbad)
    · obtain ⟨hfinal, hlen⟩ := hf.control hcontrol
      rw [hfinal] at hbad
      rcases hbad with hbad | hbad
      · cases hbad
      · omega
    · exact absurd hf.length (by omega)
  rw [readRest, hlength, hcount]
  dsimp only
  rw [if_neg hvalid, hmask]
  dsimp only
  rw [hcursor]
  exact hpayload

/-- A frame at the front of what there is to read is taken as it was sent.  The mask is removed, and
each of the three forms of the length is read, whatever the cuts of the stream. -/
theorem readFrame_frameBytes {ch : Channel} {f : Frame} {mask : Mask} {rest : Bytes}
    (hf : f.Acceptable)
    (h : ch.input.available = frameBytes (!ch.clientSide) mask f ++ rest) :
    ∃ input, ch.readFrame = (.ok f, { ch with input, consumed := ch.consumed ++ [f] }) ∧
      input.available = rest := by
  rw [frameBytes_eq, List.cons_append, List.cons_append, List.append_assoc, List.append_assoc] at h
  obtain ⟨input1, hneed, hlen, havailable⟩ := need_enough 2 ch (by rw [h]; simp)
  have hfirst : ({ ch with input := input1 } : Channel).byte 0 =
      (if f.final then 0x80 else 0) + f.opcode := by
    rw [byte, getD_buffer (by dsimp only; omega), havailable, h]
    exact firstByte_toNat f.final hf.opcode
  have hsecond : ({ ch with input := input1 } : Channel).byte 1 =
      (if !ch.clientSide then 0x80 else 0) + shortLength f.payload.length := by
    rw [byte, getD_buffer (by dsimp only; omega), havailable, h]
    exact secondByte_toNat (!ch.clientSide) f.payload.length
  have hopcode := hf.opcode
  have hshort := shortLength_lt f.payload.length
  obtain ⟨input2, hrest, havailable2⟩ :=
    @readRest_frame { ch with input := input1 } f (!ch.clientSide) mask _ _ rest hf
      (havailable.trans h)
  refine ⟨input2, ?_, havailable2⟩
  have hfinal : decide (0x80 ≤ ({ ch with input := input1 } : Channel).byte 0) = f.final := by
    rw [hfirst]
    cases f.final
    · simp
      omega
    · simp
  have hmasked : decide (0x80 ≤ ({ ch with input := input1 } : Channel).byte 1) =
      !ch.clientSide := by
    rw [hsecond]
    cases ch.clientSide
    · simp
    · simp
      omega
  have hrsv : ¬ ({ ch with input := input1 } : Channel).byte 0 / 0x10 % 8 ≠ 0 := by
    rw [hfirst]
    split_ifs <;> omega
  have hlow : ({ ch with input := input1 } : Channel).byte 0 % 0x10 = f.opcode := by
    rw [hfirst]
    split_ifs <;> omega
  have hseven : ({ ch with input := input1 } : Channel).byte 1 % 0x80 =
      shortLength f.payload.length := by
    rw [hsecond]
    split_ifs <;> omega
  rw [readFrame, hneed]
  dsimp only
  rw [if_neg hrsv, hmasked, if_neg (by cases ch.clientSide <;> simp), hfinal, hlow, hseven]
  exact hrest

/-- An iteration of `read` takes the next frame and acts on it. -/
lemma readStep_frameBytes {ch : Channel} {f : Frame} {mask : Mask} {rest : Bytes}
    (hf : f.Acceptable) (h : ch.input.available = frameBytes (!ch.clientSide) mask f ++ rest) :
    ∃ input, ch.readStep = processFrame { ch with input, consumed := ch.consumed ++ [f] } f ∧
      input.available = rest := by
  obtain ⟨input, hread, hrest⟩ := readFrame_frameBytes hf h
  refine ⟨input, ?_, hrest⟩
  rw [readStep, hread]

/-- A frame of a message needs only to be short enough. -/
lemma acceptable_of_lt {f : Frame} (h : f.opcode < 8) (hlen : f.payload.length ≤ maxMessage) :
    f.Acceptable :=
  ⟨by omega, fun h8 => absurd h (by omega), hlen⟩

/-- What is done with a continuation frame. -/
lemma processFrame_continuation {ch : Channel} {f : Frame} (h : f.opcode = 0) :
    ch.processFrame f = ch.continuationFrame f := by
  simp [processFrame, h]

/-- What is done with a text or binary frame. -/
lemma processFrame_data {ch : Channel} {f : Frame} (h : f.opcode = 1 ∨ f.opcode = 2) :
    ch.processFrame f = ch.dataFrame f := by
  rcases h with h | h <;> simp [processFrame, h]

end Channel

end Chhttp.WebSocket
