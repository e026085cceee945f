import Chhttp.Common.Text

/-!
# WebSocket frames

A `Frame` is what is transferred: a final bit, an opcode and a payload.  `frameBytes` is the
encoding that `send_frame` builds, with the three forms of the length and, in the direction from
the client to the server, the mask.
-/

namespace Chhttp.WebSocket

/-- `WebSocket::MessageType`. -/
inductive MessageType where
  | text | binary | ping | pong | close
  deriving DecidableEq, Repr

/-- `WebSocket::Message`. -/
structure Message where
  type : MessageType
  data : Bytes
  deriving DecidableEq, Repr

/-- A frame as it is transferred.  The reserved bits are not there: a frame that has them is refused
before it becomes one of these. -/
structure Frame where
  final : Bool
  opcode : ℕ
  payload : Bytes
  deriving DecidableEq, Repr

/-- A mask key. -/
abbrev Mask := Fin 4 → UInt8

/-- The payload under a mask; masking it again restores it. -/
def applyMask (mask : Mask) (payload : Bytes) : Bytes :=
  payload.mapIdx fun index b => b ^^^ mask (Fin.ofNat 4 index)

/-- The low bytes of a number, the most significant one first. -/
def bigEndian (count value : ℕ) : Bytes :=
  (List.range count).reverse.map fun i => UInt8.ofNat (value >>> (8 * i))

/-- The length of a payload, with the mask bit, in the shortest of the three forms. -/
def lengthBytes (maskBit size : ℕ) : Bytes :=
  if size ≤ 125 then [UInt8.ofNat (maskBit + size)]
  else if size ≤ 65535 then UInt8.ofNat (maskBit + 126) :: bigEndian 2 size
  else UInt8.ofNat (maskBit + 127) :: bigEndian 8 size

/-- The first byte of a frame. -/
def firstByte (final : Bool) (opcode : ℕ) : UInt8 :=
  UInt8.ofNat ((if final then 0x80 else 0) + opcode)

/-- The bytes of a frame before its payload. -/
def headerBytes (clientSide : Bool) (mask : Mask) (final : Bool) (opcode size : ℕ) : Bytes :=
  firstByte final opcode ::
    (lengthBytes (if clientSide then 0x80 else 0) size ++
      if clientSide then List.ofFn mask else [])

/-- The payload as it is transferred. -/
def wirePayload (clientSide : Bool) (mask : Mask) (payload : Bytes) : Bytes :=
  if clientSide then applyMask mask payload else payload

/-- The encoding of a frame.  The length takes the shortest of its three forms, and a client masks
the payload. -/
def frameBytes (clientSide : Bool) (mask : Mask) (f : Frame) : Bytes :=
  headerBytes clientSide mask f.final f.opcode f.payload.length ++
    wirePayload clientSide mask f.payload

/-! ### Masks -/

/-- A mask does not change the length. -/
@[simp] lemma applyMask_length (mask : Mask) (payload : Bytes) :
    (applyMask mask payload).length = payload.length := List.length_mapIdx

/-- Masking twice restores the payload. -/
@[simp] theorem applyMask_applyMask (mask : Mask) (payload : Bytes) :
    applyMask mask (applyMask mask payload) = payload := by
  apply List.ext_getElem
  · rw [applyMask_length, applyMask_length]
  · intro i h1 h2
    simp only [applyMask, List.getElem_mapIdx]
    rw [UInt8.xor_assoc, UInt8.xor_self, UInt8.xor_zero]

/-- The payload has its length on the wire, masked or not. -/
@[simp] lemma wirePayload_length (clientSide : Bool) (mask : Mask) (payload : Bytes) :
    (wirePayload clientSide mask payload).length = payload.length := by
  unfold wirePayload
  split_ifs <;> simp

/-! ### Lengths -/

/-- A number read from its bytes, the most significant one first. -/
def fromBigEndian (value : Bytes) : ℕ := value.foldl (fun length b => length * 0x100 + b.toNat) 0

/-- A number has as many bytes as it is asked for. -/
@[simp] lemma bigEndian_length (count value : ℕ) : (bigEndian count value).length = count := by
  simp [bigEndian]

/-- The most significant byte comes first. -/
lemma bigEndian_succ (count value : ℕ) :
    bigEndian (count + 1) value = UInt8.ofNat (value >>> (8 * count)) :: bigEndian count value := by
  simp [bigEndian, List.range_succ]

/-- Reading on from a prefix. -/
lemma foldl_bigEndian (count value length : ℕ) :
    (bigEndian count value).foldl (fun length b => length * 0x100 + b.toNat) length =
      length * 256 ^ count + value % 256 ^ count := by
  induction count generalizing length with
  | zero => simp [bigEndian, Nat.mod_one]
  | succ count ih =>
    have hshift : value >>> (8 * count) = value / 256 ^ count := by
      rw [Nat.shiftRight_eq_div_pow, pow_mul]
      norm_num
    have hbyte : (UInt8.ofNat (value / 256 ^ count)).toNat = value / 256 ^ count % 256 :=
      UInt8.toNat_ofNat'
    rw [bigEndian_succ, List.foldl_cons, ih, hshift, hbyte, pow_succ, Nat.mod_mul]
    ring

/-- A number that fits is read back. -/
theorem fromBigEndian_bigEndian {count value : ℕ} (h : value < 256 ^ count) :
    fromBigEndian (bigEndian count value) = value := by
  rw [fromBigEndian, foldl_bigEndian, Nat.zero_mul, Nat.zero_add, Nat.mod_eq_of_lt h]

end Chhttp.WebSocket
