import K0Torrent.Common.Types
import K0Torrent.Library.BigEndian

/-! Peer-wire messages: identifiers, the length-prefixed frame, its writer and
its parser (`message.hpp`, `message.cpp`).

A `uint32_t` is a natural number, reduced modulo `2 ^ 32` where the source can
wrap. Reading or writing a vector outside its bounds is a fault, not a value.
-/

set_option autoImplicit false

namespace K0Torrent

/-- The values of the source's `enum class MessageId : uint8_t`. A cast from a
byte may produce a value without a name, which every switch then ignores. -/
inductive MessageId where
  | choke
  | unchoke
  | interested
  | notInterested
  | havePiece
  | bitfield
  | request
  | piece
  | cancel
  | unnamed (raw : UInt8) (above : 8 < raw)
  deriving DecidableEq

namespace MessageId

def toByte : MessageId → UInt8
  | choke => 0
  | unchoke => 1
  | interested => 2
  | notInterested => 3
  | havePiece => 4
  | bitfield => 5
  | request => 6
  | piece => 7
  | cancel => 8
  | unnamed raw _ => raw

def ofByte (raw : UInt8) : MessageId :=
  if raw = 0 then choke
  else if raw = 1 then unchoke
  else if raw = 2 then interested
  else if raw = 3 then notInterested
  else if raw = 4 then havePiece
  else if raw = 5 then bitfield
  else if raw = 6 then request
  else if raw = 7 then piece
  else if above : 8 < raw then unnamed raw above
  else cancel

@[simp] theorem toByte_ofByte (raw : UInt8) : (ofByte raw).toByte = raw := by
  unfold ofByte
  split_ifs with h0 h1 h2 h3 h4 h5 h6 h7 above
  all_goals try simp only [toByte, *]
  apply UInt8.toNat_inj.mp
  simp only [← UInt8.toNat_inj, UInt8.lt_iff_toNat_lt, UInt8.reduceToNat] at *
  omega

@[simp] theorem ofByte_toByte (id : MessageId) : ofByte id.toByte = id := by
  cases id with
  | unnamed raw above =>
    have distinct (named : UInt8) (small : named ≤ 8) : raw ≠ named := by
      rintro rfl
      exact UInt8.not_lt.mpr small above
    simp [toByte, ofByte, above, distinct 0 (by decide), distinct 1 (by decide),
      distinct 2 (by decide), distinct 3 (by decide), distinct 4 (by decide),
      distinct 5 (by decide), distinct 6 (by decide), distinct 7 (by decide)]
  | _ => rfl

end MessageId

structure PeerMessage where
  id : MessageId := .choke
  payload : Bytes := []
  deriving DecidableEq

/-- A vector position that was touched although it lies outside the vector. -/
structure OutOfBounds where
  position : Nat
  deriving DecidableEq

def writeU32 (v : Nat) : Bytes :=
  [UInt8.ofNat ((v >>> 24) &&& 0xFF), UInt8.ofNat ((v >>> 16) &&& 0xFF),
    UInt8.ofNat ((v >>> 8) &&& 0xFF), UInt8.ofNat (v &&& 0xFF)]

def readU32 (p0 p1 p2 p3 : UInt8) : Nat :=
  (p0.toNat <<< 24) ||| (p1.toNat <<< 16) ||| (p2.toNat <<< 8) ||| p3.toNat

theorem ofNat_masked (v : Nat) : UInt8.ofNat (v &&& 0xFF) = UInt8.ofNat v := by
  apply UInt8.toNat_inj.mp
  have masked : v &&& 255 = v % 256 := Nat.and_two_pow_sub_one_eq_mod v 8
  simp [masked]

theorem writeU32_eq_encode (v : Nat) : writeU32 v = BigEndian.encode 4 v := by
  simp only [writeU32, ofNat_masked, BigEndian.encode, Nat.shiftRight_eq_div_pow, List.nil_append,
    List.cons_append, Nat.div_div_eq_div_mul, Nat.reducePow, Nat.reduceMul]

theorem readU32_eq_value (p0 p1 p2 p3 : UInt8) :
    readU32 p0 p1 p2 p3 = BigEndian.value [p0, p1, p2, p3] := by
  have b1 := p1.toNat_lt
  have b2 := p2.toNat_lt
  have b3 := p3.toNat_lt
  have low : p2.toNat <<< 8 ||| p3.toNat = p2.toNat <<< 8 + p3.toNat :=
    (Nat.shiftLeft_add_eq_or_of_lt (by omega) _).symm
  have middle : p1.toNat <<< 16 ||| (p2.toNat <<< 8 + p3.toNat) =
      p1.toNat <<< 16 + (p2.toNat <<< 8 + p3.toNat) :=
    (Nat.shiftLeft_add_eq_or_of_lt (by simp only [Nat.shiftLeft_eq]; omega) _).symm
  have high : p0.toNat <<< 24 ||| (p1.toNat <<< 16 + (p2.toNat <<< 8 + p3.toNat)) =
      p0.toNat <<< 24 + (p1.toNat <<< 16 + (p2.toNat <<< 8 + p3.toNat)) :=
    (Nat.shiftLeft_add_eq_or_of_lt (by simp only [Nat.shiftLeft_eq]; omega) _).symm
  rw [readU32, Nat.or_assoc, Nat.or_assoc, low, middle, high]
  simp only [BigEndian.value, List.foldl_cons, List.foldl_nil, Nat.shiftLeft_eq]
  omega

theorem readU32_lt (p0 p1 p2 p3 : UInt8) : readU32 p0 p1 p2 p3 < 2 ^ 32 := by
  rw [readU32_eq_value]
  exact Nat.lt_of_lt_of_eq (BigEndian.value_lt [p0, p1, p2, p3]) (by simp)

@[simp] theorem length_writeU32 (v : Nat) : (writeU32 v).length = 4 := rfl

theorem writeU32_readU32 (p0 p1 p2 p3 : UInt8) :
    writeU32 (readU32 p0 p1 p2 p3) = [p0, p1, p2, p3] := by
  rw [readU32_eq_value, writeU32_eq_encode]
  exact BigEndian.encode_value [p0, p1, p2, p3]

/-- The four big-endian bytes of a vector from `offset`, as the handlers read them. -/
def readU32At (bytes : Bytes) (offset : Nat) : Nat :=
  readU32 (bytes.getD offset 0) (bytes.getD (offset + 1) 0) (bytes.getD (offset + 2) 0)
    (bytes.getD (offset + 3) 0)

theorem value_writeU32 {v : Nat} (word : v < 2 ^ 32) : BigEndian.value (writeU32 v) = v := by
  rw [writeU32_eq_encode]
  exact BigEndian.value_encode 4 v word

theorem readU32At_append_writeU32 (front rest : Bytes) (v : Nat) (fits : v < 2 ^ 32) :
    readU32At (front ++ (writeU32 v ++ rest)) front.length = v := by
  have digits := value_writeU32 fits
  simp only [readU32At, List.getD_eq_getElem?_getD, readU32_eq_value,
    List.getElem?_append_right (Nat.le_add_right front.length _),
    List.getElem?_append_right (Nat.le_refl front.length), Nat.add_sub_cancel_left, Nat.sub_self]
  exact digits

namespace PeerMessage

/-- `PeerMessage::serialize`. The vector has the wrapped size `4 + length`; the
copy of the payload must end inside it. -/
def serialize (msg : PeerMessage) : Except OutOfBounds Bytes :=
  let length := (1 + msg.payload.length % 2 ^ 32) % 2 ^ 32
  let size := (4 + length) % 2 ^ 32
  if size < 5 + msg.payload.length then .error ⟨size⟩
  else .ok (writeU32 length ++ msg.id.toByte :: msg.payload)

def keepAlive : Bytes := List.replicate 4 0

theorem serialize_eq (msg : PeerMessage) (short : msg.payload.length < 2 ^ 32 - 5) :
    msg.serialize = .ok (writeU32 (1 + msg.payload.length) ++ msg.id.toByte :: msg.payload) := by
  have whole : msg.payload.length % 2 ^ 32 = msg.payload.length := Nat.mod_eq_of_lt (by omega)
  have length : (1 + msg.payload.length) % 2 ^ 32 = 1 + msg.payload.length :=
    Nat.mod_eq_of_lt (by omega)
  have size : (4 + (1 + msg.payload.length)) % 2 ^ 32 = 5 + msg.payload.length := by
    rw [Nat.mod_eq_of_lt] <;> omega
  simp only [serialize, whole, length, size, Nat.lt_irrefl, if_false]

end PeerMessage

structure ParseResult where
  complete : Bool := false
  consumedBytes : Nat := 0
  isKeepAlive : Bool := false
  message : PeerMessage := {}
  deriving DecidableEq

def readByte (buffer : Bytes) (position : Nat) : Except OutOfBounds UInt8 :=
  match buffer[position]? with
  | some byte => .ok byte
  | none => .error ⟨position⟩

/-- Copy of the half-open range of positions `[first, last)`. -/
def readRange (buffer : Bytes) (first last : Nat) : Except OutOfBounds Bytes :=
  if last ≤ buffer.length then .ok ((buffer.take last).drop first)
  else .error ⟨max first buffer.length⟩

def parsePeerMessage (buffer : Bytes) : Except OutOfBounds ParseResult := do
  if buffer.length < 4 then
    return {}
  let length := readU32 (← readByte buffer 0) (← readByte buffer 1) (← readByte buffer 2)
    (← readByte buffer 3)
  if length = 0 then
    return { complete := true, consumedBytes := 4, isKeepAlive := true }
  -- `4 + length` is a `uint32_t`: it wraps for the four largest lengths.
  let size := (4 + length) % 2 ^ 32
  if buffer.length < size then
    return {}
  let id := MessageId.ofByte (← readByte buffer 4)
  -- The iterators do not wrap, so the payload range ends at `4 + length` itself.
  let payload ← if 1 < length then readRange buffer 5 (4 + length) else pure []
  return { complete := true, consumedBytes := size, message := ⟨id, payload⟩ }

end K0Torrent
