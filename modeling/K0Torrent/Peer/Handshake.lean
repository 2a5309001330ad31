import K0Torrent.Common.Types
import Mathlib.Data.List.Basic

/-! The handshake that opens a connection (`handshake.hpp`, `handshake.cpp`). -/

set_option autoImplicit false

namespace K0Torrent

structure Handshake where
  reserved : Vector UInt8 8
  infoHash : Digest
  peerId : Digest

/-- The exceptions of `deserialize`, and the one of a connection that expects another torrent. -/
inductive HandshakeError where
  | protocolLength
  | protocolString
  | infoHashMismatch
  deriving DecidableEq

/-- The message that leaves `process_handshake`. -/
def HandshakeError.what : HandshakeError → String
  | protocolLength => "Handshake failed: Invalid handshake protocol length"
  | protocolString => "Handshake failed: Invalid handshake protocol string"
  | infoHashMismatch => "Handshake failed: InfoHash mismatch - peer is confused"

namespace Handshake

def protocolLen : UInt8 := 19

def protocolString : Bytes := ascii "BitTorrent protocol"

def handshakeSize : Nat := 68

def serialize (handshake : Handshake) : Bytes :=
  protocolLen :: (protocolString ++ (handshake.reserved.toList ++
    (handshake.infoHash.toList ++ handshake.peerId.toList)))

/-- `memcpy` of `size` bytes from `offset` on. -/
def copied (size : Nat) (buffer : Bytes) (offset : Nat) : Vector UInt8 size :=
  Vector.ofFn fun k => buffer.getD (offset + k) 0

def deserialize (buffer : Bytes) : Except HandshakeError Handshake :=
  if buffer.head? ≠ some protocolLen then .error .protocolLength
  else if (buffer.drop 1).take protocolString.length ≠ protocolString then .error .protocolString
  else
    let offset := 1 + protocolString.length
    .ok { reserved := copied 8 buffer offset
          infoHash := copied 20 buffer (offset + 8)
          peerId := copied 20 buffer (offset + 8 + 20) }

@[simp] theorem length_serialize (handshake : Handshake) :
    handshake.serialize.length = handshakeSize := by
  simp [serialize, protocolString, handshakeSize, ascii]

theorem copied_eq {size : Nat} (front rest : Bytes) (field : Vector UInt8 size) :
    copied size (front ++ (field.toList ++ rest)) front.length = field := by
  apply Vector.ext
  intro k bound
  have inside : k < field.toList.length := by rwa [Vector.length_toList]
  rw [copied, Vector.getElem_ofFn, List.getD_eq_getElem?_getD,
    List.getElem?_append_right (Nat.le_add_right ..), Nat.add_sub_cancel_left,
    List.getElem?_append_left inside, List.getElem?_eq_getElem inside, Option.getD_some,
    Vector.getElem_toList]

/-- What a peer has written is read back, whatever follows it. -/
theorem deserialize_serialize (handshake : Handshake) :
    deserialize handshake.serialize = .ok handshake := by
  obtain ⟨reserved, infoHash, peerId⟩ := handshake
  have protocol : ((serialize ⟨reserved, infoHash, peerId⟩).drop 1).take protocolString.length =
      protocolString := by
    rw [serialize, List.drop_succ_cons, List.drop_zero, List.take_left]
  -- Each field stands behind the ones before it.
  have first := copied_eq (protocolLen :: protocolString)
    (infoHash.toList ++ peerId.toList) reserved
  have second := copied_eq (protocolLen :: (protocolString ++ reserved.toList)) peerId.toList
    infoHash
  have third := copied_eq (protocolLen :: (protocolString ++ (reserved.toList ++ infoHash.toList)))
    [] peerId
  simp only [List.cons_append, List.append_assoc, List.append_nil, List.length_cons,
    List.length_append, Vector.length_toList, ← Nat.add_assoc] at first second third
  unfold deserialize
  rw [if_neg (by simp [serialize]), if_neg (not_not.mpr protocol)]
  simp only [serialize, Nat.add_comm 1, Nat.add_right_comm _ 1]
  rw [first, second, third]

end Handshake

end K0Torrent
