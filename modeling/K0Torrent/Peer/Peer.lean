import K0Torrent.Common.Types

/-! What a session knows of a peer (`peer.hpp`, `peer.cpp`). -/

set_option autoImplicit false

namespace K0Torrent

structure Peer where
  amInterested : Bool := false
  peerChoking : Bool := true
  peerInterested : Bool := false
  bitfield : Bytes := []
  deriving DecidableEq

namespace Peer

def hasPiece (peer : Peer) (pieceIndex : Nat) : Bool :=
  match peer.bitfield[pieceIndex / 8]? with
  | none => false
  | some byte => byte.toNat &&& (1 <<< (7 - pieceIndex % 8)) != 0

def setPiece (peer : Peer) (pieceIndex : Nat) : Peer :=
  let byteIndex := pieceIndex / 8
  let resized := peer.bitfield ++ List.replicate (byteIndex + 1 - peer.bitfield.length) 0
  { peer with
    bitfield := resized.modify byteIndex fun byte =>
      UInt8.ofNat (byte.toNat ||| (1 <<< (7 - pieceIndex % 8))) }

theorem hasPiece_congr {peer other : Peer} (same : other.bitfield = peer.bitfield)
    (pieceIndex : Nat) : other.hasPiece pieceIndex = peer.hasPiece pieceIndex := by
  unfold hasPiece
  rw [same]

end Peer

end K0Torrent
