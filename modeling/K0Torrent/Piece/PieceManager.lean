import K0Torrent.Peer.Message
import K0Torrent.Peer.Peer
import K0Torrent.Torrent.TorrentFile
import Mathlib.Data.List.AList

/-! The blocks a download consists of (`block.hpp`, `piece_picker.cpp`,
`piece_manager.cpp`).

`std::unordered_map` does not fix the order of a loop over it, so such a loop is
given the order to use.
-/

set_option autoImplicit false

namespace K0Torrent

def blockSize : Nat := 16 * 1024

inductive BlockState where
  | missing
  | requested
  | downloaded
  deriving DecidableEq

structure Block where
  index : Nat
  offset : Nat
  length : Nat
  state : BlockState := .missing
  data : Bytes := []
  deriving DecidableEq

structure ActivePiece where
  index : Nat
  -- The source leaves it unset for a piece without blocks, and then never reads it.
  totalBlocks : Nat
  blocksDownloaded : Nat
  blocks : List Block
  deriving DecidableEq

def Block.request (block : Block) : Block := { block with state := .requested }

def Block.fill (data : Bytes) (block : Block) : Block := { block with data, state := .downloaded }

def Block.reset (block : Block) : Block := { block with state := .missing, data := [] }

/-- The contents of a `Request`. -/
structure BlockRequest where
  piece : Nat
  offset : Nat
  length : Nat
  deriving DecidableEq

def BlockRequest.message (request : BlockRequest) : PeerMessage :=
  ⟨.request, writeU32 request.piece ++ (writeU32 request.offset ++ writeU32 request.length)⟩

/-- The fields are values of `uint32_t`. -/
def BlockRequest.Fits (request : BlockRequest) : Prop :=
  request.piece < 2 ^ 32 ∧ request.offset < 2 ^ 32 ∧ request.length < 2 ^ 32

instance (request : BlockRequest) : Decidable request.Fits :=
  inferInstanceAs (Decidable (_ ∧ _ ∧ _))

structure PiecePicker where
  totalPieces : Nat
  completedPieces : List Bool
  fits : totalPieces < 2 ^ 32
  sized : completedPieces.length = totalPieces

namespace PiecePicker

def new (totalPieces : Nat) (fits : totalPieces < 2 ^ 32) : PiecePicker where
  totalPieces := totalPieces
  completedPieces := List.replicate totalPieces false
  fits := fits
  sized := List.length_replicate

def isCompleted (picker : PiecePicker) (pieceIndex : Nat) : Bool :=
  picker.completedPieces.getD pieceIndex false

def markCompleted (picker : PiecePicker) (pieceIndex : Nat) : PiecePicker :=
  if pieceIndex < picker.totalPieces then
    { picker with
      completedPieces := picker.completedPieces.set pieceIndex true
      sized := List.length_set.trans picker.sized }
  else picker

/-- `static_cast<int>` of a `uint32_t`. -/
def castInt (n : Nat) : Int := if n < 2 ^ 31 then n else n - 2 ^ 32

def pickNextPiece (picker : PiecePicker) (peer : Peer) (skip : List Nat) : Int :=
  match (List.range picker.totalPieces).find? fun i =>
    !picker.isCompleted i && !skip.contains i && peer.hasPiece i with
  | some i => castInt i
  | none => -1

end PiecePicker

structure PieceManager where
  torrent : TorrentFile
  picker : PiecePicker
  activePieces : AList fun _ : Nat => ActivePiece

/-- The order in which a loop over the active pieces meets their indices. -/
structure IterationOrder where
  scan : List Nat → List Nat
  perm : ∀ keys, (scan keys).Perm keys

namespace PieceManager

def new (torrent : TorrentFile) : PieceManager where
  torrent := torrent
  picker := PiecePicker.new (torrent.pieces.length % 2 ^ 32) (Nat.mod_lt _ (by decide))
  activePieces := ∅

/-- The length `init_active_piece` gives a piece, in `uint32_t`. -/
def pieceSize (torrent : TorrentFile) (pieceIndex : Nat) : Nat :=
  let totalSize := castU64 torrent.totalSize
  let pieceLength := castU32 torrent.pieceLength
  let offsetInTorrent := pieceIndex * pieceLength % 2 ^ 64
  if totalSize < (offsetInTorrent + pieceLength) % 2 ^ 64 then
    (totalSize + 2 ^ 64 - offsetInTorrent) % 2 ^ 64 % 2 ^ 32
  else pieceLength

def blockCount (size : Nat) : Nat := (size + blockSize - 1) % 2 ^ 32 / blockSize

def initBlock (size i : Nat) : Block :=
  let offset := i * blockSize % 2 ^ 32
  { index := i, offset, length := min blockSize ((size + 2 ^ 32 - offset) % 2 ^ 32) }

def initActivePiece (torrent : TorrentFile) (pieceIndex : Nat) : ActivePiece :=
  let size := pieceSize torrent pieceIndex
  if size = 0 then
    { index := pieceIndex, totalBlocks := 0, blocksDownloaded := 0, blocks := [] }
  else
    { index := pieceIndex, totalBlocks := blockCount size, blocksDownloaded := 0
      blocks := (List.range (blockCount size)).map (initBlock size) }

def maxActivePieces : Nat := 10

/-- Mark a block as requested and build the request for it. -/
def requestBlock (manager : PieceManager) (pieceIndex : Nat) (active : ActivePiece) (k : Nat)
    (block : Block) : PieceManager × BlockRequest :=
  let blocks := active.blocks.modify k Block.request
  ({ manager with activePieces := manager.activePieces.insert pieceIndex { active with blocks } },
    ⟨pieceIndex, block.offset, block.length⟩)

/-- A missing block of an active piece, if the peer has the piece. -/
def missingBlock (manager : PieceManager) (peer : Peer) (pieceIndex : Nat) :
    Option (ActivePiece × Nat × Block) :=
  if peer.hasPiece pieceIndex then do
    let active ← manager.activePieces.lookup pieceIndex
    let k ← active.blocks.findIdx? fun block => block.state = .missing
    let block ← active.blocks[k]?
    return (active, k, block)
  else none

def createNextRequest (order : IterationOrder) (manager : PieceManager) (peer : Peer) :
    PieceManager × Option BlockRequest :=
  match (order.scan manager.activePieces.keys).findSome? fun pieceIndex =>
      (manager.missingBlock peer pieceIndex).map (pieceIndex, ·) with
  | some (pieceIndex, active, k, block) =>
    let (manager, request) := manager.requestBlock pieceIndex active k block
    (manager, some request)
  | none =>
    if maxActivePieces ≤ manager.activePieces.keys.length then (manager, none)
    else
      let next := manager.picker.pickNextPiece peer manager.activePieces.keys
      if next = -1 then (manager, none)
      else
        let pieceIndex := castU32 next
        let active := initActivePiece manager.torrent pieceIndex
        let manager :=
          { manager with activePieces := manager.activePieces.insert pieceIndex active }
        match active.blocks with
        | [] => (manager, none)
        | block :: _ =>
          let (manager, request) := manager.requestBlock pieceIndex active 0 block
          (manager, some request)

/-- `get_completed_piece`, of the blocks of an active piece. -/
def completedPiece (blocks : List Block) : Bytes := blocks.flatMap Block.data

def verifyPieceHash (sha1 : Bytes → Digest) (torrent : TorrentFile) (pieceIndex : Nat)
    (blocks : List Block) : Bool :=
  torrent.pieces[pieceIndex]? == some (sha1 (completedPiece blocks))

/-- Also says whether the piece was completed. -/
def processBlock (sha1 : Bytes → Digest) (manager : PieceManager) (pieceIndex blockOffset : Nat)
    (data : Bytes) : PieceManager × Bool :=
  match manager.activePieces.lookup pieceIndex with
  | none => (manager, false)
  | some active =>
    match active.blocks.findIdx? fun block =>
        block.offset = blockOffset && block.state ≠ .downloaded with
    | none => (manager, false)
    | some k =>
      let blocks := active.blocks.modify k (Block.fill data)
      let count := active.blocksDownloaded + 1
      if count = active.totalBlocks then
        if verifyPieceHash sha1 manager.torrent pieceIndex blocks then
          ({ manager with
              picker := manager.picker.markCompleted pieceIndex
              activePieces := manager.activePieces.erase pieceIndex }, true)
        else
          ({ manager with
              activePieces := manager.activePieces.insert pieceIndex
                { active with blocksDownloaded := 0, blocks := blocks.map Block.reset } }, false)
      else
        ({ manager with
            activePieces := manager.activePieces.insert pieceIndex
              { active with blocksDownloaded := count, blocks } }, false)

end PieceManager

end K0Torrent
