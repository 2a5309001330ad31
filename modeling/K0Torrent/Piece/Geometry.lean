import K0Torrent.Disk.Layout
import K0Torrent.Library.Chunks
import K0Torrent.Piece.Blocks

/-! Where the pieces and blocks of a consistent torrent lie.

While the piece length fits `uint32_t`, the piece manager and the disk manager
agree on every position, and each position belongs to one block of one piece.
-/

set_option autoImplicit false

namespace K0Torrent

def TorrentFile.pieceWidth (torrent : TorrentFile) : Nat := torrent.pieceLength.toNat

/-- The position belongs to the piece. -/
structure InPiece (torrent : TorrentFile) (pieceIndex position : Nat) : Prop where
  lower : pieceIndex * torrent.pieceWidth ≤ position
  upper : position < pieceIndex * torrent.pieceWidth + PieceManager.pieceSize torrent pieceIndex

/-- The position belongs to the block of the piece. -/
structure InBlock (torrent : TorrentFile) (pieceIndex : Nat) (block : Block) (position : Nat) :
    Prop where
  lower : pieceIndex * torrent.pieceWidth + block.offset ≤ position
  upper : position < pieceIndex * torrent.pieceWidth + block.offset + block.length

/-- A torrent cut into pieces of one width that fits `uint32_t`, the last one shorter. -/
structure Divided (torrent : TorrentFile) : Prop where
  pieceLength : 0 < torrent.pieceLength ∧ torrent.pieceLength < 2 ^ 32
  size : torrent.totalSize < 2 ^ 63
  pieces : (torrent.pieces.length : Int) =
    (torrent.totalSize + torrent.pieceLength - 1) / torrent.pieceLength

theorem start_lt_of_pieces {torrent : TorrentFile} (positive : 0 < torrent.pieceLength)
    (pieces : (torrent.pieces.length : Int) =
      (torrent.totalSize + torrent.pieceLength - 1) / torrent.pieceLength)
    {pieceIndex : Nat} (bound : pieceIndex < torrent.pieces.length) :
    pieceIndex * torrent.pieceWidth < torrent.size := by
  have reached : ((pieceIndex : Int) + 1) * torrent.pieceLength ≤
      torrent.totalSize + torrent.pieceLength - 1 := by
    apply (Int.le_ediv_iff_mul_le positive).mp
    omega
  rw [Int.add_mul, Int.one_mul] at reached
  have width : (torrent.pieceWidth : Int) = torrent.pieceLength := by
    unfold TorrentFile.pieceWidth
    omega
  have start : ((pieceIndex * torrent.pieceWidth : Nat) : Int) =
      pieceIndex * torrent.pieceLength := by
    rw [Int.natCast_mul, width]
  unfold TorrentFile.size
  omega

/-- The piece manager computes the length of a piece that starts inside the torrent. -/
theorem pieceSize_of_start {torrent : TorrentFile} (positive : 0 < torrent.pieceLength)
    (fits : torrent.pieceLength < 2 ^ 32) (small : torrent.totalSize < 2 ^ 63) {pieceIndex : Nat}
    (start : pieceIndex * torrent.pieceWidth < torrent.size) :
    PieceManager.pieceSize torrent pieceIndex =
      min torrent.pieceWidth (torrent.size - pieceIndex * torrent.pieceWidth) := by
  have short : torrent.size < 2 ^ 63 := by
    unfold TorrentFile.size
    omega
  have width : castU32 torrent.pieceLength = torrent.pieceWidth := by
    have cast := castU32_of_range torrent.pieceLength (by omega) fits
    unfold TorrentFile.pieceWidth
    omega
  have bounded : torrent.pieceWidth < 2 ^ 32 := by
    unfold TorrentFile.pieceWidth
    omega
  have total : castU64 torrent.totalSize = torrent.size := by
    have nonneg : 0 ≤ torrent.totalSize := by
      unfold TorrentFile.size at start
      omega
    have cast := castU64_of_range torrent.totalSize nonneg (Int.lt_trans small (by decide))
    unfold TorrentFile.size
    omega
  unfold PieceManager.pieceSize
  simp only [width, total]
  -- What is left is the comparison of the last piece with the width, in `uint64_t`.
  generalize pieceIndex * torrent.pieceWidth = first at start ⊢
  split <;> omega

theorem Divided.pieceSize_eq {torrent : TorrentFile} (divided : Divided torrent) {pieceIndex : Nat}
    (bound : pieceIndex < torrent.pieces.length) :
    PieceManager.pieceSize torrent pieceIndex =
      min torrent.pieceWidth (torrent.size - pieceIndex * torrent.pieceWidth) :=
  pieceSize_of_start divided.pieceLength.1 divided.pieceLength.2 divided.size
    (start_lt_of_pieces divided.pieceLength.1 divided.pieces bound)

/-- A consistent torrent whose piece length fits `uint32_t`. -/
structure Addressable (torrent : TorrentFile) (downloadDir workingDir : Bytes) : Prop
    extends Consistent torrent downloadDir workingDir where
  small : torrent.pieceLength < 2 ^ 32

theorem Addressable.divided {torrent : TorrentFile} {downloadDir workingDir : Bytes}
    (addressable : Addressable torrent downloadDir workingDir) : Divided torrent where
  pieceLength := ⟨addressable.pieceLength.1, addressable.small⟩
  size := addressable.size
  pieces := addressable.pieces

section
variable {torrent : TorrentFile} {downloadDir workingDir : Bytes}

theorem pieceWidth_pos (consistent : Consistent torrent downloadDir workingDir) : 0 < torrent.pieceWidth := by
  have positive := consistent.pieceLength.1
  unfold TorrentFile.pieceWidth
  omega

theorem cast_pieceWidth (consistent : Consistent torrent downloadDir workingDir) :
    (torrent.pieceWidth : Int) = torrent.pieceLength := by
  have positive := consistent.pieceLength.1
  unfold TorrentFile.pieceWidth
  omega

/-- Every piece starts within the torrent. -/
theorem pieceStart_lt (consistent : Consistent torrent downloadDir workingDir) {pieceIndex : Nat}
    (bound : pieceIndex < torrent.pieces.length) :
    pieceIndex * torrent.pieceWidth < torrent.size :=
  start_lt_of_pieces consistent.pieceLength.1 consistent.pieces bound

/-- The pieces reach the end of the torrent. -/
theorem size_le_pieces (consistent : Consistent torrent downloadDir workingDir) :
    torrent.size ≤ torrent.pieces.length * torrent.pieceWidth := by
  have positive := consistent.pieceLength.1
  have ceiling := consistent.pieces
  have reached := Int.lt_ediv_add_one_mul_self
    (torrent.totalSize + torrent.pieceLength - 1) positive
  rw [← ceiling, Int.add_mul, Int.one_mul] at reached
  have stop : ((torrent.pieces.length * torrent.pieceWidth : Nat) : Int) =
      torrent.pieces.length * torrent.pieceLength := by
    rw [Int.natCast_mul, cast_pieceWidth consistent]
  unfold TorrentFile.size
  omega

variable (addressable : Addressable torrent downloadDir workingDir)
include addressable

theorem pieceSize_eq {pieceIndex : Nat} (bound : pieceIndex < torrent.pieces.length) :
    PieceManager.pieceSize torrent pieceIndex =
      min torrent.pieceWidth (torrent.size - pieceIndex * torrent.pieceWidth) :=
  addressable.divided.pieceSize_eq bound

theorem globalOffset_eq {pieceIndex blockOffset : Nat} (bound : pieceIndex < torrent.pieces.length)
    (fits : blockOffset < 2 ^ 32) :
    (DiskManager.new torrent downloadDir workingDir).globalOffset pieceIndex blockOffset =
      pieceIndex * torrent.pieceWidth + blockOffset := by
  have start := pieceStart_lt addressable.toConsistent bound
  have small := size_lt addressable.toConsistent
  have range := addressable.pieceLength
  have width : castU64 torrent.pieceLength = torrent.pieceWidth := by
    have cast := castU64_of_range torrent.pieceLength (by omega)
      (Int.lt_trans range.2 (by decide))
    unfold TorrentFile.pieceWidth
    omega
  have same : (DiskManager.new torrent downloadDir workingDir).pieceLength = torrent.pieceWidth := width
  rw [DiskManager.globalOffset, same]
  exact Nat.mod_eq_of_lt (by omega)

theorem InPiece.lt_size {pieceIndex position : Nat} (bound : pieceIndex < torrent.pieces.length)
    (inside : InPiece torrent pieceIndex position) : position < torrent.size := by
  obtain ⟨lower, upper⟩ := inside
  rw [pieceSize_eq addressable bound] at upper
  omega

end

theorem InBlock.inPiece {torrent : TorrentFile} {pieceIndex position k : Nat} {active : ActivePiece}
    {block : Block} (inside : InBlock torrent pieceIndex block position)
    (wellFormed : PieceManager.WellFormed torrent pieceIndex active)
    (at_ : active.blocks[k]? = some block) : InPiece torrent pieceIndex position := by
  obtain ⟨lower, upper⟩ := inside
  obtain ⟨bound, -, offset, length⟩ := wellFormed.block at_
  constructor
  · omega
  · rw [length] at upper
    omega

namespace PieceManager

/-- Blocks that hold the bytes `f` has at their positions make up the piece. -/
theorem completedPiece_eq {torrent : TorrentFile} {pieceIndex : Nat} {blocks : List Block}
    {f : Nat → Option UInt8}
    (shapes : blocks.map Block.shape =
      (initActivePiece torrent pieceIndex).blocks.map Block.shape)
    (some_ : blocks ≠ [])
    (whole : ∀ block ∈ blocks, block.data.length = block.length)
    (holds : ∀ block ∈ blocks, ∀ j byte, block.data[j]? = some byte →
      f (block.offset + j) = some byte) :
    (completedPiece blocks).map some = (List.range (pieceSize torrent pieceIndex)).map f := by
  have count : blocks.length = blockCount (pieceSize torrent pieceIndex) := by
    have lengths := congrArg List.length shapes
    rw [List.length_map, List.length_map] at lengths
    rw [lengths, length_initActivePiece]
  rw [completedPiece, List.flatMap_def]
  apply Chunks.map_some_flatten
  · intro k chunk found
    rw [List.getElem?_map] at found
    obtain ⟨block, at_, rfl⟩ := Option.map_eq_some_iff.mp found
    obtain ⟨-, -, offset, length⟩ := block_of_shapes shapes at_
    have member := List.mem_of_getElem? at_
    refine ⟨(whole block member).trans length, fun j byte value => ?_⟩
    rw [← offset]
    exact holds block member j byte value
  · have positive : 0 < blockCount (pieceSize torrent pieceIndex) := by
      rw [← count]
      exact List.length_pos_iff.mpr some_
    rw [List.length_map, count]
    exact (size_of_blockCount positive (pieceSize_lt ..)).2.2

end PieceManager

end K0Torrent
