import K0Torrent.Disk.Places
import K0Torrent.Piece.Representation
import K0Torrent.Torrent.Accepted

/-! Which of the accepted torrents have pieces.

`parse_torrent` takes every size as it stands in the file. What `init_active_piece`
computes from the sizes is meant for those that can be cut into pieces.
-/

set_option autoImplicit false

namespace K0Torrent

/-- Adding up the lengths of the files never leaves `int64_t`. -/
def TorrentFile.SumFits (torrent : TorrentFile) : Prop :=
  ∀ front ∈ (torrent.files.map FileInfo.length).inits, IsInt64 front.sum

instance (torrent : TorrentFile) : Decidable torrent.SumFits :=
  inferInstanceAs (Decidable (∀ front ∈ _, _))

theorem totalSize_lt {torrent : TorrentFile} (sizes : Int64Sizes torrent) (sum : torrent.SumFits) :
    torrent.totalSize < 2 ^ 63 := by
  unfold TorrentFile.totalSize
  split
  · exact (sum _ ((List.mem_inits ..).mpr (List.prefix_refl _))).2
  · exact sizes.length.2

/-- The sizes of a torrent whose last piece starts before its end, with piece lengths
that the block count can express. -/
structure Cuttable (torrent : TorrentFile) : Prop where
  pieceLength : 0 < torrent.pieceLength ∧ torrent.pieceLength < 2 ^ 32
  sum : torrent.SumFits
  pieces : (torrent.pieces.length - 1 : Int) * torrent.pieceLength < torrent.totalSize
  short : min torrent.pieceLength torrent.totalSize ≤ 2 ^ 32 - 16384

theorem Cuttable.starts {torrent : TorrentFile} (cuttable : Cuttable torrent) {pieceIndex : Nat}
    (bound : pieceIndex < torrent.pieces.length) :
    pieceIndex * torrent.pieceLength < torrent.totalSize := by
  refine Int.lt_of_le_of_lt ?_ cuttable.pieces
  exact Int.mul_le_mul_of_nonneg_right (by omega) (Int.le_of_lt cuttable.pieceLength.1)

/-- The start of a piece, counted as the source does and as an integer. -/
theorem start_lt_iff {torrent : TorrentFile} (positive : 0 < torrent.pieceLength) (pieceIndex : Nat) :
    pieceIndex * torrent.pieceWidth < torrent.size ↔
      pieceIndex * torrent.pieceLength < torrent.totalSize := by
  have width : (torrent.pieceWidth : Int) = torrent.pieceLength := by
    unfold TorrentFile.pieceWidth
    omega
  have start : ((pieceIndex * torrent.pieceWidth : Nat) : Int) = pieceIndex * torrent.pieceLength := by
    rw [Int.natCast_mul, width]
  unfold TorrentFile.size
  omega

namespace PieceManager

/-- Whatever `init_active_piece` computes for the piece comes out as it is meant. -/
structure WellDefined (torrent : TorrentFile) (pieceIndex : Nat) : Prop where
  narrowed : (castU32 torrent.pieceLength : Int) = torrent.pieceLength
  positive : 0 < torrent.pieceLength
  sum : torrent.SumFits
  starts : pieceIndex * torrent.pieceLength < torrent.totalSize
  rounded : pieceSize torrent pieceIndex + blockSize - 1 < 2 ^ 32
  some_ : (initActivePiece torrent pieceIndex).blocks ≠ []
  tiles : Tiles 0 (initActivePiece torrent pieceIndex).blocks
    (min torrent.pieceWidth (torrent.size - pieceIndex * torrent.pieceWidth))

theorem blocks_ne_nil_of_size {torrent : TorrentFile} {pieceIndex : Nat}
    (positive : 0 < pieceSize torrent pieceIndex)
    (rounded : pieceSize torrent pieceIndex + blockSize - 1 < 2 ^ 32) :
    (initActivePiece torrent pieceIndex).blocks ≠ [] := by
  apply List.ne_nil_of_length_pos
  rw [length_initActivePiece]
  unfold blockCount
  unfold blockSize at rounded ⊢
  omega

section
variable {torrent : TorrentFile} (sizes : Int64Sizes torrent)
include sizes

theorem wellDefined_of_cuttable (cuttable : Cuttable torrent) {pieceIndex : Nat}
    (bound : pieceIndex < torrent.pieces.length) : WellDefined torrent pieceIndex := by
  obtain ⟨positive, fits⟩ := cuttable.pieceLength
  have starts := cuttable.starts bound
  have start := (start_lt_iff positive pieceIndex).mpr starts
  have size := pieceSize_of_start positive fits (totalSize_lt sizes cuttable.sum) start
  have short := cuttable.short
  have width : 0 < torrent.pieceWidth ∧
      min torrent.pieceWidth torrent.size ≤ 2 ^ 32 - 16384 := by
    unfold TorrentFile.pieceWidth TorrentFile.size
    omega
  have rounded : pieceSize torrent pieceIndex + blockSize - 1 < 2 ^ 32 := by
    unfold blockSize
    omega
  have some_ := blocks_ne_nil_of_size (by omega) rounded
  refine ⟨castU32_of_range _ (Int.le_of_lt positive) fits, positive, cuttable.sum, starts, rounded,
    some_, ?_⟩
  rw [← size]
  exact (wellFormed_init torrent pieceIndex).tiles some_

theorem cuttable_of_wellDefined (some_ : torrent.pieces ≠ [])
    (all : ∀ pieceIndex < torrent.pieces.length, WellDefined torrent pieceIndex) :
    Cuttable torrent := by
  have pieces := List.length_pos_iff.mpr some_
  have first := all 0 pieces
  have last := all (torrent.pieces.length - 1) (Nat.sub_lt pieces Nat.one_pos)
  have fits : torrent.pieceLength < 2 ^ 32 := by
    have narrowed := first.narrowed
    have bound := castU32_lt torrent.pieceLength
    omega
  have start := (start_lt_iff first.positive 0).mpr first.starts
  -- The first piece is the longest one.
  have size := pieceSize_of_start first.positive fits (totalSize_lt sizes first.sum) start
  have rounded := first.rounded
  refine ⟨⟨first.positive, fits⟩, first.sum, ?_, ?_⟩
  · have starts := last.starts
    rwa [Nat.cast_sub pieces] at starts
  · rw [size, Nat.zero_mul, Nat.sub_zero] at rounded
    unfold blockSize TorrentFile.pieceWidth TorrentFile.size at rounded
    omega

end

/-- The pieces of an accepted torrent are all well defined exactly if there are none, or
its sizes can be cut into that many. -/
theorem wellDefined_iff {sha1 : Bytes → Digest} {raw : Bytes} {torrent : TorrentFile}
    (accepted : Accepts sha1 raw torrent) :
    (∀ pieceIndex < torrent.pieces.length, WellDefined torrent pieceIndex) ↔
      torrent.pieces = [] ∨ Cuttable torrent := by
  have sizes := int64Sizes_of_accepts accepted
  constructor
  · intro all
    by_cases none_ : torrent.pieces = []
    · exact .inl none_
    · exact .inr (cuttable_of_wellDefined sizes none_ all)
  · rintro (none_ | cuttable) pieceIndex bound
    · rw [none_] at bound
      exact absurd bound (Nat.not_lt_zero _)
    · exact wellDefined_of_cuttable sizes cuttable bound

/-! ## A hash too many -/

def surplusRaw : Bytes :=
  ascii "d4:infod6:lengthi1e4:name1:x12:piece lengthi32768e6:pieces40:AAAAAAAAAAAAAAAAAAAAAAAAAAAAAAAAAAAAAAAAee"

def surplusInfo : BencodeValue :=
  .dict [(ascii "length", .int 1), (ascii "name", .string (ascii "x")),
    (ascii "piece length", .int 32768),
    (ascii "pieces", .string (ascii "AAAAAAAAAAAAAAAAAAAAAAAAAAAAAAAAAAAAAAAA"))]

/-- One byte, with the hashes of two pieces. -/
def surplusTorrent : TorrentFile where
  infoHash := zeroHash (encode surplusInfo)
  name := ascii "x"
  announce := []
  announceList := []
  pieceLength := 32768
  pieces := [hashAt (ascii "AAAAAAAAAAAAAAAAAAAA") 0, hashAt (ascii "AAAAAAAAAAAAAAAAAAAA") 0]
  length := 1
  files := []
  comment := []
  createdBy := []
  creationDate := none

theorem accepts_surplus : Accepts zeroHash surplusRaw surplusTorrent := by
  have native : Native surplusInfo := by
    simp [surplusInfo, Native, NativeEntries, Ascending, ascii]
    decide
  have root : Native (.dict [(ascii "info", surplusInfo)]) :=
    ⟨⟨native, trivial⟩, List.pairwise_singleton ..⟩
  have found : find surplusRaw infoKey = some 1 := by decide +kernel
  exact accepts_encode root native (by decide +kernel) (ascii "d4:info") (ascii "e")
    (by decide +kernel) (by decide +kernel) found (by decide +kernel) rfl

/-- The second piece starts behind the only byte. What is left wraps, and the piece
gets the blocks of almost `2 ^ 32` bytes. -/
theorem surplus_wraps :
    Accepts zeroHash surplusRaw surplusTorrent ∧ 1 < surplusTorrent.pieces.length ∧
      pieceSize surplusTorrent 1 = 2 ^ 32 - 32767 ∧
      (initActivePiece surplusTorrent 1).blocks.length = 262143 ∧
      ¬ WellDefined surplusTorrent 1 := by
  have wrapped : pieceSize surplusTorrent 1 = 2 ^ 32 - 32767 := by decide +kernel
  refine ⟨accepts_surplus, by decide, wrapped, ?_, fun wellDefined => ?_⟩
  · rw [length_initActivePiece, wrapped]
    decide
  · exact absurd wellDefined.starts (by decide)

/-! ## Three bytes in two pieces -/

def threeBytesRaw : Bytes :=
  ascii "d4:infod6:lengthi3e4:name1:x12:piece lengthi2e6:pieces40:AAAAAAAAAAAAAAAAAAAAAAAAAAAAAAAAAAAAAAAAee"

def threeBytesInfo : BencodeValue :=
  .dict [(ascii "length", .int 3), (ascii "name", .string (ascii "x")),
    (ascii "piece length", .int 2),
    (ascii "pieces", .string (ascii "AAAAAAAAAAAAAAAAAAAAAAAAAAAAAAAAAAAAAAAA"))]

def threeBytes : TorrentFile :=
  { surplusTorrent with infoHash := zeroHash (encode threeBytesInfo), pieceLength := 2, length := 3 }

theorem accepts_threeBytes : Accepts zeroHash threeBytesRaw threeBytes := by
  have native : Native threeBytesInfo := by
    simp [threeBytesInfo, Native, NativeEntries, Ascending, ascii]
    decide
  have root : Native (.dict [(ascii "info", threeBytesInfo)]) :=
    ⟨⟨native, trivial⟩, List.pairwise_singleton ..⟩
  have found : find threeBytesRaw infoKey = some 1 := by decide +kernel
  exact accepts_encode root native (by decide +kernel) (ascii "d4:info") (ascii "e")
    (by decide +kernel) (by decide +kernel) found (by decide +kernel) rfl

/-- The one torrent can be cut into its pieces and the other one cannot. -/
theorem wellDefined_threeBytes :
    (∀ pieceIndex < threeBytes.pieces.length, WellDefined threeBytes pieceIndex) ∧
      ¬ ∀ pieceIndex < surplusTorrent.pieces.length, WellDefined surplusTorrent pieceIndex := by
  have cuttable : Cuttable threeBytes :=
    ⟨by decide, by decide, by decide, by decide⟩
  refine ⟨(wellDefined_iff accepts_threeBytes).mpr (.inr cuttable), fun all => ?_⟩
  rcases (wellDefined_iff accepts_surplus).mp all with none_ | cuttable
  · cases none_
  · exact absurd cuttable.pieces (by decide)

end PieceManager

end K0Torrent
