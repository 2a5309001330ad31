import K0Torrent.Piece.Geometry

/-! What the piece manager's data mean after any calls.

Most of it is the invariant of the piece manager, read for a torrent whose pieces
are no longer than the block count can express.
-/

set_option autoImplicit false

namespace K0Torrent.PieceManager

/-- A call from outside, with the iteration order it happens to meet. -/
inductive Call where
  | createNextRequest (order : IterationOrder) (peer : Peer)
  | processBlock (pieceIndex blockOffset : Nat) (data : Bytes)

def Call.run (sha1 : Bytes → Digest) (manager : PieceManager) : Call → PieceManager
  | createNextRequest order peer => (PieceManager.createNextRequest order manager peer).1
  | processBlock pieceIndex blockOffset data =>
    (PieceManager.processBlock sha1 manager pieceIndex blockOffset data).1

/-- The blocks stand end to end between the two offsets. -/
def Tiles : Nat → List Block → Nat → Prop
  | start, [], stop => start = stop
  | start, block :: rest, stop =>
    block.offset = start ∧ 1 ≤ block.length ∧ block.length ≤ blockSize ∧
      Tiles (start + block.length) rest stop

structure Represents (torrent : TorrentFile) (manager : PieceManager) : Prop where
  few : manager.activePieces.keys.length ≤ 10
  bound : ∀ pieceIndex ∈ manager.activePieces, pieceIndex < torrent.pieces.length
  incomplete : ∀ pieceIndex ∈ manager.activePieces, manager.picker.isCompleted pieceIndex = false
  tiles : ∀ pieceIndex active, manager.activePieces.lookup pieceIndex = some active →
    Tiles 0 active.blocks
      (min torrent.pieceWidth (torrent.size - pieceIndex * torrent.pieceWidth))
  count : ∀ pieceIndex active, manager.activePieces.lookup pieceIndex = some active →
    active.blocksDownloaded = active.blocks.countP Block.isDownloaded ∧
      active.blocksDownloaded < active.totalBlocks ∧ active.totalBlocks = active.blocks.length

/-! ## At most ten active pieces -/

def Capped (manager : PieceManager) : Prop := manager.activePieces.keys.length ≤ maxActivePieces

section
variable {manager next : PieceManager}

theorem Capped.setPiece (capped : manager.Capped) {pieceIndex : Nat}
    (member : pieceIndex ∈ manager.activePieces) (active : ActivePiece) :
    (manager.setPiece pieceIndex active).Capped := by
  rw [Capped, length_keys_setPiece, if_pos member]
  exact capped

theorem Capped.creates {peer : Peer} {request : Option BlockRequest} (capped : manager.Capped)
    (creates : manager.Creates peer next request) : next.Capped := by
  have opened {pieceIndex : Nat} (opens : manager.Opens peer pieceIndex) (active : ActivePiece) :
      (manager.setPiece pieceIndex active).Capped := by
    rw [Capped, length_keys_setPiece, if_neg opens.pickable.inactive]
    exact opens.room
  cases creates with
  | reuse at_ => exact capped.setPiece at_.mem _
  | idle => exact capped
  | blockless opens => exact opened opens _
  | fresh opens => exact opened opens _

theorem Capped.processes {sha1 : Bytes → Digest} {pieceIndex blockOffset : Nat} {data : Bytes}
    {done : Bool} (capped : manager.Capped)
    (processes : manager.Processes sha1 pieceIndex blockOffset data next done) : next.Capped := by
  cases processes with
  | rejected => exact capped
  | recorded takes => exact capped.setPiece takes.at_.mem _
  | failed takes => exact capped.setPiece takes.at_.mem _
  | completed =>
    rw [Capped, AList.keys_erase]
    exact Nat.le_trans (List.length_erase_le ..) capped

end

/-! ## Calls -/

section
variable {sha1 : Bytes → Digest} {manager : PieceManager}

theorem Call.run_torrent (call : Call) : (call.run sha1 manager).torrent = manager.torrent := by
  cases call with
  | createNextRequest order peer =>
    have creates := createNextRequest_creates order manager peer
    exact creates.torrent
  | processBlock pieceIndex blockOffset data =>
    exact (processBlock_processes sha1 manager pieceIndex blockOffset data).torrent

theorem Sound.run (sound : manager.Sound) (call : Call) : (call.run sha1 manager).Sound := by
  cases call with
  | createNextRequest order peer =>
    exact sound.creates (createNextRequest_creates order manager peer)
  | processBlock pieceIndex blockOffset data =>
    exact sound.processes (processBlock_processes sha1 manager pieceIndex blockOffset data)

theorem Capped.run (capped : manager.Capped) (call : Call) : (call.run sha1 manager).Capped := by
  cases call with
  | createNextRequest order peer =>
    exact capped.creates (createNextRequest_creates order manager peer)
  | processBlock pieceIndex blockOffset data =>
    exact capped.processes (processBlock_processes sha1 manager pieceIndex blockOffset data)

end

/-- What every call keeps holds after any calls. -/
theorem calls_induct {sha1 : Bytes → Digest} (Holds : PieceManager → Prop)
    (kept : ∀ {manager call}, Holds manager → Holds (Call.run sha1 manager call))
    (calls : List Call) : ∀ {manager : PieceManager}, Holds manager →
      Holds (calls.foldl (Call.run sha1) manager) := by
  induction calls with
  | nil => exact id
  | cons call calls ih => exact fun holds => ih (kept holds)

/-! ## Blocks that tile their piece -/

/-- Blocks of the full size, the last one cut off at `size`, tile what is left. -/
theorem tiles_of_offsets {size : Nat} (blocks : List Block) : ∀ {first : Nat},
    (∀ k block, blocks[k]? = some block → (first + k) * blockSize < size ∧
      block.offset = (first + k) * blockSize ∧
      block.length = min blockSize (size - (first + k) * blockSize)) →
    size ≤ (first + blocks.length) * blockSize →
    Tiles (min (first * blockSize) size) blocks size := by
  induction blocks with
  | nil =>
    intro first _ reached
    rw [List.length_nil, Nat.add_zero] at reached
    exact Nat.min_eq_right reached
  | cons block blocks ih =>
    intro first shapes reached
    obtain ⟨inside, offset, length⟩ := shapes 0 block rfl
    rw [Nat.add_zero] at inside offset length
    have later := @ih (first + 1)
      (fun k other at_ => by
        rw [show first + 1 + k = first + (k + 1) by omega]
        exact shapes (k + 1) other at_)
      (by
        rw [show first + 1 + blocks.length = first + (block :: blocks).length by
          rw [List.length_cons]
          omega]
        exact reached)
    have next : min (first * blockSize) size + block.length = min ((first + 1) * blockSize) size := by
      rw [length, Nat.add_mul, Nat.one_mul]
      generalize first * blockSize = begin_ at inside
      omega
    rw [← next] at later
    refine ⟨?_, ?_, ?_, later⟩
    · rw [offset, Nat.min_eq_left (Nat.le_of_lt inside)]
    · rw [length]
      unfold blockSize at inside ⊢
      omega
    · rw [length]
      exact Nat.min_le_left ..

theorem WellFormed.tiles {torrent : TorrentFile} {pieceIndex : Nat} {active : ActivePiece}
    (wellFormed : WellFormed torrent pieceIndex active)
    (some_ : active.blocks ≠ []) :
    Tiles 0 active.blocks (pieceSize torrent pieceIndex) := by
  have positive := List.length_pos_iff.mpr some_
  have count := wellFormed.length.trans (length_initActivePiece torrent pieceIndex)
  rw [count] at positive
  have fits := pieceSize_lt torrent pieceIndex
  have tiles := @tiles_of_offsets (pieceSize torrent pieceIndex) active.blocks 0
    (fun k block at_ => by
      obtain ⟨bound, -, offset, length⟩ := wellFormed.block at_
      rw [Nat.zero_add]
      exact ⟨(size_of_blockCount bound fits).2.1, offset, length⟩)
    (by
      rw [Nat.zero_add, count]
      exact (size_of_blockCount positive fits).2.2)
  rwa [Nat.zero_mul, Nat.zero_min] at tiles

/-- A torrent whose pieces the block count can express. -/
structure Countable (torrent : TorrentFile) : Prop where
  pieceLength : 0 < torrent.pieceLength ∧ torrent.pieceLength ≤ 2 ^ 32 - 16384
  size : 0 < torrent.totalSize
  pieces : (torrent.pieces.length : Int) =
    (torrent.totalSize + torrent.pieceLength - 1) / torrent.pieceLength
  few : torrent.pieces.length < 2 ^ 31

section
variable {torrent : TorrentFile} (countable : Countable torrent)
include countable

theorem Countable.divided : Divided torrent := by
  obtain ⟨⟨positive, fits⟩, some_, pieces, few⟩ := countable
  refine ⟨⟨positive, by omega⟩, ?_, pieces⟩
  have reached := Int.lt_ediv_add_one_mul_self (torrent.totalSize + torrent.pieceLength - 1) positive
  rw [← pieces, Int.add_mul, Int.one_mul] at reached
  have most : (torrent.pieces.length : Int) * torrent.pieceLength ≤ 2 ^ 31 * (2 ^ 32 - 16384) :=
    Int.mul_le_mul (by omega) fits (by omega) (by decide)
  omega

theorem Countable.blocks_ne_nil {pieceIndex : Nat} (bound : pieceIndex < torrent.pieces.length)
    {active : ActivePiece} (wellFormed : WellFormed torrent pieceIndex active) :
    active.blocks ≠ [] := by
  have size := countable.divided.pieceSize_eq bound
  have start := start_lt_of_pieces countable.pieceLength.1 countable.pieces bound
  have width : 0 < torrent.pieceWidth ∧ torrent.pieceWidth ≤ 2 ^ 32 - 16384 := by
    obtain ⟨positive, fits⟩ := countable.pieceLength
    unfold TorrentFile.pieceWidth
    omega
  have positive : 0 < blockCount (pieceSize torrent pieceIndex) := by
    generalize pieceIndex * torrent.pieceWidth = begin_ at start size
    unfold blockCount blockSize
    omega
  rw [← length_initActivePiece, ← wellFormed.length] at positive
  exact List.length_pos_iff.mp positive

theorem Countable.represents {manager : PieceManager} (sound : manager.Sound)
    (capped : manager.Capped) (same : manager.torrent = torrent) : Represents torrent manager := by
  have total : manager.picker.totalPieces = torrent.pieces.length := by
    have few := countable.few
    rw [sound.total, same]
    omega
  have bound {pieceIndex : Nat} (member : pieceIndex ∈ manager.activePieces) :
      pieceIndex < torrent.pieces.length := total ▸ sound.bound member
  have wellFormed {pieceIndex : Nat} {active : ActivePiece}
      (found : manager.activePieces.lookup pieceIndex = some active) :
      pieceIndex < torrent.pieces.length ∧ WellFormed torrent pieceIndex active := by
    refine ⟨bound (AList.lookup_isSome.mp ?_), same ▸ sound.wellFormed found⟩
    rw [found]
    rfl
  refine ⟨capped, fun _ => bound, fun _ => sound.incomplete, ?_, ?_⟩
  · intro pieceIndex active found
    obtain ⟨bound, wellFormed⟩ := wellFormed found
    rw [← countable.divided.pieceSize_eq bound]
    exact wellFormed.tiles (countable.blocks_ne_nil bound wellFormed)
  · intro pieceIndex active found
    obtain ⟨bound, wellFormed⟩ := wellFormed found
    exact ⟨wellFormed.count, wellFormed.waits (countable.blocks_ne_nil bound wellFormed),
      wellFormed.total⟩

end

theorem represents_of_calls {torrent : TorrentFile} (countable : Countable torrent)
    (sha1 : Bytes → Digest) (calls : List Call) :
    Represents torrent (calls.foldl (Call.run sha1) (new torrent)) := by
  have kept := @calls_induct sha1
    (fun manager => manager.torrent = torrent ∧ manager.Sound ∧ manager.Capped)
    (fun ⟨same, sound, capped⟩ => ⟨(Call.run_torrent _).trans same, sound.run _, capped.run _⟩)
    calls (new torrent) ⟨rfl, sound_new torrent, Nat.zero_le _⟩
  exact countable.represents kept.2.1 kept.2.2 kept.1

/-- Two pieces of two blocks and a last one of one block. -/
def threePieces : TorrentFile where
  infoHash := Vector.replicate 20 0
  name := ascii "a"
  announce := []
  announceList := []
  pieceLength := 20000
  pieces := List.replicate 3 (Vector.replicate 20 0)
  length := 50000
  files := []
  comment := []
  createdBy := []
  creationDate := none

theorem countable_threePieces : Countable threePieces :=
  ⟨by decide, by decide, by decide, by decide⟩

/-- A block is requested from a seeder and comes; another one comes unasked. -/
theorem represents_of_two_blocks : Represents threePieces
    ([Call.createNextRequest ⟨id, fun _ => List.Perm.refl _⟩ { bitfield := [0xE0] },
      .processBlock 0 0 [1, 2, 3], .processBlock 0 16384 []].foldl
        (Call.run fun _ => Vector.replicate 20 1) (new threePieces)) :=
  represents_of_calls countable_threePieces ..

end K0Torrent.PieceManager
