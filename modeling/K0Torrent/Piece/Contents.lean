import K0Torrent.Library.Machine
import K0Torrent.Piece.Representation

/-! What the downloaded blocks of a piece hold.

`process_block` stores whatever data comes for the offset of a block. As long as the data
are as long as the block, the piece that is hashed is put together from them byte by byte.
-/

set_option autoImplicit false

namespace K0Torrent.PieceManager

open Machine

def step (sha1 : Bytes → Digest) (manager : PieceManager) (call : Call) : Option PieceManager :=
  some (call.run sha1 manager)

/-- A block that is taken comes with as many bytes as were asked for. -/
def Call.Fits (manager : PieceManager) : Call → Prop
  | createNextRequest .. => True
  | processBlock pieceIndex blockOffset data =>
    ∀ active k block, manager.Takes pieceIndex blockOffset active k block →
      data.length = block.length

/-- The data of the block were delivered for it, and are as long as it. -/
structure Exact (history : List (Transition PieceManager Call)) (pieceIndex : Nat) (block : Block) :
    Prop where
  length : block.data.length = block.length
  delivered : ∃ x ∈ history, x.event = .processBlock pieceIndex block.offset block.data

/-- The byte that the block over this offset of the piece has for it. -/
def heldAt (blocks : List Block) (offset : Nat) : Option UInt8 :=
  blocks[offset / blockSize]?.bind fun block => block.data[offset - block.offset]?

/-- The blocks make up the piece, every byte at the offset it was delivered for. -/
structure Assembled (torrent : TorrentFile) (history : List (Transition PieceManager Call))
    (pieceIndex : Nat) (blocks : List Block) : Prop where
  exact : ∀ block ∈ blocks, Exact history pieceIndex block
  bytes : (completedPiece blocks).map some =
    (List.range (min torrent.pieceWidth (torrent.size - pieceIndex * torrent.pieceWidth))).map
      (heldAt blocks)

theorem Exact.mono {history : List (Transition PieceManager Call)} {pieceIndex : Nat} {block : Block}
    (exact : Exact history pieceIndex block) (x : Transition PieceManager Call) :
    Exact (x :: history) pieceIndex block where
  length := exact.length
  delivered := by
    obtain ⟨y, member, event⟩ := exact.delivered
    exact ⟨y, List.mem_cons_of_mem _ member, event⟩

/-- Every downloaded block is exact. -/
def AllExact (history : List (Transition PieceManager Call)) (manager : PieceManager) : Prop :=
  ∀ pieceIndex active k block, manager.BlockAt pieceIndex active k block →
    block.state = .downloaded → Exact history pieceIndex block

section
variable {sha1 : Bytes → Digest} {history : List (Transition PieceManager Call)}
  {manager : PieceManager}

theorem AllExact.run (exact : AllExact history manager) (sound : manager.Sound) {call : Call}
    (fits : call.Fits manager) (next : PieceManager) (same : next = call.run sha1 manager) :
    AllExact (⟨manager, call, next⟩ :: history) next := by
  intro other active k block at_ downloaded
  subst same
  cases call with
  | createNextRequest order peer =>
    rcases (createNextRequest_creates order manager peer).blockAt at_ with
      ⟨active', old⟩ | ⟨before, rfl, -⟩ | ⟨-, missing⟩
    · exact (exact _ _ _ _ old downloaded).mono _
    · cases downloaded
    · rw [missing] at downloaded
      cases downloaded
  | processBlock pieceIndex blockOffset data =>
    rcases (processBlock_processes sha1 manager pieceIndex blockOffset data).blockAt sound at_ with
      ⟨active', old, -⟩ | ⟨rfl, active', before, takes, -, rfl⟩ | ⟨-, missing⟩
    · exact (exact _ _ _ _ old downloaded).mono _
    · have length := fits _ _ _ takes
      refine ⟨length, _, List.mem_cons_self .., ?_⟩
      rw [← takes.offset]
      rfl
    · rw [missing] at downloaded
      cases downloaded

/-- All the blocks of a piece are exact once the last one has come. -/
theorem AllExact.filled (exact : AllExact history manager) (sound : manager.Sound)
    {pieceIndex blockOffset k : Nat} {data : Bytes} {active : ActivePiece} {block : Block}
    (takes : manager.Takes pieceIndex blockOffset active k block)
    (length : data.length = block.length)
    (last : active.blocksDownloaded + 1 = active.totalBlocks) (next : PieceManager) {other : Block}
    (member : other ∈ filled active k data) :
    Exact (⟨manager, .processBlock pieceIndex blockOffset data, next⟩ :: history) pieceIndex other := by
  have downloaded := downloaded_of_last (sound.wellFormed takes.at_.found) takes.at_.at_ takes.open_
    data last member
  obtain ⟨j, at_⟩ := List.getElem?_of_mem member
  rcases getElem?_modify_cases at_ with ⟨rfl, origin, found, rfl⟩ | ⟨-, found⟩
  · cases found.symm.trans takes.at_.at_
    refine ⟨length, _, List.mem_cons_self .., ?_⟩
    rw [← takes.offset]
    rfl
  · exact (exact _ _ _ _ ⟨takes.at_.found, found⟩ downloaded).mono _

end

/-- The offset of a byte in a block tells which block of the piece it is in. -/
theorem heldAt_of_shapes {torrent : TorrentFile} {pieceIndex : Nat} {blocks : List Block}
    (shapes : blocks.map Block.shape = (initActivePiece torrent pieceIndex).blocks.map Block.shape)
    {k j : Nat} {block : Block} (at_ : blocks[k]? = some block) (inside : j < block.length) :
    heldAt blocks (block.offset + j) = block.data[j]? := by
  obtain ⟨-, -, offset, length⟩ := block_of_shapes shapes at_
  have small : j < blockSize := Nat.lt_of_lt_of_le inside (length ▸ Nat.min_le_left ..)
  have number : (block.offset + j) / blockSize = k := by
    rw [offset, Nat.add_comm, Nat.add_mul_div_right _ _ (by decide), Nat.div_eq_of_lt small,
      Nat.zero_add]
  rw [heldAt, number, at_, Option.bind_some, Nat.add_sub_cancel_left]

/-- Over every run in which each block that is taken has its length, the downloaded blocks
are exact, and a piece is complete only with exactly its bytes in their places. -/
theorem assembled_of_run {torrent : TorrentFile} (divided : Divided torrent) {sha1 : Bytes → Digest}
    {history : List (Transition PieceManager Call)} {manager : PieceManager}
    (run : Run (step sha1) (new torrent) history manager)
    (fits : ∀ x ∈ history, x.event.Fits x.before) :
    AllExact history manager ∧
      ∀ pieceIndex blockOffset data, (Call.processBlock pieceIndex blockOffset data).Fits manager →
        (processBlock sha1 manager pieceIndex blockOffset data).2 = true →
        ∃ active k block, manager.Takes pieceIndex blockOffset active k block ∧
          torrent.pieces[pieceIndex]? = some (sha1 (completedPiece (filled active k data))) ∧
          Assembled torrent
            (⟨manager, .processBlock pieceIndex blockOffset data,
              (processBlock sha1 manager pieceIndex blockOffset data).1⟩ :: history)
            pieceIndex (filled active k data) := by
  have holds := run.invariant_of_guard
    (fun history manager => manager.torrent = torrent ∧ manager.Sound ∧ AllExact history manager)
    (fun manager call => call.Fits manager)
    ⟨rfl, sound_new torrent, fun _ _ _ _ at_ _ => by cases at_.found⟩
    (fun _ ⟨same, sound, exact_⟩ fits taken => by
      cases taken
      exact ⟨(Call.run_torrent _).trans same, sound.run _, exact_.run sound fits _ rfl⟩)
    fits
  obtain ⟨same, sound, exact_⟩ := holds
  refine ⟨exact_, fun pieceIndex blockOffset data fitting done => ?_⟩
  have processes := processBlock_processes sha1 manager pieceIndex blockOffset data
  rw [done] at processes
  generalize (processBlock sha1 manager pieceIndex blockOffset data).1 = next at processes ⊢
  cases processes with
  | @completed active k block takes last verified =>
    have length := fitting active k block takes
    have shapes := @shapes_filled _ _ k _ (sound.wellFormed takes.at_.found) data
    rw [same] at shapes
    have bound := sound.index_lt (sound.bound takes.at_.mem)
    rw [same] at bound
    refine ⟨active, k, block, takes, same ▸ verified,
      fun other member => exact_.filled sound takes length last _ member, ?_⟩
    rw [← divided.pieceSize_eq bound]
    apply completedPiece_eq shapes
    · apply List.ne_nil_of_length_pos
      rw [filled, List.length_modify]
      exact Nat.zero_lt_of_lt (List.getElem?_eq_some_iff.mp takes.at_.at_).1
    · exact fun other member => (exact_.filled sound takes length last manager member).length
    · intro other member j byte value
      obtain ⟨number, at_⟩ := List.getElem?_of_mem member
      have whole := (exact_.filled sound takes length last manager member).length
      rw [heldAt_of_shapes shapes at_ (whole ▸ (List.getElem?_eq_some_iff.mp value).1), value]

/-! ## Two blocks of other lengths -/

def zeroes : Digest := Vector.replicate 20 0

/-- One piece of two blocks, the second one a byte long. -/
def twoBlocks : TorrentFile where
  infoHash := zeroes
  name := ascii "a"
  announce := []
  announceList := []
  pieceLength := 16385
  pieces := [zeroes]
  length := 16385
  files := []
  comment := []
  createdBy := []
  creationDate := none

def requestCall : Call := .createNextRequest ⟨List.reverse, List.reverse_perm⟩ { bitfield := [0x80] }

/-- Both blocks are requested. -/
def requesting : PieceManager :=
  [requestCall, requestCall].foldl (Call.run fun _ => zeroes) (new twoBlocks)

def firstBlock : Block := { index := 0, offset := 0, length := 16384, state := .requested }

def secondBlock : Block := { index := 1, offset := 16384, length := 1, state := .requested }

def requestedPiece : ActivePiece :=
  { index := 0, totalBlocks := 2, blocksDownloaded := 0, blocks := [firstBlock, secondBlock] }

theorem divided_twoBlocks : Divided twoBlocks := ⟨by decide, by decide, by decide⟩

theorem lookup_requesting : requesting.activePieces.lookup 0 = some requestedPiece := by
  decide +kernel

def halfDone (data : Bytes) : PieceManager :=
  requesting.setPiece 0
    { requestedPiece with blocksDownloaded := 1, blocks := [firstBlock.fill data, secondBlock] }

theorem processBlock_requesting (data : Bytes) :
    processBlock (fun _ => zeroes) requesting 0 0 data = (halfDone data, false) := by
  rw [processBlock, lookup_requesting]
  rfl

theorem step_requesting (data : Bytes) :
    step (fun _ => zeroes) requesting (.processBlock 0 0 data) = some (halfDone data) := by
  rw [step, Call.run, processBlock_requesting]

theorem torrent_requesting : requesting.torrent = twoBlocks :=
  (@Call.run_torrent (fun _ => zeroes) _ requestCall).trans (Call.run_torrent requestCall)

theorem lookup_halfDone (data : Bytes) : (halfDone data).activePieces.lookup 0 =
    some { requestedPiece with
      blocksDownloaded := 1, blocks := [firstBlock.fill data, secondBlock] } :=
  lookup_setPiece_self ..

theorem done_halfDone (data last : Bytes) :
    (processBlock (fun _ => zeroes) (halfDone data) 0 16384 last).2 = true := by
  have torrent : (halfDone data).torrent = twoBlocks := torrent_requesting
  rw [processBlock, lookup_halfDone, torrent]
  rfl

theorem fits_requesting {data : Bytes} (length : data.length = 16384) :
    (Call.processBlock 0 0 data).Fits requesting := by
  rintro active k block ⟨⟨found, at_⟩, offset, -⟩
  cases lookup_requesting.symm.trans found
  rcases k with _ | _ | k
  · cases at_
    exact length
  · cases at_
    cases offset
  · cases at_

theorem fits_halfDone (data : Bytes) : (Call.processBlock 0 16384 [1]).Fits (halfDone data) := by
  rintro active k block ⟨⟨found, at_⟩, offset, -⟩
  cases (lookup_halfDone data).symm.trans found
  rcases k with _ | _ | k
  · cases at_
    cases offset
  · cases at_
    rfl
  · cases at_

theorem assembled_twoBlocks :
    ∃ history active k block,
      (halfDone (List.replicate 16384 0)).Takes 0 16384 active k block ∧
      twoBlocks.pieces[0]? = some zeroes ∧ Assembled twoBlocks history 0 (filled active k [1]) := by
  have requested : Run (step fun _ => zeroes) (new twoBlocks) _ requesting :=
    .next (e := requestCall) (.next (e := requestCall) .start rfl) rfl
  have run : Run (step fun _ => zeroes) (new twoBlocks) _ (halfDone (List.replicate 16384 0)) :=
    requested.next (step_requesting _)
  have length : (List.replicate 16384 (0 : UInt8)).length = 16384 := List.length_replicate
  exact ⟨_, (assembled_of_run divided_twoBlocks run
    (List.forall_mem_cons.mpr ⟨fits_requesting length,
      List.forall_mem_cons.mpr ⟨trivial, List.forall_mem_singleton.mpr trivial⟩⟩)).2 0 16384 [1]
    (fits_halfDone _) (done_halfDone _ _)⟩

/-- The piece passes its check although its first block lacks a byte, since the second one
brings it. On the way to the files each of them goes to its own offset. -/
theorem lengths_cancel :
    processBlock (fun _ => zeroes) requesting 0 0 (List.replicate 16383 0) =
        (halfDone (List.replicate 16383 0), false) ∧
      (firstBlock.fill (List.replicate 16383 0)).state = .downloaded ∧
      (firstBlock.fill (List.replicate 16383 0)).length = 16384 ∧
      (firstBlock.fill (List.replicate 16383 0)).data.length = 16383 ∧
      (processBlock (fun _ => zeroes) (halfDone (List.replicate 16383 0)) 0 16384 [0, 0]).2 = true ∧
      completedPiece [firstBlock.fill (List.replicate 16383 0), secondBlock.fill [0, 0]] =
        List.replicate 16385 0 := by
  have last : List.replicate 16385 (0 : UInt8) = List.replicate 16383 0 ++ [0, 0] := by
    rw [List.replicate_succ', List.replicate_succ', List.append_assoc]
    rfl
  refine ⟨processBlock_requesting _, rfl, rfl, List.length_replicate, done_halfDone _ _, ?_⟩
  rw [last]
  rfl

end K0Torrent.PieceManager
