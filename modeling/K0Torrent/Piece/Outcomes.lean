import K0Torrent.Piece.Representation

/-! What a call on the piece manager comes to, from any state that calls can lead to.

`process_block` counts the blocks of a piece and does not look at their states. The
invariant says that this is the same, so what it does can be said in terms of the states.
-/

set_option autoImplicit false

namespace K0Torrent.PieceManager

/-! ## An active piece is kept under its own index -/

def Indexed (manager : PieceManager) : Prop :=
  ∀ pieceIndex active, manager.activePieces.lookup pieceIndex = some active →
    active.index = pieceIndex

@[simp] theorem index_initActivePiece (torrent : TorrentFile) (pieceIndex : Nat) :
    (initActivePiece torrent pieceIndex).index = pieceIndex := by
  unfold initActivePiece
  dsimp only
  split <;> rfl

section
variable {manager next : PieceManager}

theorem Indexed.setPiece (indexed : manager.Indexed) {pieceIndex : Nat} {active : ActivePiece}
    (same : active.index = pieceIndex) : (manager.setPiece pieceIndex active).Indexed := by
  intro other active' found
  rw [lookup_setPiece] at found
  split at found
  · rename_i here
    cases found
    exact same.trans here.symm
  · exact indexed other active' found

theorem Indexed.creates {peer : Peer} {request : Option BlockRequest} (indexed : manager.Indexed)
    (creates : manager.Creates peer next request) : next.Indexed := by
  cases creates with
  | reuse at_ =>
    have same := indexed _ _ at_.found
    exact indexed.setPiece same
  | idle => exact indexed
  | blockless => exact indexed.setPiece (index_initActivePiece ..)
  | fresh => exact indexed.setPiece (index_initActivePiece ..)

theorem Indexed.processes {sha1 : Bytes → Digest} {pieceIndex blockOffset : Nat} {data : Bytes}
    {done : Bool} (indexed : manager.Indexed)
    (processes : manager.Processes sha1 pieceIndex blockOffset data next done) : next.Indexed := by
  cases processes with
  | rejected => exact indexed
  | recorded takes =>
    have same := indexed _ _ takes.at_.found
    exact indexed.setPiece same
  | failed takes =>
    have same := indexed _ _ takes.at_.found
    exact indexed.setPiece same
  | completed =>
    intro other active found
    have different : other ≠ pieceIndex := by
      rintro rfl
      rw [AList.lookup_erase] at found
      cases found
    rw [AList.lookup_erase_ne different] at found
    exact indexed other active found

end

/-- What calls leave behind. -/
structure Regular (torrent : TorrentFile) (manager : PieceManager) : Prop where
  torrent : manager.torrent = torrent
  sound : manager.Sound
  capped : manager.Capped
  indexed : manager.Indexed

theorem Regular.run {torrent : TorrentFile} {sha1 : Bytes → Digest} {manager : PieceManager}
    (regular : Regular torrent manager) (call : Call) : Regular torrent (call.run sha1 manager) where
  torrent := (Call.run_torrent call).trans regular.torrent
  sound := regular.sound.run call
  capped := regular.capped.run call
  indexed := by
    cases call with
    | createNextRequest order peer =>
      exact regular.indexed.creates (createNextRequest_creates order manager peer)
    | processBlock pieceIndex blockOffset data =>
      exact regular.indexed.processes (processBlock_processes sha1 manager pieceIndex blockOffset data)

theorem regular_of_calls (torrent : TorrentFile) (sha1 : Bytes → Digest) (calls : List Call) :
    Regular torrent (calls.foldl (Call.run sha1) (new torrent)) :=
  calls_induct (Regular torrent) (fun regular => regular.run _) calls
    ⟨rfl, sound_new torrent, Nat.zero_le _, fun _ _ found => nomatch found⟩

/-! ## `process_block` -/

/-- The data of the blocks in the order of their offsets, with new data for one of them. -/
def joined (blocks : List Block) (blockOffset : Nat) (data : Bytes) : Bytes :=
  (blocks.mergeSort fun first second => first.offset ≤ second.offset).flatMap fun block =>
    if block.offset = blockOffset then data else block.data

/-- All blocks but the one at the offset are there. -/
def OthersDownloaded (blocks : List Block) (blockOffset : Nat) : Prop :=
  ∀ block ∈ blocks, block.offset ≠ blockOffset → block.state = .downloaded

/-- What `process_block` is to do, by the states of the blocks. -/
structure Processed (sha1 : Bytes → Digest) (manager next : PieceManager)
    (pieceIndex blockOffset : Nat) (data : Bytes) (done : Bool) : Prop where
  done_iff : done = true ↔ ∃ active k block,
    manager.Takes pieceIndex blockOffset active k block ∧
      OthersDownloaded active.blocks blockOffset ∧
      manager.torrent.pieces[pieceIndex]? = some (sha1 (joined active.blocks blockOffset data))
  completed : done = true →
    next.picker.isCompleted pieceIndex = true ∧ pieceIndex ∉ next.activePieces
  failed : ∀ active k block, manager.Takes pieceIndex blockOffset active k block →
    OthersDownloaded active.blocks blockOffset →
    manager.torrent.pieces[pieceIndex]? ≠ some (sha1 (joined active.blocks blockOffset data)) →
    next.activePieces.lookup pieceIndex = some (initActivePiece manager.torrent pieceIndex)
  recorded : ∀ active k block, manager.Takes pieceIndex blockOffset active k block →
    ¬ OthersDownloaded active.blocks blockOffset →
    next.activePieces.lookup pieceIndex = some { active with
      blocksDownloaded := active.blocksDownloaded + 1
      blocks := active.blocks.set k { block with state := .downloaded, data } }
  rejected : manager.Rejects pieceIndex blockOffset → next = manager
  others : ∀ other, other ≠ pieceIndex →
    next.activePieces.lookup other = manager.activePieces.lookup other
  flags : ∀ other, next.picker.isCompleted other =
    (manager.picker.isCompleted other || (done && decide (other = pieceIndex)))
  torrent : next.torrent = manager.torrent

section
variable {torrent : TorrentFile} {pieceIndex k : Nat} {active : ActivePiece} {block : Block}
  (wellFormed : WellFormed torrent pieceIndex active)
include wellFormed

/-- The blocks are stored in the order of their offsets. -/
theorem WellFormed.sorted :
    active.blocks.Pairwise fun first second => first.offset ≤ second.offset := by
  rw [List.pairwise_iff_getElem]
  intro i j bound bound' before
  obtain ⟨-, -, offset, -⟩ := wellFormed.block (List.getElem?_eq_getElem bound)
  obtain ⟨-, -, offset', -⟩ := wellFormed.block (List.getElem?_eq_getElem bound')
  rw [offset, offset']
  exact Nat.mul_le_mul_right _ (Nat.le_of_lt before)

/-- The bytes that are hashed are those of the blocks, in order. -/
theorem WellFormed.joined (at_ : active.blocks[k]? = some block) (data : Bytes) :
    completedPiece (filled active k data) = joined active.blocks block.offset data := by
  have sorted : active.blocks.mergeSort (fun first second => first.offset ≤ second.offset) =
      active.blocks := by
    apply List.mergeSort_of_pairwise
    exact wellFormed.sorted.imp fun before => decide_eq_true before
  rw [PieceManager.joined, sorted, completedPiece, List.flatMap_def, List.flatMap_def]
  congr 1
  apply List.ext_getElem?
  intro j
  simp only [filled, List.getElem?_map, List.getElem?_modify]
  cases here : active.blocks[j]? with
  | none => rfl
  | some other =>
    by_cases same : k = j
    · subst same
      cases here.symm.trans at_
      simp [Block.fill]
    · -- No other block starts at the offset.
      have different : other.offset ≠ block.offset := fun offset =>
        same (wellFormed.offset_inj here at_ offset).symm
      simp [same, different]

theorem WellFormed.last_iff (at_ : active.blocks[k]? = some block)
    (open_ : block.state ≠ .downloaded) :
    active.blocksDownloaded + 1 = active.totalBlocks ↔
      OthersDownloaded active.blocks block.offset := by
  constructor
  · intro last other member different
    obtain ⟨j, here⟩ := List.getElem?_of_mem member
    have apart : k ≠ j := by
      rintro rfl
      cases here.symm.trans at_
      exact different rfl
    apply downloaded_of_last wellFormed at_ open_ [] last
    apply List.mem_of_getElem? (i := j)
    simp [filled, apart, here]
  · intro others
    have whole : (filled active k []).countP Block.isDownloaded = (filled active k []).length := by
      rw [List.countP_eq_length]
      intro other member
      obtain ⟨j, here⟩ := List.getElem?_of_mem member
      rcases getElem?_modify_cases here with ⟨-, origin, -, rfl⟩ | ⟨apart, found⟩
      · rfl
      · refine decide_eq_true (others other (List.mem_of_getElem? found) fun offset => ?_)
        exact apart (wellFormed.offset_inj found at_ offset)
    rw [countP_filled wellFormed at_ open_ [], filled, List.length_modify] at whole
    exact whole.trans wellFormed.total.symm

/-- A piece that starts over is as it was when it was opened. -/
theorem WellFormed.reset_eq (index : active.index = pieceIndex) (data : Bytes) :
    { active with blocksDownloaded := 0, blocks := (filled active k data).map Block.reset } =
      initActivePiece torrent pieceIndex := by
  have initial := wellFormed_init torrent pieceIndex
  have blocks : (filled active k data).map Block.reset = (initActivePiece torrent pieceIndex).blocks := by
    apply List.ext_getElem?
    intro j
    have shapes := congrArg (fun shapes => shapes[j]?) (shapes_filled (k := k) wellFormed data)
    simp only [List.getElem?_map] at shapes ⊢
    cases here : (filled active k data)[j]? with
    | none =>
      rw [here] at shapes
      exact (Option.map_eq_none_iff.mp shapes.symm).symm
    | some block =>
      rw [here] at shapes
      obtain ⟨other, found, same⟩ := Option.map_eq_some_iff.mp shapes.symm
      obtain ⟨-, rfl⟩ := getElem?_initActivePiece.mp found
      rw [found]
      simp only [Block.shape, Prod.mk.injEq] at same
      obtain ⟨i, offset, length, state, stored⟩ := block
      obtain ⟨rfl, rfl, rfl⟩ := same
      rfl
  have total : active.totalBlocks = (initActivePiece torrent pieceIndex).totalBlocks := by
    rw [wellFormed.total, wellFormed.length, initial.total]
  have none_ : (initActivePiece torrent pieceIndex).blocksDownloaded = 0 := by
    unfold initActivePiece
    dsimp only
    split <;> rfl
  have index' := index.trans (index_initActivePiece torrent pieceIndex).symm
  rw [blocks, index', total, ← none_]

end

section
variable {sha1 : Bytes → Digest} {manager next : PieceManager} {pieceIndex blockOffset : Nat}
  {data : Bytes} {done : Bool}

theorem Sound.last_iff (sound : manager.Sound) {active : ActivePiece} {k : Nat} {block : Block}
    (takes : manager.Takes pieceIndex blockOffset active k block) :
    active.blocksDownloaded + 1 = active.totalBlocks ↔
      OthersDownloaded active.blocks blockOffset := by
  rw [← takes.offset]
  exact (sound.wellFormed takes.at_.found).last_iff takes.at_.at_ takes.open_

theorem Sound.joined (sound : manager.Sound) {active : ActivePiece} {k : Nat} {block : Block}
    (takes : manager.Takes pieceIndex blockOffset active k block) (data : Bytes) :
    completedPiece (filled active k data) = PieceManager.joined active.blocks blockOffset data := by
  rw [← takes.offset]
  exact (sound.wellFormed takes.at_.found).joined takes.at_.at_ data

theorem Processed.of_rejects (rejects : manager.Rejects pieceIndex blockOffset) :
    Processed sha1 manager manager pieceIndex blockOffset data false where
  done_iff := by
    constructor
    · exact (absurd · Bool.false_ne_true)
    · rintro ⟨active, k, block, takes, -⟩
      exact absurd takes (rejects active k block)
  completed same := absurd same Bool.false_ne_true
  failed active k block takes := absurd takes (rejects active k block)
  recorded active k block takes := absurd takes (rejects active k block)
  rejected _ := rfl
  others _ _ := rfl
  flags _ := (Bool.or_false _).symm
  torrent := rfl

theorem Sound.isCompleted_markCompleted (sound : manager.Sound)
    (member : pieceIndex ∈ manager.activePieces) (other : Nat) :
    (manager.picker.markCompleted pieceIndex).isCompleted other =
      (manager.picker.isCompleted other || decide (other = pieceIndex)) := by
  rw [PieceManager.isCompleted_markCompleted _ _ _ (sound.bound member), Bool.or_comm]

theorem processed_of_processes (sound : manager.Sound) (indexed : manager.Indexed)
    (processes : manager.Processes sha1 pieceIndex blockOffset data next done) :
    Processed sha1 manager next pieceIndex blockOffset data done := by
  cases processes with
  | rejected rejects => exact .of_rejects rejects
  | @recorded taken k block takes more =>
    have waits : ¬ OthersDownloaded taken.blocks blockOffset :=
      fun others => more ((sound.last_iff takes).mpr others)
    refine ⟨⟨(absurd · Bool.false_ne_true), ?_⟩, (absurd · Bool.false_ne_true),
      ?_, ?_, ?_, ?_, fun _ => (Bool.or_false _).symm, rfl⟩
    · rintro ⟨active, j, other, takes', others, -⟩
      obtain ⟨rfl, -, -⟩ := takes.unique sound takes'
      exact absurd others waits
    · intro active j other takes' others
      obtain ⟨rfl, -, -⟩ := takes.unique sound takes'
      exact absurd others waits
    · intro active j other takes' _
      obtain ⟨rfl, rfl, rfl⟩ := takes.unique sound takes'
      rw [lookup_setPiece_self, filled, List.modify_eq_set_getElem?, takes.at_.at_]
      rfl
    · exact fun rejects => absurd takes (rejects _ _ _)
    · exact fun other different => lookup_setPiece_of_ne _ _ _ different
  | @completed taken k block takes last verified =>
    have others := (sound.last_iff takes).mp last
    rw [sound.joined takes] at verified
    refine ⟨⟨fun _ => ⟨_, _, _, takes, others, verified⟩, fun _ => rfl⟩, fun _ => ⟨?_, ?_⟩,
      ?_, ?_, ?_, ?_, ?_, rfl⟩
    · rw [sound.isCompleted_markCompleted takes.at_.mem]
      simp
    · exact fun member => (AList.mem_erase.mp member).1 rfl
    · intro active j other takes' _ unverified
      obtain ⟨rfl, -, -⟩ := takes.unique sound takes'
      exact absurd verified unverified
    · intro active j other takes' waits
      obtain ⟨rfl, -, -⟩ := takes.unique sound takes'
      exact absurd others waits
    · exact fun rejects => absurd takes (rejects _ _ _)
    · exact fun other different => AList.lookup_erase_ne different
    · exact fun other => sound.isCompleted_markCompleted takes.at_.mem other
  | @failed taken k block takes last unverified =>
    have others := (sound.last_iff takes).mp last
    rw [sound.joined takes] at unverified
    refine ⟨⟨(absurd · Bool.false_ne_true), ?_⟩, (absurd · Bool.false_ne_true),
      ?_, ?_, ?_, ?_, fun _ => (Bool.or_false _).symm, rfl⟩
    · rintro ⟨active, j, other, takes', -, verified⟩
      obtain ⟨rfl, -, -⟩ := takes.unique sound takes'
      exact absurd verified unverified
    · intro active j other takes' _ _
      obtain ⟨rfl, -, -⟩ := takes.unique sound takes'
      have index := indexed _ _ takes.at_.found
      rw [lookup_setPiece_self, (sound.wellFormed takes.at_.found).reset_eq index]
    · intro active j other takes' waits
      obtain ⟨rfl, -, -⟩ := takes.unique sound takes'
      exact absurd others waits
    · exact fun rejects => absurd takes (rejects _ _ _)
    · exact fun other different => lookup_setPiece_of_ne _ _ _ different

end

/-- Whatever calls came before, `process_block` does what it is to do. -/
theorem processBlock_processed (torrent : TorrentFile) (sha1 : Bytes → Digest) (calls : List Call)
    (pieceIndex blockOffset : Nat) (data : Bytes) :
    let manager := calls.foldl (Call.run sha1) (new torrent)
    let result := processBlock sha1 manager pieceIndex blockOffset data
    Processed sha1 manager result.1 pieceIndex blockOffset data result.2 := by
  have regular := regular_of_calls torrent sha1 calls
  exact processed_of_processes regular.sound regular.indexed (processBlock_processes ..)

/-! ## `create_next_request` -/

/-- There is nothing that the peer could be asked for. -/
structure NothingLeft (torrent : TorrentFile) (manager : PieceManager) (peer : Peer) : Prop where
  noneMissing : ∀ pieceIndex active, manager.activePieces.lookup pieceIndex = some active →
    peer.hasPiece pieceIndex = true → ∀ block ∈ active.blocks, block.state ≠ .missing
  closed : manager.activePieces.keys.length = 10 ∨
    ∀ pieceIndex < torrent.pieces.length, peer.hasPiece pieceIndex = true →
      manager.picker.isCompleted pieceIndex = true ∨ pieceIndex ∈ manager.activePieces

/-- Where the block of a request is taken from: an active piece, or one that is opened for it. -/
inductive Supply (torrent : TorrentFile) (manager : PieceManager) (pieceIndex : Nat) :
    ActivePiece → Nat → Block → Prop where
  | active {active k block} (found : manager.activePieces.lookup pieceIndex = some active)
      (at_ : active.blocks[k]? = some block) : Supply torrent manager pieceIndex active k block
  | opened {block} (bound : pieceIndex < torrent.pieces.length)
      (inactive : pieceIndex ∉ manager.activePieces)
      (incomplete : manager.picker.isCompleted pieceIndex = false)
      (first : (initActivePiece torrent pieceIndex).blocks[0]? = some block) :
      Supply torrent manager pieceIndex (initActivePiece torrent pieceIndex) 0 block

/-- One block goes from missing to requested, and nothing else changes. -/
structure Asked (torrent : TorrentFile) (manager next : PieceManager) (peer : Peer)
    (pieceIndex : Nat) (active : ActivePiece) (k : Nat) (block : Block) : Prop where
  supply : Supply torrent manager pieceIndex active k block
  has : peer.hasPiece pieceIndex = true
  missing : block.state = .missing
  taken : next.activePieces.lookup pieceIndex =
    some { active with blocks := active.blocks.set k { block with state := .requested } }
  others : ∀ other, other ≠ pieceIndex →
    next.activePieces.lookup other = manager.activePieces.lookup other
  picker : next.picker = manager.picker
  torrent : next.torrent = manager.torrent

/-- The 12 bytes of the message say which block it is about. -/
structure Encodes (msg : PeerMessage) (pieceIndex : Nat) (block : Block) : Prop where
  id : msg.id = .request
  length : msg.payload.length = 12
  piece : readU32At msg.payload 0 = pieceIndex
  offset : readU32At msg.payload 4 = block.offset
  size : readU32At msg.payload 8 = block.length

/-- What `create_next_request` is to do. -/
structure Created (torrent : TorrentFile) (manager next : PieceManager) (peer : Peer)
    (request : Option BlockRequest) : Prop where
  none_iff : request = none ↔ NothingLeft torrent manager peer
  unchanged : request = none → next = manager
  asked : ∀ created, request = some created → ∃ pieceIndex active k block,
    Asked torrent manager next peer pieceIndex active k block ∧
      Encodes created.message pieceIndex block

theorem encodes_message {pieceIndex : Nat} {block : Block}
    (fits : BlockRequest.Fits ⟨pieceIndex, block.offset, block.length⟩) :
    Encodes (BlockRequest.message ⟨pieceIndex, block.offset, block.length⟩) pieceIndex block := by
  obtain ⟨piece, offset, length⟩ := fits
  refine ⟨rfl, rfl, ?_, ?_, ?_⟩
  · exact readU32At_append_writeU32 [] _ _ piece
  · exact readU32At_append_writeU32 (writeU32 pieceIndex) _ _ offset
  · have read := readU32At_append_writeU32 (writeU32 pieceIndex ++ writeU32 block.offset) [] _ length
    rw [List.append_nil, List.append_assoc] at read
    exact read

section
variable {torrent : TorrentFile} {manager next : PieceManager} {peer : Peer}
  (countable : Countable torrent) (regular : Regular torrent manager)
include countable regular

theorem nothingLeft_iff : NothingLeft torrent manager peer ↔ manager.Exhausted peer := by
  have total : manager.picker.totalPieces = torrent.pieces.length := by
    have few := countable.few
    rw [regular.sound.total, regular.torrent]
    omega
  constructor
  · intro left
    refine ⟨fun {pieceIndex active k block} at_ has => ?_, ?_⟩
    · exact left.noneMissing pieceIndex active at_.found has block (List.mem_of_getElem? at_.at_)
    · refine left.closed.imp (fun full => Nat.le_of_eq full.symm) fun closed pieceIndex pickable => ?_
      rcases closed pieceIndex (total ▸ pickable.bound) pickable.has with completed | member
      · rw [pickable.incomplete] at completed
        cases completed
      · exact pickable.inactive member
  · intro exhausted
    refine ⟨fun pieceIndex active found has block member => ?_, ?_⟩
    · obtain ⟨k, at_⟩ := List.getElem?_of_mem member
      exact exhausted.noneMissing ⟨found, at_⟩ has
    · refine exhausted.closed.imp (Nat.le_antisymm regular.capped) fun unpickable pieceIndex bound has => ?_
      by_contra neither
      rw [not_or, Bool.not_eq_true] at neither
      exact unpickable pieceIndex ⟨total ▸ bound, neither.1, neither.2, has⟩

/-- A picked piece is opened, and has a first block. -/
theorem blocks_of_pickable {pieceIndex : Nat} (pickable : manager.Pickable peer pieceIndex) :
    pieceIndex < torrent.pieces.length ∧ (initActivePiece torrent pieceIndex).blocks ≠ [] := by
  have bound := regular.sound.index_lt pickable.bound
  rw [regular.torrent] at bound
  exact ⟨bound, countable.blocks_ne_nil bound (wellFormed_init torrent pieceIndex)⟩

theorem created_of_creates {request : Option BlockRequest}
    (creates : manager.Creates peer next request) : Created torrent manager next peer request := by
  have nothing : NothingLeft torrent manager peer ↔ manager.Exhausted peer :=
    nothingLeft_iff countable regular
  have sound := regular.sound
  cases creates with
  | @reuse pieceIndex active k block at_ has missing =>
    refine ⟨⟨nofun, fun left => ?_⟩, nofun, fun created same => ?_⟩
    · exact absurd missing ((nothing.mp left).noneMissing at_ has)
    · cases same
      refine ⟨pieceIndex, active, k, block, ?_, encodes_message (at_.fits sound)⟩
      refine ⟨.active at_.found at_.at_, has, missing, ?_, ?_, rfl, rfl⟩
      · rw [lookup_setPiece_self, List.modify_eq_set_getElem?, at_.at_]
        rfl
      · exact fun other different => lookup_setPiece_of_ne _ _ _ different
  | idle exhausted => exact ⟨⟨fun _ => nothing.mpr exhausted, fun _ => rfl⟩, fun _ => rfl, nofun⟩
  | blockless opens none_ =>
    have blocks := (blocks_of_pickable countable regular opens.pickable).2
    rw [regular.torrent] at none_
    exact absurd none_ blocks
  | @fresh pieceIndex block opens first =>
    have fits := (Creates.fresh opens first).fits sound
    rw [regular.torrent] at first
    have bound := (blocks_of_pickable countable regular opens.pickable).1
    refine ⟨⟨nofun, fun left => ?_⟩, nofun, fun created same => ?_⟩
    · rcases (nothing.mp left).closed with full | unpickable
      · exact absurd opens.room (Nat.not_lt.mpr full)
      · exact absurd opens.pickable (unpickable pieceIndex)
    · cases same
      refine ⟨pieceIndex, initActivePiece torrent pieceIndex, 0, block, ?_, encodes_message fits⟩
      have missing : block.state = .missing := by
        obtain ⟨-, rfl⟩ := getElem?_initActivePiece.mp first
        rfl
      have supply : Supply torrent manager pieceIndex (initActivePiece torrent pieceIndex) 0 block :=
        .opened bound opens.pickable.inactive opens.pickable.incomplete first
      refine ⟨supply, opens.pickable.has, missing, ?_, ?_, rfl, rfl⟩
      · rw [regular.torrent, lookup_setPiece_self, List.modify_eq_set_getElem?, first]
        rfl
      · exact fun other different => lookup_setPiece_of_ne _ _ _ different

end

/-- Whatever calls came before, `create_next_request` does what it is to do. -/
theorem createNextRequest_created {torrent : TorrentFile} (countable : Countable torrent)
    (sha1 : Bytes → Digest) (calls : List Call) (order : IterationOrder) (peer : Peer) :
    let manager := calls.foldl (Call.run sha1) (new torrent)
    let result := createNextRequest order manager peer
    Created torrent manager result.1 peer result.2 := by
  have regular := regular_of_calls torrent sha1 calls
  exact created_of_creates countable regular (createNextRequest_creates ..)

/-- A seeder that has been asked for the two blocks of the first piece is asked for the next. -/
theorem createNextRequest_threePieces :
    let seeder : Peer := { bitfield := [0xE0] }
    let call : Call := .createNextRequest ⟨id, fun _ => List.Perm.refl _⟩ seeder
    let manager := [call, call].foldl (Call.run fun _ => Vector.replicate 20 1) (new threePieces)
    let result := createNextRequest ⟨id, fun _ => List.Perm.refl _⟩ manager seeder
    Created threePieces manager result.1 seeder result.2 :=
  createNextRequest_created countable_threePieces ..

end K0Torrent.PieceManager
