import K0Torrent.Piece.PieceManager

/-! Everything a call on the piece manager can do.

One relation for each of its two operations, with the guards of every branch;
later modules read the branches off these and do not open the operations again.
-/

set_option autoImplicit false

namespace K0Torrent.PieceManager

def setPiece (manager : PieceManager) (pieceIndex : Nat) (active : ActivePiece) : PieceManager :=
  { manager with activePieces := manager.activePieces.insert pieceIndex active }

/-- The block `k` of an active piece. -/
structure BlockAt (manager : PieceManager) (pieceIndex : Nat) (active : ActivePiece) (k : Nat)
    (block : Block) : Prop where
  found : manager.activePieces.lookup pieceIndex = some active
  at_ : active.blocks[k]? = some block

section
variable (manager : PieceManager) (pieceIndex : Nat) (active : ActivePiece)

@[simp] theorem torrent_setPiece : (manager.setPiece pieceIndex active).torrent = manager.torrent :=
  rfl

@[simp] theorem picker_setPiece : (manager.setPiece pieceIndex active).picker = manager.picker :=
  rfl

theorem lookup_setPiece (other : Nat) :
    (manager.setPiece pieceIndex active).activePieces.lookup other =
      if other = pieceIndex then some active else manager.activePieces.lookup other := by
  split
  · rename_i same
    rw [same]
    exact AList.lookup_insert _
  · rename_i different
    exact AList.lookup_insert_ne different

@[simp] theorem lookup_setPiece_self :
    (manager.setPiece pieceIndex active).activePieces.lookup pieceIndex = some active :=
  (lookup_setPiece ..).trans (if_pos rfl)

theorem lookup_setPiece_of_ne {other : Nat} (different : other ≠ pieceIndex) :
    (manager.setPiece pieceIndex active).activePieces.lookup other =
      manager.activePieces.lookup other :=
  (lookup_setPiece ..).trans (if_neg different)

theorem length_keys_setPiece :
    (manager.setPiece pieceIndex active).activePieces.keys.length =
      if pieceIndex ∈ manager.activePieces then manager.activePieces.keys.length
      else manager.activePieces.keys.length + 1 := by
  rw [setPiece, AList.keys_insert, List.length_cons]
  split
  · rename_i member
    have inKeys := AList.mem_keys.mp member
    have positive := List.length_pos_of_mem inKeys
    rw [List.length_erase_of_mem inKeys]
    omega
  · rename_i absent
    rw [List.erase_of_not_mem fun inKeys => absent (AList.mem_keys.mpr inKeys)]

end

/-! ## `create_next_request` -/

/-- No active piece that the peer has lacks a block nobody was asked for. -/
def NoneMissing (manager : PieceManager) (peer : Peer) : Prop :=
  ∀ {pieceIndex active k block}, manager.BlockAt pieceIndex active k block →
    peer.hasPiece pieceIndex = true → block.state ≠ .missing

/-- A piece that the picker may open for the peer. -/
structure Pickable (manager : PieceManager) (peer : Peer) (pieceIndex : Nat) : Prop where
  bound : pieceIndex < manager.picker.totalPieces
  incomplete : manager.picker.isCompleted pieceIndex = false
  inactive : pieceIndex ∉ manager.activePieces
  has : peer.hasPiece pieceIndex = true

/-- There is nothing to request from the peer. -/
structure Exhausted (manager : PieceManager) (peer : Peer) : Prop where
  noneMissing : manager.NoneMissing peer
  closed : maxActivePieces ≤ manager.activePieces.keys.length ∨
    ∀ pieceIndex, ¬ manager.Pickable peer pieceIndex

/-- The picker opens the piece for the peer. -/
structure Opens (manager : PieceManager) (peer : Peer) (pieceIndex : Nat) : Prop where
  noneMissing : manager.NoneMissing peer
  room : manager.activePieces.keys.length < maxActivePieces
  pickable : manager.Pickable peer pieceIndex

inductive Creates (manager : PieceManager) (peer : Peer) :
    PieceManager → Option BlockRequest → Prop where
  | reuse {pieceIndex active k block} (at_ : manager.BlockAt pieceIndex active k block)
      (has : peer.hasPiece pieceIndex = true) (missing : block.state = .missing) :
      Creates manager peer
        (manager.setPiece pieceIndex { active with blocks := active.blocks.modify k Block.request })
        (some ⟨pieceIndex, block.offset, block.length⟩)
  | idle (exhausted : manager.Exhausted peer) : Creates manager peer manager none
  | blockless {pieceIndex} (opens : manager.Opens peer pieceIndex)
      (none_ : (initActivePiece manager.torrent pieceIndex).blocks = []) :
      Creates manager peer
        (manager.setPiece pieceIndex (initActivePiece manager.torrent pieceIndex)) none
  | fresh {pieceIndex block} (opens : manager.Opens peer pieceIndex)
      (first : (initActivePiece manager.torrent pieceIndex).blocks[0]? = some block) :
      Creates manager peer
        (manager.setPiece pieceIndex { initActivePiece manager.torrent pieceIndex with
          blocks := (initActivePiece manager.torrent pieceIndex).blocks.modify 0 Block.request })
        (some ⟨pieceIndex, block.offset, block.length⟩)

theorem Creates.torrent {manager next : PieceManager} {peer : Peer} {request : Option BlockRequest}
    (creates : manager.Creates peer next request) : next.torrent = manager.torrent := by
  cases creates <;> rfl

theorem missingBlock_eq_some {manager : PieceManager} {peer : Peer} {pieceIndex k : Nat}
    {active : ActivePiece} {block : Block}
    (found : manager.missingBlock peer pieceIndex = some (active, k, block)) :
    manager.BlockAt pieceIndex active k block ∧ peer.hasPiece pieceIndex = true ∧
      block.state = .missing := by
  unfold missingBlock at found
  split at found
  · rename_i has
    simp only [Option.bind_eq_bind, Option.bind_eq_some_iff, Option.pure_def, Option.some.injEq,
      Prod.mk.injEq] at found
    obtain ⟨active', lookup, k', index, block', here, rfl, rfl, rfl⟩ := found
    obtain ⟨bound, missing, -⟩ := List.findIdx?_eq_some_iff_getElem.mp index
    rw [(List.getElem?_eq_some_iff.mp here).2] at missing
    exact ⟨⟨lookup, here⟩, has, of_decide_eq_true missing⟩
  · cases found

theorem missingBlock_eq_none {manager : PieceManager} {peer : Peer} {pieceIndex : Nat}
    (none_ : manager.missingBlock peer pieceIndex = none) {active : ActivePiece} {k : Nat}
    {block : Block} (at_ : manager.BlockAt pieceIndex active k block)
    (has : peer.hasPiece pieceIndex = true) : block.state ≠ .missing := by
  intro missing
  unfold missingBlock at none_
  rw [if_pos has, at_.found] at none_
  have member : block ∈ active.blocks := List.mem_of_getElem? at_.at_
  cases index : active.blocks.findIdx? fun block => block.state = .missing with
  | none =>
    have absent := List.findIdx?_eq_none_iff.mp index block member
    rw [missing] at absent
    cases absent
  | some k' =>
    -- The index found is in bounds, so the lookup that follows it cannot fail.
    obtain ⟨bound, -, -⟩ := List.findIdx?_eq_some_iff_getElem.mp index
    simp [index, List.getElem?_eq_getElem bound] at none_

theorem castU32_castInt {n : Nat} (fits : n < 2 ^ 32) : castU32 (PiecePicker.castInt n) = n := by
  unfold PiecePicker.castInt castU32
  split <;> omega

theorem pickNextPiece_cases (manager : PieceManager) (peer : Peer) :
    (manager.picker.pickNextPiece peer manager.activePieces.keys = -1 ∧
      ∀ pieceIndex, ¬ manager.Pickable peer pieceIndex) ∨
    ∃ pieceIndex, manager.picker.pickNextPiece peer manager.activePieces.keys ≠ -1 ∧
      castU32 (manager.picker.pickNextPiece peer manager.activePieces.keys) = pieceIndex ∧
      manager.Pickable peer pieceIndex := by
  have fits := manager.picker.fits
  unfold PiecePicker.pickNextPiece
  cases found : (List.range manager.picker.totalPieces).find? fun i =>
      !manager.picker.isCompleted i && !manager.activePieces.keys.contains i && peer.hasPiece i with
  | none =>
    refine .inl ⟨rfl, fun pieceIndex pickable => ?_⟩
    have other := List.find?_eq_none.mp found pieceIndex (List.mem_range.mpr pickable.bound)
    apply other
    simp only [pickable.incomplete, pickable.has, Bool.not_false, Bool.true_and, Bool.and_true,
      Bool.not_eq_true', List.contains_eq_mem, decide_eq_false_iff_not]
    exact fun member => pickable.inactive (AList.mem_keys.mpr member)
  | some i =>
    have bound := List.mem_range.mp (List.mem_of_find?_eq_some found)
    have conditions := List.find?_some found
    simp only [Bool.and_eq_true, Bool.not_eq_true', List.contains_eq_mem,
      decide_eq_false_iff_not] at conditions
    refine .inr ⟨i, ?_, castU32_castInt (by omega), ?_⟩
    · -- Only index 2^32 - 1 would be taken for the -1 of no piece, and there are fewer pieces.
      simp only [PiecePicker.castInt]
      split <;> omega
    · exact ⟨bound, conditions.1.1, fun member => conditions.1.2 (AList.mem_keys.mp member),
        conditions.2⟩

theorem createNextRequest_creates (order : IterationOrder) (manager : PieceManager) (peer : Peer) :
    Creates manager peer (createNextRequest order manager peer).1
      (createNextRequest order manager peer).2 := by
  unfold createNextRequest
  split
  · rename_i pieceIndex active k block found
    obtain ⟨key, -, here⟩ := List.exists_of_findSome?_eq_some found
    obtain ⟨triple, missing, same⟩ := Option.map_eq_some_iff.mp here
    cases same
    obtain ⟨at_, has, state⟩ := missingBlock_eq_some missing
    exact .reuse at_ has state
  · rename_i none_
    -- The search visits every active piece, in some order.
    have noneMissing : manager.NoneMissing peer := by
      intro pieceIndex active k block at_ has
      have key : pieceIndex ∈ order.scan manager.activePieces.keys := by
        rw [(order.perm _).mem_iff, ← AList.mem_keys, ← AList.lookup_isSome, at_.found]
        rfl
      have here := List.findSome?_eq_none_iff.mp none_ pieceIndex key
      exact missingBlock_eq_none (Option.map_eq_none_iff.mp here) at_ has
    split
    · rename_i full
      exact .idle ⟨noneMissing, .inl full⟩
    · rename_i room
      rcases pickNextPiece_cases manager peer with ⟨stop, unpickable⟩ | ⟨pieceIndex, more, same, pickable⟩
      · rw [if_pos stop]
        exact .idle ⟨noneMissing, .inr unpickable⟩
      · rw [if_neg more, same]
        have opens : manager.Opens peer pieceIndex := ⟨noneMissing, Nat.lt_of_not_le room, pickable⟩
        cases blocks : (initActivePiece manager.torrent pieceIndex).blocks with
        | nil =>
          simp only [blocks]
          exact .blockless opens blocks
        | cons block rest =>
          have first : (initActivePiece manager.torrent pieceIndex).blocks[0]? = some block := by
            rw [blocks]
            rfl
          -- The piece is stored first and its first block marked after that; one update says both.
          have created := Creates.fresh opens first
          simp only [requestBlock, AList.insert_insert, blocks] at created ⊢
          exact created

/-- With nothing to request the answer is null, in whatever order the pieces are looked at. -/
theorem createNextRequest_of_exhausted {manager : PieceManager} {peer : Peer}
    (exhausted : manager.Exhausted peer) (order : IterationOrder) :
    createNextRequest order manager peer = (manager, none) := by
  have search : ((order.scan manager.activePieces.keys).findSome? fun pieceIndex =>
      (manager.missingBlock peer pieceIndex).map (pieceIndex, ·)) = none := by
    rw [List.findSome?_eq_none_iff]
    intro pieceIndex _
    rw [Option.map_eq_none_iff]
    by_contra some_
    obtain ⟨⟨active, k, block⟩, found⟩ := Option.ne_none_iff_exists'.mp some_
    obtain ⟨at_, has, missing⟩ := missingBlock_eq_some found
    exact exhausted.noneMissing at_ has missing
  unfold createNextRequest
  rw [search]
  rcases exhausted.closed with full | unpickable
  · exact if_pos full
  · rcases pickNextPiece_cases manager peer with ⟨stop, -⟩ | ⟨pieceIndex, -, -, pickable⟩
    · simp only [stop, if_true, ite_self]
    · exact absurd pickable (unpickable pieceIndex)

/-! ## `process_block` -/

/-- The block that `process_block` stores data in. -/
structure Takes (manager : PieceManager) (pieceIndex blockOffset : Nat) (active : ActivePiece)
    (k : Nat) (block : Block) : Prop where
  at_ : manager.BlockAt pieceIndex active k block
  offset : block.offset = blockOffset
  open_ : block.state ≠ .downloaded

/-- The piece manager does not take the block. -/
def Rejects (manager : PieceManager) (pieceIndex blockOffset : Nat) : Prop :=
  ∀ active k block, ¬ manager.Takes pieceIndex blockOffset active k block

/-- The piece with the data in its block, before its count is raised. -/
def filled (active : ActivePiece) (k : Nat) (data : Bytes) : List Block :=
  active.blocks.modify k (Block.fill data)

inductive Processes (sha1 : Bytes → Digest) (manager : PieceManager) (pieceIndex blockOffset : Nat)
    (data : Bytes) : PieceManager → Bool → Prop where
  | rejected (rejects : manager.Rejects pieceIndex blockOffset) :
      Processes sha1 manager pieceIndex blockOffset data manager false
  | recorded {active k block} (takes : manager.Takes pieceIndex blockOffset active k block)
      (more : active.blocksDownloaded + 1 ≠ active.totalBlocks) :
      Processes sha1 manager pieceIndex blockOffset data
        (manager.setPiece pieceIndex { active with
          blocksDownloaded := active.blocksDownloaded + 1, blocks := filled active k data }) false
  | completed {active k block} (takes : manager.Takes pieceIndex blockOffset active k block)
      (last : active.blocksDownloaded + 1 = active.totalBlocks)
      (verified : manager.torrent.pieces[pieceIndex]? =
        some (sha1 (completedPiece (filled active k data)))) :
      Processes sha1 manager pieceIndex blockOffset data
        { manager with
          picker := manager.picker.markCompleted pieceIndex
          activePieces := manager.activePieces.erase pieceIndex } true
  | failed {active k block} (takes : manager.Takes pieceIndex blockOffset active k block)
      (last : active.blocksDownloaded + 1 = active.totalBlocks)
      (unverified : manager.torrent.pieces[pieceIndex]? ≠
        some (sha1 (completedPiece (filled active k data)))) :
      Processes sha1 manager pieceIndex blockOffset data
        (manager.setPiece pieceIndex { active with
          blocksDownloaded := 0, blocks := (filled active k data).map Block.reset }) false

theorem Processes.torrent {sha1 : Bytes → Digest} {manager next : PieceManager}
    {pieceIndex blockOffset : Nat} {data : Bytes} {done : Bool}
    (processes : manager.Processes sha1 pieceIndex blockOffset data next done) :
    next.torrent = manager.torrent := by
  cases processes <;> rfl

theorem processBlock_processes (sha1 : Bytes → Digest) (manager : PieceManager)
    (pieceIndex blockOffset : Nat) (data : Bytes) :
    Processes sha1 manager pieceIndex blockOffset data
      (processBlock sha1 manager pieceIndex blockOffset data).1
      (processBlock sha1 manager pieceIndex blockOffset data).2 := by
  unfold processBlock
  split
  · rename_i none_
    refine .rejected fun active k block takes => ?_
    exact nomatch none_.symm.trans takes.at_.found
  · rename_i active found
    split
    · rename_i none_
      refine .rejected fun active' k block takes => ?_
      cases found.symm.trans takes.at_.found
      have absent := List.findIdx?_eq_none_iff.mp none_ block (List.mem_of_getElem? takes.at_.at_)
      simp [takes.offset, takes.open_] at absent
    · rename_i k index
      obtain ⟨bound, fits, -⟩ := List.findIdx?_eq_some_iff_getElem.mp index
      simp only [Bool.and_eq_true, decide_eq_true_eq, ne_eq, decide_not, Bool.not_eq_true',
        decide_eq_false_iff_not] at fits
      have takes : manager.Takes pieceIndex blockOffset active k active.blocks[k] :=
        ⟨⟨found, List.getElem?_eq_getElem bound⟩, fits.1, fits.2⟩
      dsimp only
      split
      · rename_i last
        split
        · rename_i verified
          exact .completed takes last (eq_of_beq verified)
        · rename_i unverified
          exact .failed takes last fun same => unverified (beq_iff_eq.mpr same)
      · rename_i more
        exact .recorded takes more

end K0Torrent.PieceManager
