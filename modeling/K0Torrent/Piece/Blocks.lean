import K0Torrent.Piece.Transitions

/-! The blocks of a piece and the invariant of the piece manager.

Positions and lengths of the blocks of an active piece never change; only states
and data do. A piece that has all its blocks is verified in the same call, so an
active piece with blocks always waits for one of them.
-/

set_option autoImplicit false

namespace K0Torrent

def Block.shape (block : Block) : Nat × Nat × Nat := (block.index, block.offset, block.length)

def Block.isDownloaded (block : Block) : Bool := block.state = .downloaded

@[simp] theorem Block.shape_request (block : Block) : block.request.shape = block.shape := rfl

@[simp] theorem Block.shape_fill (data : Bytes) (block : Block) :
    (block.fill data).shape = block.shape := rfl

@[simp] theorem Block.shape_reset (block : Block) : block.reset.shape = block.shape := rfl

section
variable {α β : Type}

theorem map_modify_of_same (g : α → β) {f : α → α} (same : ∀ a, g (f a) = g a) (items : List α) :
    ∀ k : Nat, (items.modify k f).map g = items.map g := by
  induction items with
  | nil => exact fun k => by rw [List.modify_nil]
  | cons item rest ih =>
    intro k
    cases k with
    | zero => rw [List.modify_zero_cons, List.map_cons, same, List.map_cons]
    | succ k => rw [List.modify_succ_cons, List.map_cons, ih, List.map_cons]

theorem countP_modify (p : α → Bool) (f : α → α) {items : List α} : ∀ {k : Nat} {item : α},
    items[k]? = some item →
    (items.modify k f).countP p + (p item).toNat = items.countP p + (p (f item)).toNat := by
  induction items with
  | nil => exact fun found => nomatch found
  | cons first rest ih =>
    intro k item found
    cases k with
    | zero =>
      cases found
      rw [List.modify_zero_cons, List.countP_cons, List.countP_cons]
      cases p first <;> cases p (f first) <;> simp
    | succ k =>
      have later := ih (k := k) found
      rw [List.modify_succ_cons, List.countP_cons, List.countP_cons]
      omega

end

namespace PieceManager

/-! ## Shapes -/

theorem blockCount_lt (size : Nat) : blockCount size < 2 ^ 18 := by
  unfold blockCount blockSize
  omega

/-- A piece with blocks is small enough for its block count not to wrap. -/
theorem size_of_blockCount {size k : Nat} (bound : k < blockCount size) (fits : size < 2 ^ 32) :
    size ≤ 2 ^ 32 - blockSize ∧ k * blockSize < size ∧
      size ≤ blockCount size * blockSize := by
  unfold blockCount blockSize at *
  omega

theorem pieceSize_lt (torrent : TorrentFile) (pieceIndex : Nat) :
    pieceSize torrent pieceIndex < 2 ^ 32 := by
  unfold pieceSize
  dsimp only
  split
  · exact Nat.mod_lt _ (by decide)
  · exact castU32_lt _

theorem initBlock_eq {size k : Nat} (bound : k < blockCount size) (fits : size < 2 ^ 32) :
    initBlock size k =
      { index := k, offset := k * blockSize, length := min blockSize (size - k * blockSize) } := by
  obtain ⟨small, inside, -⟩ := size_of_blockCount bound fits
  have offset : k * blockSize % 2 ^ 32 = k * blockSize := Nat.mod_eq_of_lt (by omega)
  have rest : (size + 2 ^ 32 - k * blockSize) % 2 ^ 32 = size - k * blockSize := by omega
  simp only [initBlock, offset, rest]

theorem getElem?_initActivePiece {torrent : TorrentFile} {pieceIndex k : Nat} {block : Block} :
    (initActivePiece torrent pieceIndex).blocks[k]? = some block ↔
      k < blockCount (pieceSize torrent pieceIndex) ∧
        block = { index := k, offset := k * blockSize
                  length := min blockSize (pieceSize torrent pieceIndex - k * blockSize) } := by
  have fits := pieceSize_lt torrent pieceIndex
  unfold initActivePiece
  dsimp only
  split
  · rename_i zero
    rw [zero]
    simp [blockCount, blockSize]
  · simp only [List.getElem?_map, Option.map_eq_some_iff, List.getElem?_eq_some_iff,
      List.length_range, List.getElem_range]
    constructor
    · rintro ⟨i, ⟨bound, rfl⟩, rfl⟩
      exact ⟨bound, initBlock_eq bound fits⟩
    · rintro ⟨bound, rfl⟩
      exact ⟨k, ⟨bound, rfl⟩, initBlock_eq bound fits⟩

theorem length_initActivePiece (torrent : TorrentFile) (pieceIndex : Nat) :
    (initActivePiece torrent pieceIndex).blocks.length =
      blockCount (pieceSize torrent pieceIndex) := by
  unfold initActivePiece
  dsimp only
  split
  · rename_i zero
    rw [zero]
    rfl
  · rw [List.length_map, List.length_range]

/-- What the shapes of the blocks of a piece say of one of them. -/
theorem block_of_shapes {torrent : TorrentFile} {pieceIndex k : Nat} {blocks : List Block}
    {block : Block} (shapes : blocks.map Block.shape =
      (initActivePiece torrent pieceIndex).blocks.map Block.shape)
    (at_ : blocks[k]? = some block) :
    k < blockCount (pieceSize torrent pieceIndex) ∧ block.index = k ∧
      block.offset = k * blockSize ∧
      block.length = min blockSize (pieceSize torrent pieceIndex - k * blockSize) := by
  have here := congrArg (fun shapes => shapes[k]?) shapes
  simp only [List.getElem?_map, at_, Option.map_some] at here
  obtain ⟨initial, found, same⟩ := Option.map_eq_some_iff.mp here.symm
  obtain ⟨bound, rfl⟩ := getElem?_initActivePiece.mp found
  simp only [Block.shape, Prod.mk.injEq] at same
  exact ⟨bound, same.1.symm, same.2.1.symm, same.2.2.symm⟩

/-- An active piece as its calls leave it. -/
structure WellFormed (torrent : TorrentFile) (pieceIndex : Nat) (active : ActivePiece) : Prop where
  shapes : active.blocks.map Block.shape =
    (initActivePiece torrent pieceIndex).blocks.map Block.shape
  total : active.totalBlocks = active.blocks.length
  count : active.blocksDownloaded = active.blocks.countP Block.isDownloaded
  waits : active.blocks ≠ [] → active.blocksDownloaded < active.totalBlocks

section
variable {torrent : TorrentFile} {pieceIndex : Nat} {active : ActivePiece}
  (wellFormed : WellFormed torrent pieceIndex active)
include wellFormed

theorem WellFormed.length : active.blocks.length =
    (initActivePiece torrent pieceIndex).blocks.length := by
  have lengths := congrArg List.length wellFormed.shapes
  rwa [List.length_map, List.length_map] at lengths

theorem WellFormed.block {k : Nat} {block : Block} (at_ : active.blocks[k]? = some block) :
    k < blockCount (pieceSize torrent pieceIndex) ∧ block.index = k ∧
      block.offset = k * blockSize ∧
      block.length = min blockSize (pieceSize torrent pieceIndex - k * blockSize) :=
  block_of_shapes wellFormed.shapes at_

theorem WellFormed.offset_inj {j k : Nat} {first second : Block}
    (firstAt : active.blocks[j]? = some first) (secondAt : active.blocks[k]? = some second)
    (same : first.offset = second.offset) : j = k := by
  obtain ⟨-, -, offset, -⟩ := wellFormed.block firstAt
  obtain ⟨-, -, offset', -⟩ := wellFormed.block secondAt
  unfold blockSize at *
  omega

end

theorem wellFormed_init (torrent : TorrentFile) (pieceIndex : Nat) :
    WellFormed torrent pieceIndex (initActivePiece torrent pieceIndex) := by
  have missing : (initActivePiece torrent pieceIndex).blocks.countP Block.isDownloaded = 0 := by
    rw [List.countP_eq_zero]
    intro block member
    obtain ⟨k, at_⟩ := List.mem_iff_getElem?.mp member
    obtain ⟨-, rfl⟩ := getElem?_initActivePiece.mp at_
    nofun
  have total : (initActivePiece torrent pieceIndex).totalBlocks =
      (initActivePiece torrent pieceIndex).blocks.length := by
    unfold initActivePiece
    dsimp only
    split
    · rfl
    · rw [List.length_map, List.length_range]
  have none_ : (initActivePiece torrent pieceIndex).blocksDownloaded = 0 := by
    unfold initActivePiece
    dsimp only
    split <;> rfl
  refine ⟨rfl, total, none_.trans missing.symm, fun some_ => ?_⟩
  rw [none_, total]
  exact List.length_pos_iff.mpr some_

theorem WellFormed.request {torrent : TorrentFile} {pieceIndex k : Nat} {active : ActivePiece}
    {block : Block} (wellFormed : WellFormed torrent pieceIndex active)
    (at_ : active.blocks[k]? = some block) (missing : block.state = .missing) :
    WellFormed torrent pieceIndex { active with blocks := active.blocks.modify k Block.request } := by
  have count := countP_modify Block.isDownloaded Block.request at_
  have before : block.isDownloaded = false := by
    rw [Block.isDownloaded, missing]
    rfl
  rw [before, show block.request.isDownloaded = false from rfl] at count
  refine ⟨?_, ?_, ?_, fun _ => ?_⟩
  · exact (map_modify_of_same Block.shape Block.shape_request _ k).trans wellFormed.shapes
  · exact wellFormed.total.trans (List.length_modify ..).symm
  · exact wellFormed.count.trans count.symm
  · exact wellFormed.waits (List.ne_nil_of_mem (List.mem_of_getElem? at_))

section
variable {torrent : TorrentFile} {pieceIndex k : Nat} {active : ActivePiece} {block : Block}
  (wellFormed : WellFormed torrent pieceIndex active) (at_ : active.blocks[k]? = some block)
  (open_ : block.state ≠ .downloaded) (data : Bytes)
include wellFormed at_ open_

theorem countP_filled :
    (filled active k data).countP Block.isDownloaded = active.blocksDownloaded + 1 := by
  have count := countP_modify Block.isDownloaded (Block.fill data) at_
  have before : block.isDownloaded = false := decide_eq_false open_
  rw [before, show (block.fill data).isDownloaded = true from rfl] at count
  have now := wellFormed.count
  simp only [filled, Bool.toNat_false, Bool.toNat_true] at count ⊢
  omega

omit at_ open_ in
theorem shapes_filled : (filled active k data).map Block.shape =
    (initActivePiece torrent pieceIndex).blocks.map Block.shape :=
  (map_modify_of_same Block.shape (Block.shape_fill data) _ k).trans wellFormed.shapes

/-- The piece has all its blocks once the last one it waits for is filled. -/
theorem downloaded_of_last (last : active.blocksDownloaded + 1 = active.totalBlocks) {other : Block}
    (member : other ∈ filled active k data) : other.state = .downloaded := by
  have count := countP_filled wellFormed at_ open_ data
  have length : (filled active k data).length = active.blocks.length := List.length_modify ..
  rw [last, wellFormed.total, ← length, List.countP_eq_length] at count
  exact of_decide_eq_true (count other member)

theorem WellFormed.fill (more : active.blocksDownloaded + 1 ≠ active.totalBlocks) :
    WellFormed torrent pieceIndex { active with
      blocksDownloaded := active.blocksDownloaded + 1, blocks := filled active k data } := by
  have waits := wellFormed.waits (List.ne_nil_of_mem (List.mem_of_getElem? at_))
  refine ⟨?_, ?_, (countP_filled wellFormed at_ open_ data).symm, fun _ => ?_⟩
  · exact shapes_filled wellFormed data
  · exact wellFormed.total.trans (List.length_modify ..).symm
  · change active.blocksDownloaded + 1 < active.totalBlocks
    omega

omit open_ in
theorem WellFormed.reset :
    WellFormed torrent pieceIndex { active with
      blocksDownloaded := 0, blocks := (filled active k data).map Block.reset } := by
  have length : (filled active k data).length = active.blocks.length := List.length_modify ..
  refine ⟨?_, ?_, ?_, fun _ => ?_⟩
  · rw [List.map_map]
    exact shapes_filled wellFormed data
  · rw [List.length_map, length]
    exact wellFormed.total
  · symm
    rw [List.countP_eq_zero]
    intro reset member
    obtain ⟨origin, -, rfl⟩ := List.mem_map.mp member
    nofun
  · have bound := (List.getElem?_eq_some_iff.mp at_).1
    change 0 < active.totalBlocks
    rw [wellFormed.total]
    omega

end

/-! ## The invariant -/

structure Sound (manager : PieceManager) : Prop where
  wellFormed : ∀ {pieceIndex active}, manager.activePieces.lookup pieceIndex = some active →
    WellFormed manager.torrent pieceIndex active
  bound : ∀ {pieceIndex}, pieceIndex ∈ manager.activePieces →
    pieceIndex < manager.picker.totalPieces
  incomplete : ∀ {pieceIndex}, pieceIndex ∈ manager.activePieces →
    manager.picker.isCompleted pieceIndex = false
  total : manager.picker.totalPieces = manager.torrent.pieces.length % 2 ^ 32

theorem sound_new (torrent : TorrentFile) : (new torrent).Sound where
  wellFormed found := nomatch found
  bound member := nomatch member
  incomplete member := nomatch member
  total := rfl

theorem isCompleted_new (torrent : TorrentFile) (pieceIndex : Nat) :
    (new torrent).picker.isCompleted pieceIndex = false := by
  unfold PieceManager.new PiecePicker.new PiecePicker.isCompleted
  rw [List.getD_eq_getElem?_getD, List.getElem?_replicate]
  split <;> rfl

theorem BlockAt.mem {manager : PieceManager} {pieceIndex k : Nat} {active : ActivePiece}
    {block : Block} (at_ : manager.BlockAt pieceIndex active k block) :
    pieceIndex ∈ manager.activePieces := by
  rw [← AList.lookup_isSome, at_.found]
  rfl

theorem Sound.setPiece {manager : PieceManager} (sound : manager.Sound) {pieceIndex : Nat}
    {active : ActivePiece} (wellFormed : WellFormed manager.torrent pieceIndex active)
    (bound : pieceIndex < manager.picker.totalPieces)
    (incomplete : manager.picker.isCompleted pieceIndex = false) :
    (manager.setPiece pieceIndex active).Sound where
  wellFormed {other active'} found := by
    rw [lookup_setPiece] at found
    split at found
    · rename_i same
      subst same
      cases found
      exact wellFormed
    · exact sound.wellFormed found
  bound {other} member := by
    rcases (AList.mem_insert manager.activePieces).mp member with rfl | before
    · exact bound
    · exact sound.bound before
  incomplete {other} member := by
    rcases (AList.mem_insert manager.activePieces).mp member with rfl | before
    · exact incomplete
    · exact sound.incomplete before
  total := sound.total

theorem Sound.creates {manager next : PieceManager} {peer : Peer} {request : Option BlockRequest}
    (sound : manager.Sound) (creates : manager.Creates peer next request) : next.Sound := by
  cases creates with
  | reuse at_ has missing =>
    exact sound.setPiece ((sound.wellFormed at_.found).request at_.at_ missing)
      (sound.bound at_.mem) (sound.incomplete at_.mem)
  | idle => exact sound
  | blockless opens =>
    exact sound.setPiece (wellFormed_init ..) opens.pickable.bound opens.pickable.incomplete
  | @fresh pieceIndex block opens first =>
    have missing : block.state = .missing := by
      obtain ⟨-, rfl⟩ := getElem?_initActivePiece.mp first
      rfl
    exact sound.setPiece ((wellFormed_init _ pieceIndex).request first missing)
      opens.pickable.bound opens.pickable.incomplete

theorem isCompleted_markCompleted (picker : PiecePicker) (pieceIndex other : Nat)
    (bound : pieceIndex < picker.totalPieces) :
    (picker.markCompleted pieceIndex).isCompleted other =
      (decide (other = pieceIndex) || picker.isCompleted other) := by
  have inside : pieceIndex < picker.completedPieces.length := picker.sized.symm ▸ bound
  unfold PiecePicker.markCompleted PiecePicker.isCompleted
  rw [if_pos bound]
  simp only [List.getD_eq_getElem?_getD, List.getElem?_set]
  by_cases same : other = pieceIndex
  · subst same
    simp [inside]
  · simp [same, Ne.symm same]

theorem totalPieces_markCompleted (picker : PiecePicker) (pieceIndex : Nat) :
    (picker.markCompleted pieceIndex).totalPieces = picker.totalPieces := by
  unfold PiecePicker.markCompleted
  split <;> rfl

theorem Sound.processes {sha1 : Bytes → Digest} {manager next : PieceManager}
    {pieceIndex blockOffset : Nat} {data : Bytes} {done : Bool} (sound : manager.Sound)
    (processes : manager.Processes sha1 pieceIndex blockOffset data next done) : next.Sound := by
  cases processes with
  | rejected => exact sound
  | recorded takes more =>
    have mem := takes.at_.mem
    exact sound.setPiece
      ((sound.wellFormed takes.at_.found).fill takes.at_.at_ takes.open_ data more)
      (sound.bound mem) (sound.incomplete mem)
  | failed takes =>
    have mem := takes.at_.mem
    exact sound.setPiece ((sound.wellFormed takes.at_.found).reset takes.at_.at_ data)
      (sound.bound mem) (sound.incomplete mem)
  | completed takes =>
    have bound := sound.bound takes.at_.mem
    have kept : ∀ {other}, other ∈ manager.activePieces.erase pieceIndex →
        other ≠ pieceIndex ∧ other ∈ manager.activePieces := AList.mem_erase.mp
    refine ⟨fun {other active} found => ?_, fun {other} member => ?_, fun {other} member => ?_, ?_⟩
    · have member : other ∈ manager.activePieces.erase pieceIndex := by
        rw [← AList.lookup_isSome, found]
        rfl
      rw [AList.lookup_erase_ne (kept member).1] at found
      exact sound.wellFormed found
    · rw [totalPieces_markCompleted]
      exact sound.bound (kept member).2
    · rw [isCompleted_markCompleted _ _ _ bound, decide_eq_false (kept member).1, Bool.false_or]
      exact sound.incomplete (kept member).2
    · rw [totalPieces_markCompleted]
      exact sound.total

theorem Sound.index_lt {manager : PieceManager} (sound : manager.Sound) {pieceIndex : Nat}
    (bound : pieceIndex < manager.picker.totalPieces) :
    pieceIndex < manager.torrent.pieces.length := by
  have total := sound.total
  have fewer := Nat.mod_le manager.torrent.pieces.length (2 ^ 32)
  omega

theorem isCompleted_lt {picker : PiecePicker} {pieceIndex : Nat}
    (completed : picker.isCompleted pieceIndex = true) : pieceIndex < picker.totalPieces := by
  rw [← picker.sized]
  by_contra beyond
  rw [PiecePicker.isCompleted, List.getD_eq_getElem?_getD,
    List.getElem?_eq_none (Nat.not_lt.mp beyond)] at completed
  cases completed

theorem Takes.unique {manager : PieceManager} (sound : manager.Sound)
    {pieceIndex blockOffset j k : Nat} {first second : ActivePiece} {block block' : Block}
    (takes : manager.Takes pieceIndex blockOffset first j block)
    (takes' : manager.Takes pieceIndex blockOffset second k block') :
    first = second ∧ j = k ∧ block = block' := by
  cases takes.at_.found.symm.trans takes'.at_.found
  obtain rfl := (sound.wellFormed takes.at_.found).offset_inj takes.at_.at_ takes'.at_.at_
    (takes.offset.trans takes'.offset.symm)
  exact ⟨rfl, rfl, Option.some.inj (takes.at_.at_.symm.trans takes'.at_.at_)⟩

/-! ## Where the blocks of the next state come from -/

theorem BlockAt.setPiece {manager : PieceManager} {pieceIndex other k : Nat}
    {active active' : ActivePiece} {block : Block}
    (at_ : (manager.setPiece pieceIndex active).BlockAt other active' k block) :
    (other = pieceIndex ∧ active.blocks[k]? = some block) ∨
      (other ≠ pieceIndex ∧ manager.BlockAt other active' k block) := by
  have found := at_.found
  rw [lookup_setPiece] at found
  split at found
  · rename_i same
    cases found
    exact .inl ⟨same, at_.at_⟩
  · rename_i different
    exact .inr ⟨different, found, at_.at_⟩

theorem getElem?_modify_cases {α : Type} {f : α → α} {items : List α} {j k : Nat} {item : α}
    (found : (items.modify k f)[j]? = some item) :
    (j = k ∧ ∃ before, items[k]? = some before ∧ item = f before) ∨
      (j ≠ k ∧ items[j]? = some item) := by
  rw [List.getElem?_modify] at found
  obtain ⟨before, here, rfl⟩ := Option.map_eq_some_iff.mp found
  by_cases same : k = j
  · subst same
    exact .inl ⟨rfl, before, here, by simp⟩
  · exact .inr ⟨Ne.symm same, by simpa [same] using here⟩

/-- After a request a block is what it was, or the one requested, or a new one
nobody was asked for. -/
theorem Creates.blockAt {manager next : PieceManager} {peer : Peer} {request : Option BlockRequest}
    (creates : manager.Creates peer next request) {pieceIndex k : Nat} {active : ActivePiece}
    {block : Block} (at_ : next.BlockAt pieceIndex active k block) :
    (∃ active', manager.BlockAt pieceIndex active' k block) ∨
      (∃ before : Block, block = before.request ∧ before.state = .missing ∧
        request = some ⟨pieceIndex, block.offset, block.length⟩ ∧
        ((∃ active', manager.BlockAt pieceIndex active' k before) ∨
          pieceIndex ∉ manager.activePieces)) ∨
      (pieceIndex ∉ manager.activePieces ∧ block.state = .missing) := by
  cases creates with
  | reuse before has missing =>
    rcases at_.setPiece with ⟨rfl, here⟩ | ⟨-, old⟩
    · rcases getElem?_modify_cases here with ⟨rfl, origin, found, rfl⟩ | ⟨-, found⟩
      · cases found.symm.trans before.at_
        exact .inr (.inl ⟨_, rfl, missing, rfl, .inl ⟨_, before⟩⟩)
      · exact .inl ⟨_, before.found, found⟩
    · exact .inl ⟨_, old⟩
  | idle => exact .inl ⟨_, at_⟩
  | blockless opens none_ =>
    rcases at_.setPiece with ⟨rfl, here⟩ | ⟨-, old⟩
    · rw [none_] at here
      cases here
    · exact .inl ⟨_, old⟩
  | @fresh opened first opens firstAt =>
    rcases at_.setPiece with ⟨rfl, here⟩ | ⟨-, old⟩
    · rcases getElem?_modify_cases here with ⟨rfl, origin, found, rfl⟩ | ⟨-, found⟩
      · cases found.symm.trans firstAt
        obtain ⟨-, rfl⟩ := getElem?_initActivePiece.mp firstAt
        exact .inr (.inl ⟨_, rfl, rfl, rfl, .inr opens.pickable.inactive⟩)
      · obtain ⟨-, rfl⟩ := getElem?_initActivePiece.mp found
        exact .inr (.inr ⟨opens.pickable.inactive, rfl⟩)
    · exact .inl ⟨_, old⟩

/-- After a block was processed a block is what it was and not the one that was
delivered, or that one with its data, while its piece waits for more, or one of a
piece that starts over. -/
theorem Processes.blockAt {sha1 : Bytes → Digest} {manager next : PieceManager}
    {pieceIndex blockOffset : Nat} {data : Bytes} {done : Bool} (sound : manager.Sound)
    (processes : manager.Processes sha1 pieceIndex blockOffset data next done) {other k : Nat}
    {active : ActivePiece} {block : Block} (at_ : next.BlockAt other active k block) :
    (∃ active', manager.BlockAt other active' k block ∧
      ¬ (other = pieceIndex ∧ block.offset = blockOffset ∧ block.state ≠ .downloaded)) ∨
    (other = pieceIndex ∧ ∃ active' before, manager.Takes pieceIndex blockOffset active' k before ∧
      active'.blocksDownloaded + 1 ≠ active'.totalBlocks ∧ block = before.fill data) ∨
    (other = pieceIndex ∧ block.state = .missing) := by
  cases processes with
  | rejected rejects =>
    refine .inl ⟨_, at_, ?_⟩
    rintro ⟨rfl, offset, open_⟩
    exact rejects _ _ _ ⟨at_, offset, open_⟩
  | @recorded taken j before takes more =>
    rcases at_.setPiece with ⟨rfl, here⟩ | ⟨different, old⟩
    · rcases getElem?_modify_cases here with ⟨rfl, origin, found, rfl⟩ | ⟨apart, found⟩
      · cases found.symm.trans takes.at_.at_
        exact .inr (.inl ⟨rfl, _, _, takes, more, rfl⟩)
      · -- Another block of the piece starts at another offset.
        refine .inl ⟨_, ⟨takes.at_.found, found⟩, ?_⟩
        rintro ⟨-, offset, -⟩
        exact apart ((sound.wellFormed takes.at_.found).offset_inj found takes.at_.at_
          (offset.trans takes.offset.symm))
    · exact .inl ⟨_, old, fun same => different same.1⟩
  | completed takes =>
    have different : other ≠ pieceIndex := by
      rintro rfl
      have found := at_.found
      rw [AList.lookup_erase] at found
      cases found
    have found := at_.found
    rw [AList.lookup_erase_ne different] at found
    exact .inl ⟨_, ⟨found, at_.at_⟩, fun same => different same.1⟩
  | failed takes =>
    rcases at_.setPiece with ⟨rfl, here⟩ | ⟨different, old⟩
    · rw [List.getElem?_map] at here
      obtain ⟨origin, -, rfl⟩ := Option.map_eq_some_iff.mp here
      exact .inr (.inr ⟨rfl, rfl⟩)
    · exact .inl ⟨_, old, fun same => different same.1⟩

theorem Creates.picker {manager next : PieceManager} {peer : Peer} {request : Option BlockRequest}
    (creates : manager.Creates peer next request) : next.picker = manager.picker := by
  cases creates <;> rfl

/-- A piece becomes completed by its last block, and only if its data is verified. -/
theorem Processes.isCompleted {sha1 : Bytes → Digest} {manager next : PieceManager}
    {pieceIndex blockOffset : Nat} {data : Bytes} {done : Bool} (sound : manager.Sound)
    (processes : manager.Processes sha1 pieceIndex blockOffset data next done) {other : Nat}
    (completed : next.picker.isCompleted other = true) :
    manager.picker.isCompleted other = true ∨
      (other = pieceIndex ∧ ∃ active k block, manager.Takes pieceIndex blockOffset active k block ∧
        active.blocksDownloaded + 1 = active.totalBlocks ∧
        manager.torrent.pieces[pieceIndex]? =
          some (sha1 (completedPiece (filled active k data)))) := by
  cases processes with
  | rejected => exact .inl completed
  | recorded => exact .inl completed
  | failed => exact .inl completed
  | completed takes last verified =>
    rw [isCompleted_markCompleted _ _ _ (sound.bound takes.at_.mem), Bool.or_eq_true,
      decide_eq_true_eq] at completed
    rcases completed with same | before
    · exact .inr ⟨same, _, _, _, takes, last, verified⟩
    · exact .inl before

theorem BlockAt.fits {manager : PieceManager} (sound : manager.Sound) {pieceIndex k : Nat}
    {active : ActivePiece} {block : Block} (at_ : manager.BlockAt pieceIndex active k block) :
    BlockRequest.Fits ⟨pieceIndex, block.offset, block.length⟩ := by
  obtain ⟨inside, -, offset, length⟩ := (sound.wellFormed at_.found).block at_.at_
  have bound := sound.bound at_.mem
  have total := manager.picker.fits
  have few := blockCount_lt (pieceSize manager.torrent pieceIndex)
  refine ⟨Nat.lt_trans bound total, ?_, ?_⟩
  · change block.offset < 2 ^ 32
    rw [offset]
    unfold blockSize
    omega
  · change block.length < 2 ^ 32
    rw [length]
    exact Nat.lt_of_le_of_lt (Nat.min_le_left ..) (by decide)

/-- The request that a call creates is for a block of the next state. -/
theorem Creates.requested {manager next : PieceManager} {peer : Peer} {request : BlockRequest}
    (creates : manager.Creates peer next (some request)) :
    ∃ active k block, next.BlockAt request.piece active k block ∧ block.state = .requested ∧
      request = ⟨request.piece, block.offset, block.length⟩ := by
  cases creates with
  | @reuse pieceIndex active k block at_ =>
    have here : (active.blocks.modify k Block.request)[k]? = some block.request := by
      rw [List.getElem?_modify_eq, at_.at_]
      rfl
    exact ⟨_, k, block.request, ⟨lookup_setPiece_self .., here⟩, rfl, rfl⟩
  | @fresh pieceIndex block opens first =>
    have here : ((initActivePiece manager.torrent pieceIndex).blocks.modify 0 Block.request)[0]? =
        some block.request := by
      rw [List.getElem?_modify_eq, first]
      rfl
    exact ⟨_, 0, block.request, ⟨lookup_setPiece_self .., here⟩, rfl, rfl⟩

theorem Creates.fits {manager next : PieceManager} {peer : Peer} {request : BlockRequest}
    (sound : manager.Sound) (creates : manager.Creates peer next (some request)) : request.Fits := by
  obtain ⟨active, k, block, at_, -, same⟩ := creates.requested
  rw [same]
  exact at_.fits (sound.creates creates)

/-! ## Having nothing to request -/

theorem Exhausted.congr {manager : PieceManager} {peer other : Peer}
    (exhausted : manager.Exhausted peer) (same : other.bitfield = peer.bitfield) :
    manager.Exhausted other := by
  have has := Peer.hasPiece_congr same
  refine ⟨fun at_ have_ => exhausted.noneMissing at_ ((has _).symm.trans have_), ?_⟩
  refine exhausted.closed.imp_right fun unpickable pieceIndex pickable => ?_
  exact unpickable pieceIndex ⟨pickable.bound, pickable.incomplete, pickable.inactive,
    (has _).symm.trans pickable.has⟩

theorem Exhausted.setPiece {manager : PieceManager} {peer : Peer} {pieceIndex : Nat}
    {active : ActivePiece} (exhausted : manager.Exhausted peer)
    (member : pieceIndex ∈ manager.activePieces)
    (kept : ∀ {k block}, active.blocks[k]? = some block → block.state = .missing →
      ∃ active', manager.BlockAt pieceIndex active' k block) :
    (manager.setPiece pieceIndex active).Exhausted peer := by
  constructor
  · intro other active' k block at_ has missing
    rcases at_.setPiece with ⟨rfl, here⟩ | ⟨-, old⟩
    · obtain ⟨before, old⟩ := kept here missing
      exact exhausted.noneMissing old has missing
    · exact exhausted.noneMissing old has missing
  · rw [length_keys_setPiece, if_pos member]
    refine exhausted.closed.imp_right fun unpickable other pickable => ?_
    exact unpickable other ⟨pickable.bound, pickable.incomplete,
      fun before => pickable.inactive ((AList.mem_insert _).mpr (.inr before)), pickable.has⟩

/-- An active piece without blocks, which a torrent of consistent sizes never has. -/
def Blockless (manager : PieceManager) : Prop :=
  ∃ pieceIndex active, manager.activePieces.lookup pieceIndex = some active ∧ active.blocks = []

/-- A request for one peer creates no work for another that has none. -/
theorem Exhausted.creates {manager next : PieceManager} {peer other : Peer}
    {request : Option BlockRequest} (exhausted : manager.Exhausted peer)
    (creates : manager.Creates other next request) : next.Exhausted peer ∨ next.Blockless := by
  cases creates with
  | reuse at_ has missing =>
    refine .inl (exhausted.setPiece at_.mem fun {j block} here state => ?_)
    rcases getElem?_modify_cases here with ⟨-, _, _, rfl⟩ | ⟨-, found⟩
    · cases state
    · exact ⟨_, at_.found, found⟩
  | idle => exact .inl exhausted
  | blockless opens none_ => exact .inr ⟨_, _, lookup_setPiece_self .., none_⟩
  | @fresh opened block opens first =>
    -- The picker has found a piece for the other peer; this one does not have it.
    rcases exhausted.closed with full | unpickable
    · exact absurd opens.room (Nat.not_lt.mpr full)
    · have lacks : peer.hasPiece opened = false := by
        by_contra has
        have pickable := opens.pickable
        exact unpickable opened ⟨pickable.bound, pickable.incomplete, pickable.inactive,
          Bool.eq_true_of_not_eq_false has⟩
      refine .inl ⟨fun {pieceIndex active k block} at_ has missing => ?_, .inr ?_⟩
      · rcases at_.setPiece with ⟨rfl, -⟩ | ⟨-, old⟩
        · rw [lacks] at has
          cases has
        · exact exhausted.noneMissing old has missing
      · intro other pickable
        exact unpickable other ⟨pickable.bound, pickable.incomplete,
          fun before => pickable.inactive ((AList.mem_insert _).mpr (.inr before)), pickable.has⟩

theorem Blockless.creates {manager next : PieceManager} {peer : Peer}
    {request : Option BlockRequest} (blockless : manager.Blockless)
    (creates : manager.Creates peer next request) : next.Blockless := by
  obtain ⟨pieceIndex, active, found, empty⟩ := blockless
  have other : ∀ {opened}, opened ∉ manager.activePieces → pieceIndex ≠ opened := by
    rintro opened inactive rfl
    rw [← AList.lookup_isSome, found] at inactive
    exact inactive rfl
  cases creates with
  | @reuse reused taken k block at_ =>
    -- A piece without blocks has none to request.
    have different : pieceIndex ≠ reused := by
      rintro rfl
      cases found.symm.trans at_.found
      have here := at_.at_
      rw [empty] at here
      cases here
    exact ⟨pieceIndex, active, (lookup_setPiece_of_ne _ _ _ different).trans found, empty⟩
  | idle => exact ⟨pieceIndex, active, found, empty⟩
  | blockless opens =>
    have different := other opens.pickable.inactive
    exact ⟨pieceIndex, active, (lookup_setPiece_of_ne _ _ _ different).trans found, empty⟩
  | fresh opens =>
    have different := other opens.pickable.inactive
    exact ⟨pieceIndex, active, (lookup_setPiece_of_ne _ _ _ different).trans found, empty⟩

/-- The block is the last one its piece waits for. -/
def Finishes (manager : PieceManager) (pieceIndex blockOffset : Nat) : Prop :=
  ∃ active k block, manager.Takes pieceIndex blockOffset active k block ∧
    active.blocksDownloaded + 1 = active.totalBlocks

theorem Exhausted.processes {sha1 : Bytes → Digest} {manager next : PieceManager} {peer : Peer}
    {pieceIndex blockOffset : Nat} {data : Bytes} {done : Bool}
    (exhausted : manager.Exhausted peer)
    (processes : manager.Processes sha1 pieceIndex blockOffset data next done)
    (unfinished : ¬ manager.Finishes pieceIndex blockOffset) : next.Exhausted peer := by
  cases processes with
  | rejected => exact exhausted
  | recorded takes =>
    refine exhausted.setPiece takes.at_.mem fun {j block} here state => ?_
    rcases getElem?_modify_cases here with ⟨-, _, _, rfl⟩ | ⟨-, found⟩
    · cases state
    · exact ⟨_, takes.at_.found, found⟩
  | completed takes last => exact absurd ⟨_, _, _, takes, last⟩ unfinished
  | failed takes last => exact absurd ⟨_, _, _, takes, last⟩ unfinished

theorem Blockless.processes {sha1 : Bytes → Digest} {manager next : PieceManager}
    {pieceIndex blockOffset : Nat} {data : Bytes} {done : Bool} (blockless : manager.Blockless)
    (processes : manager.Processes sha1 pieceIndex blockOffset data next done) :
    next.Blockless := by
  obtain ⟨other, active, found, empty⟩ := blockless
  have different : ∀ {taken k block}, manager.Takes pieceIndex blockOffset taken k block →
      other ≠ pieceIndex := by
    rintro taken k block takes rfl
    cases found.symm.trans takes.at_.found
    have here := takes.at_.at_
    rw [empty] at here
    cases here
  cases processes with
  | rejected => exact ⟨other, active, found, empty⟩
  | recorded takes =>
    exact ⟨other, active, (lookup_setPiece_of_ne _ _ _ (different takes)).trans found, empty⟩
  | completed takes =>
    exact ⟨other, active, (AList.lookup_erase_ne (different takes)).trans found, empty⟩
  | failed takes =>
    exact ⟨other, active, (lookup_setPiece_of_ne _ _ _ (different takes)).trans found, empty⟩

end PieceManager

end K0Torrent
