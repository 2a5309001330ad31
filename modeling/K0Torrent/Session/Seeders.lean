import K0Torrent.Session.Ledger

/-! Sessions with honest seeders.

A seeder says that it has every piece, unchokes, and answers each request once.
After every message that leads to requests there is one that is unanswered, or
nothing is left to request.
-/

set_option autoImplicit false

namespace K0Torrent

/-- The torrent has the size and the hashes of this content. -/
structure Measures (setup : Setup) (content : Bytes) : Prop where
  total : setup.torrent.totalSize = content.length
  positive : 0 < content.length
  pieceLength : 0 < setup.torrent.pieceLength ∧ setup.torrent.pieceLength ≤ 2 ^ 32 - 16384
  pieces : (setup.torrent.pieces.length : Int) =
    (setup.torrent.totalSize + setup.torrent.pieceLength - 1) / setup.torrent.pieceLength
  few : setup.torrent.pieces.length < 2 ^ 31
  hashes : ∀ pieceIndex < setup.torrent.pieces.length, setup.torrent.pieces[pieceIndex]? =
    some (setup.sha1 ((content.drop (pieceIndex * setup.torrent.pieceWidth)).take
      setup.torrent.pieceWidth))

/-- The torrent is one of this content, and its files do not share a place. -/
structure Describes (setup : Setup) (content : Bytes) : Prop extends Measures setup content where
  lengths : ∀ file ∈ registered setup.torrent, 0 ≤ file.2
  distinct : ((registered setup.torrent).map fun file =>
    resolve setup.workingDir (joinPath setup.downloadDir file.1)).Nodup

section
variable {setup : Setup} {content : Bytes} (measures : Measures setup content)
include measures

theorem Measures.divided : Divided setup.torrent where
  pieceLength := ⟨measures.pieceLength.1, Int.lt_of_le_of_lt measures.pieceLength.2 (by decide)⟩
  pieces := measures.pieces
  size := by
    have range := measures.pieceLength
    have reached := Int.lt_ediv_add_one_mul_self
      (setup.torrent.totalSize + setup.torrent.pieceLength - 1) range.1
    rw [← measures.pieces] at reached
    have count : (setup.torrent.pieces.length : Int) + 1 ≤ 2 ^ 31 := by
      have few := measures.few
      omega
    have product := Int.mul_le_mul_of_nonneg_right count (Int.le_of_lt range.1)
    omega

theorem Measures.size : setup.torrent.size = content.length := by
  have total := measures.total
  unfold TorrentFile.size
  omega

/-- Every piece starts within the content. -/
theorem Measures.start_lt {pieceIndex : Nat} (bound : pieceIndex < setup.torrent.pieces.length) :
    pieceIndex * setup.torrent.pieceWidth < setup.torrent.size :=
  start_lt_of_pieces measures.pieceLength.1 measures.pieces bound

/-- Every piece has a block. -/
theorem Measures.blockCount_pos {pieceIndex : Nat}
    (bound : pieceIndex < setup.torrent.pieces.length) :
    0 < PieceManager.blockCount (PieceManager.pieceSize setup.torrent pieceIndex) := by
  have start := measures.start_lt bound
  have range := measures.pieceLength
  rw [measures.divided.pieceSize_eq bound]
  unfold PieceManager.blockCount blockSize TorrentFile.pieceWidth at *
  omega

end

theorem Describes.addressable {setup : Setup} {content : Bytes}
    (describes : Describes setup content) :
    Addressable setup.torrent setup.downloadDir setup.workingDir where
  lengths := describes.lengths
  distinct := describes.distinct
  pieceLength := ⟨describes.pieceLength.1, Int.lt_trans describes.divided.pieceLength.2 (by decide)⟩
  pieces := describes.pieces
  small := describes.divided.pieceLength.2
  size := describes.divided.size

namespace Session

open PieceManager

variable {ι : Type}

/-- The peer has every piece. -/
def Full (torrent : TorrentFile) (peer : Peer) : Prop :=
  ∀ pieceIndex < torrent.pieces.length, peer.hasPiece pieceIndex = true

instance (torrent : TorrentFile) (peer : Peer) : Decidable (Full torrent peer) :=
  inferInstanceAs (Decidable (∀ pieceIndex < torrent.pieces.length, peer.hasPiece pieceIndex = true))

theorem Full.congr {torrent : TorrentFile} {peer other : Peer} (full : Full torrent peer)
    (same : other.bitfield = peer.bitfield) : Full torrent other :=
  fun pieceIndex bound => (Peer.hasPiece_congr same pieceIndex).trans (full pieceIndex bound)

/-- No block can be requested of a peer that has every piece. -/
structure Drained (manager : PieceManager) : Prop where
  noneMissing : ∀ pieceIndex active k block, manager.BlockAt pieceIndex active k block →
    block.state ≠ .missing
  closed : maxActivePieces ≤ manager.activePieces.keys.length ∨
    ∀ pieceIndex < manager.picker.totalPieces, manager.picker.isCompleted pieceIndex = false →
      pieceIndex ∈ manager.activePieces

theorem drained_of_exhausted {manager : PieceManager} {peer : Peer} (sound : manager.Sound)
    (full : Full manager.torrent peer) (exhausted : manager.Exhausted peer) :
    Drained manager := by
  constructor
  · intro pieceIndex active k block at_
    exact exhausted.noneMissing at_ (full pieceIndex (sound.index_lt (sound.bound at_.mem)))
  · refine exhausted.closed.imp_right fun unpickable pieceIndex bound incomplete => ?_
    by_contra inactive
    exact unpickable pieceIndex
      ⟨bound, incomplete, inactive, full pieceIndex (sound.index_lt bound)⟩

theorem blocks_ne_nil {setup : Setup} {content : Bytes} (measures : Measures setup content)
    {manager : PieceManager} (regular : Regular setup manager) {pieceIndex : Nat}
    {active : ActivePiece} (found : manager.activePieces.lookup pieceIndex = some active) :
    active.blocks ≠ [] := by
  have member : pieceIndex ∈ manager.activePieces := by
    rw [← AList.lookup_isSome, found]
    rfl
  have bound := regular.sound.index_lt (regular.sound.bound member)
  have wellFormed := regular.sound.wellFormed found
  rw [regular.torrent] at bound wellFormed
  have positive := measures.blockCount_pos bound
  rw [← length_initActivePiece, ← wellFormed.length] at positive
  exact List.length_pos_iff.mp positive

/-- When nothing can be requested and nothing is requested, everything is completed. -/
theorem completed_of_drained {setup : Setup} {content : Bytes}
    (measures : Measures setup content) {manager : PieceManager}
    (regular : Regular setup manager) (drained : Drained manager)
    (unrequested : ∀ pieceIndex active k block, manager.BlockAt pieceIndex active k block →
      block.state ≠ .requested) {pieceIndex : Nat}
    (bound : pieceIndex < setup.torrent.pieces.length) :
    manager.picker.isCompleted pieceIndex = true := by
  -- An active piece would have all its blocks downloaded, and such a piece is not active.
  have inactive : ∀ other, other ∉ manager.activePieces := by
    intro other member
    obtain ⟨active, found⟩ := Option.isSome_iff_exists.mp (AList.lookup_isSome.mpr member)
    have wellFormed := regular.sound.wellFormed found
    have waits := wellFormed.waits (blocks_ne_nil measures regular found)
    rw [wellFormed.count, wellFormed.total] at waits
    have all : active.blocks.countP Block.isDownloaded = active.blocks.length := by
      apply List.countP_eq_length.mpr
      intro block inside
      obtain ⟨k, at_⟩ := List.mem_iff_getElem?.mp inside
      have noneMissing := drained.noneMissing other active k block ⟨found, at_⟩
      have noneRequested := unrequested other active k block ⟨found, at_⟩
      cases state : block.state with
      | missing => exact absurd state noneMissing
      | requested => exact absurd state noneRequested
      | downloaded => exact decide_eq_true state
    omega
  have empty : manager.activePieces.keys = [] := by
    apply List.eq_nil_iff_forall_not_mem.mpr
    exact fun other member => inactive other (AList.mem_keys.mpr member)
  have total := regular.sound.total
  rw [regular.torrent, Nat.mod_eq_of_lt (Nat.lt_trans measures.few (by decide))] at total
  rcases drained.closed with few | open_
  · rw [empty] at few
    exact absurd few (by decide)
  · by_contra incomplete
    exact inactive pieceIndex
      (open_ pieceIndex (total ▸ bound) (Bool.eq_false_of_not_eq_true incomplete))

variable [DecidableEq ι]

/-- What an honest seeder may send, and that it stays. -/
inductive Honest (setup : Setup) (content : Bytes) (session : Session ι) : Event ι → Prop where
  | handshake {connection : ι} : Honest setup content session (.handshake connection)
  | bitfield {connection : ι} {bitfield : Bytes} {order : IterationOrder}
      {results : List SliceResult} (full : Full setup.torrent { bitfield := bitfield }) :
      Honest setup content session (.message connection ⟨.bitfield, bitfield⟩ order results)
  | unchoke {connection : ι} {bitfield : Bytes} {order : IterationOrder}
      {results : List SliceResult} (full : Full setup.torrent { bitfield := bitfield })
      (announced : .received connection ⟨.bitfield, bitfield⟩ ∈ session.wire) :
      Honest setup content session (.message connection ⟨.unchoke, []⟩ order results)
  | answer {connection : ι} {request : BlockRequest} {order : IterationOrder}
      {results : List SliceResult} (fits : request.Fits)
      (owes : Unanswered setup content session.wire connection request) :
      Honest setup content session
        (.message connection (answer setup.torrent content request) order results)

/-- Some request is unanswered, or nothing can be requested. -/
def Working (setup : Setup) (content : Bytes) (session : Session ι) : Prop :=
  (∃ connection request, BlockRequest.Fits request ∧
    Unanswered setup content session.wire connection request) ∨ Drained session.pieces

/-- What was received says of the peers what the seeders said. -/
structure Introduced (setup : Setup) (session : Session ι) : Prop where
  announced : ∀ connection bitfield, .received connection ⟨.bitfield, bitfield⟩ ∈ session.wire →
    Full setup.torrent (session.peer connection)
  heard : ∀ connection, .received connection ⟨.unchoke, []⟩ ∈ session.wire →
    (session.peer connection).peerChoking = false
  full : ∀ connection, (session.peer connection).peerChoking = false →
    Full setup.torrent (session.peer connection)

omit [DecidableEq ι] in
theorem Introduced.mono {setup : Setup} {session next : Session ι}
    (introduced : Introduced setup session)
    (wire : ∀ connection msg, msg.id ≠ .piece → .received connection msg ∈ next.wire →
      .received connection msg ∈ session.wire)
    (peers : ∀ connection, next.peer connection = session.peer connection) :
    Introduced setup next where
  announced connection bitfield member := by
    rw [peers]
    exact introduced.announced connection bitfield (wire _ _ nofun member)
  heard connection member := by
    rw [peers]
    exact introduced.heard connection (wire _ _ nofun member)
  full connection unchoked := by
    rw [peers] at unchoked ⊢
    exact introduced.full connection unchoked

omit [DecidableEq ι] in
theorem received_queueMessage {session : Session ι} {connection sender : ι}
    {msg received : PeerMessage}
    (member : .received sender received ∈ (session.queueMessage connection msg).wire) :
    .received sender received ∈ session.wire := by
  rw [wire_queueMessage] at member
  split at member
  · rcases List.mem_cons.mp member with same | before
    · cases same
    · exact before
  · exact member

omit [DecidableEq ι] in
theorem Introduced.requestNextBlocks {setup : Setup} {session : Session ι} {connection : ι}
    {order : IterationOrder} (introduced : Introduced setup session) :
    Introduced setup (requestNextBlocks order session connection) := by
  refine requestNextBlocks_induct _ (fun {current pieces request} holds _ => ?_) introduced
  refine holds.mono (fun sender msg _ member => ?_) fun other => peer_issue ..
  cases request with
  | none => exact member
  | some request => exact @received_queueMessage _ { current with pieces } _ _ _ _ member

/-! ## Looking for requests -/

/-- What the handlers that request blocks rely on. -/
structure Ready (setup : Setup) (content : Bytes) (connection : ι) (session : Session ι) : Prop where
  regular : Regular setup session.pieces
  ledger : Ledger setup content session
  connected : (session.connections connection).state = .connected
  unchoked : (session.peer connection).peerChoking = false

theorem Ready.issue {setup : Setup} {content : Bytes} {connection : ι} {session : Session ι}
    {pieces : PieceManager} {request : Option BlockRequest}
    (ready : Ready setup content connection session)
    (creates : session.pieces.Creates (session.peer connection) pieces request) :
    Ready setup content connection (session.issue connection pieces request) where
  regular := by
    rw [pieces_issue]
    exact ready.regular.creates creates
  ledger := ready.ledger.issue ready.regular ready.connected ready.unchoked creates
  connected := by
    rw [connections_issue]
    exact ready.connected
  unchoked := by
    rw [peer_issue]
    exact ready.unchoked

theorem Ready.requestNextBlocks {setup : Setup} {content : Bytes} {connection : ι}
    {session : Session ι} {order : IterationOrder} (ready : Ready setup content connection session) :
    Ready setup content connection (requestNextBlocks order session connection) :=
  requestNextBlocks_induct _ (fun holds creates => holds.issue creates) ready

/-- The first round leaves a request, or finds nothing to request. -/
theorem working_requestNextBlocks {setup : Setup} {content : Bytes} {connection : ι}
    {session : Session ι} {order : IterationOrder} (measures : Measures setup content)
    (ready : Ready setup content connection session)
    (full : Full setup.torrent (session.peer connection)) :
    Working setup content (requestNextBlocks order session connection) := by
  apply requestNextBlocks_first ready.unchoked (Working setup content)
  · intro pieces creates
    right
    have regular := ready.regular.creates creates
    cases creates with
    | idle exhausted =>
      exact drained_of_exhausted ready.regular.sound (ready.regular.torrent ▸ full) exhausted
    | blockless opens none_ =>
      exact absurd none_ (blocks_ne_nil measures regular (lookup_setPiece_self ..))
  · intro pieces request creates
    -- The four rounds that follow answer nothing.
    left
    refine ⟨connection, request, creates.fits ready.regular.sound, ?_⟩
    apply requestBlocks_induct (fun next =>
      Unanswered setup content next.wire connection request) (fun owes _ => owes.issue) 4
    exact ready.ledger.unanswered_issue ready.regular ready.connected creates

end Session

end K0Torrent
