import K0Torrent.Disk.Assembly
import K0Torrent.Session.Intact
import K0Torrent.Session.Seeders

/-! A download from honest seeders.

Every block that arrives was asked for and is part of the content, so no piece
fails its hash, whatever the files come to. If no file operation fails, what is held
on disk is the content at its positions.
-/

set_option autoImplicit false

namespace K0Torrent

theorem map_some_slice {content : Bytes} {start count : Nat} (inside : start + count ≤ content.length) :
    ((content.drop start).take count).map some =
      (List.range count).map fun j => content[start + j]? := by
  apply Chunks.map_some_eq
  · rw [List.length_take, List.length_drop]
    omega
  · intro j byte found
    have short := Nat.lt_of_lt_of_le (List.getElem?_eq_some_iff.mp found).1 (List.length_take_le ..)
    rwa [List.getElem?_take_of_lt short, List.getElem?_drop] at found

theorem getElem?_requestedBytes {torrent : TorrentFile} {content : Bytes} {request : BlockRequest}
    {j : Nat} (bound : j < request.length) :
    (requestedBytes torrent content request)[j]? =
      content[request.piece * torrent.pieceWidth + request.offset + j]? := by
  rw [requestedBytes, List.getElem?_take_of_lt bound, List.getElem?_drop]

namespace Session

open PieceManager DiskManager

variable {ι : Type}

/-- The blocks hold the content. -/
def Collected (setup : Setup) (content : Bytes) (pieces : PieceManager) : Prop :=
  ∀ pieceIndex active k block, pieces.BlockAt pieceIndex active k block →
    block.state = .downloaded → block.data =
      requestedBytes setup.torrent content ⟨pieceIndex, block.offset, block.length⟩

/-- The files and the blocks hold the content. -/
structure Agrees (setup : Setup) (content : Bytes) (pieces : PieceManager) (disk : Disk) : Prop where
  downloaded : Collected setup content pieces
  completed : ∀ pieceIndex, pieces.picker.isCompleted pieceIndex = true →
    setup.disk.heldRange disk (pieceIndex * setup.torrent.pieceWidth)
        (pieceSize setup.torrent pieceIndex) =
      ((content.drop (pieceIndex * setup.torrent.pieceWidth)).take
        (pieceSize setup.torrent pieceIndex)).map some

section
variable {setup : Setup} {content : Bytes} {session : Session ι}
  (measures : Measures setup content) (regular : Regular setup session.pieces)

include measures

theorem pieceEnd_le {pieceIndex : Nat} (bound : pieceIndex < setup.torrent.pieces.length) :
    pieceIndex * setup.torrent.pieceWidth + pieceSize setup.torrent pieceIndex ≤ content.length := by
  have start := measures.start_lt bound
  have size := measures.size
  rw [measures.divided.pieceSize_eq bound]
  omega

/-- A block lies within the content. -/
theorem blockEnd_le {pieceIndex k : Nat} {active : ActivePiece} {block : Block}
    (regular : Regular setup session.pieces)
    (at_ : session.pieces.BlockAt pieceIndex active k block) :
    0 < block.length ∧ pieceIndex * setup.torrent.pieceWidth + block.offset + block.length ≤
      content.length := by
  have bound := regular.sound.index_lt (regular.sound.bound at_.mem)
  have wellFormed := regular.sound.wellFormed at_.found
  rw [regular.torrent] at bound wellFormed
  obtain ⟨inside, -, offset, length⟩ := wellFormed.block at_.at_
  have whole := pieceEnd_le measures bound
  have within := (size_of_blockCount inside (pieceSize_lt ..)).2.1
  rw [offset, length]
  unfold blockSize at *
  omega

theorem length_requestedBytes {pieceIndex k : Nat} {active : ActivePiece} {block : Block}
    (regular : Regular setup session.pieces)
    (at_ : session.pieces.BlockAt pieceIndex active k block) :
    (requestedBytes setup.torrent content ⟨pieceIndex, block.offset, block.length⟩).length =
      block.length := by
  have inside := (blockEnd_le measures regular at_).2
  rw [requestedBytes, List.length_take, List.length_drop]
  exact Nat.min_eq_left (by dsimp only; omega)

omit measures in
/-- What is held is the content. -/
theorem byteAt_of_agrees {position : Nat} (holding : Holding setup session.pieces session.disk)
    (agrees : Agrees setup content session.pieces session.disk)
    (held : Held setup.torrent session.pieces position) :
    setup.disk.byteAt session.disk position = content[position]? := by
  cases held with
  | @piece pieceIndex completed inside =>
    obtain ⟨j, rfl⟩ := Nat.exists_eq_add_of_le inside.lower
    have bound := Nat.lt_of_add_lt_add_left inside.upper
    have here := congrArg (fun range => range[j]?) (agrees.completed pieceIndex completed)
    simp only [heldRange, List.getElem?_map, List.getElem?_range bound, Option.map_some,
      List.getElem?_take_of_lt bound, List.getElem?_drop] at here
    obtain ⟨byte, value, same⟩ := Option.map_eq_some_iff.mp here.symm
    rw [value, ← same]
  | @block pieceIndex k active block at_ downloaded inside =>
    obtain ⟨j, rfl⟩ := Nat.exists_eq_add_of_le inside.lower
    have bound : j < block.length := Nat.lt_of_add_lt_add_left inside.upper
    have filled := holding.downloaded _ _ _ _ at_ downloaded
    have within : j < block.data.length := by rwa [filled.whole]
    have value := List.getElem?_eq_getElem within
    have data := agrees.downloaded _ _ _ _ at_ downloaded
    rw [filled.stored j _ value, ← value, data, getElem?_requestedBytes bound]

end

/-! ## An answer arrives -/

section
variable {setup : Setup} {content : Bytes} {session : Session ι} {request : BlockRequest}
  {active : ActivePiece} {k : Nat} {block : Block} (describes : Describes setup content)
  (measures : Measures setup content) (regular : Regular setup session.pieces)
  (at_ : session.pieces.BlockAt request.piece active k block) (waits : block.state ≠ .downloaded)
  (same : request = ⟨request.piece, block.offset, block.length⟩)
include at_ waits same

theorem takes_of_request : session.pieces.Takes request.piece request.offset active k block :=
  ⟨at_, by rw [same], waits⟩

include describes regular

/-- The answer to a request can do no harm. -/
theorem careful_of_request (holding : Holding setup session.pieces session.disk)
    (agrees : Agrees setup content session.pieces session.disk) :
    Careful setup session request.piece request.offset
      (requestedBytes setup.torrent content request) where
  whole taken j other takes := by
    obtain ⟨rfl, rfl, rfl⟩ := (takes_of_request at_ waits same).unique regular.sound takes
    rw [same]
    exact length_requestedBytes describes.toMeasures regular at_
  keeps j byte value held := by
    have bound := (List.getElem?_eq_some_iff.mp value).1
    have short := Nat.lt_of_lt_of_le bound (List.length_take_le ..)
    have inTorrent := regular.sound.index_lt (regular.sound.bound at_.mem)
    rw [regular.torrent] at inTorrent
    have fits : request.offset < 2 ^ 32 := by
      rw [same]
      exact (at_.fits regular.sound).2.1
    have start : setup.disk.globalOffset request.piece request.offset =
        request.piece * setup.torrent.pieceWidth + request.offset :=
      globalOffset_eq describes.addressable inTorrent fits
    rw [byteAt_of_agrees holding agrees held, start, ← getElem?_requestedBytes short, value]

omit describes
include measures

/-- With its last block a piece is the piece of the content. -/
theorem completedPiece_content (collected : Collected setup content session.pieces)
    (last : active.blocksDownloaded + 1 = active.totalBlocks) :
    completedPiece (filled active k (requestedBytes setup.torrent content request)) =
      (content.drop (request.piece * setup.torrent.pieceWidth)).take
        (pieceSize setup.torrent request.piece) := by
  have wellFormed := regular.sound.wellFormed at_.found
  have bound := regular.sound.index_lt (regular.sound.bound at_.mem)
  -- Each block holds what was asked for, this one and those that came before.
  have data : ∀ {j other}, (filled active k (requestedBytes setup.torrent content request))[j]? =
      some other → ∃ origin, session.pieces.BlockAt request.piece active j origin ∧
        origin.offset = other.offset ∧ origin.length = other.length ∧
        other.data = requestedBytes setup.torrent content
          ⟨request.piece, other.offset, other.length⟩ := by
    intro j other found
    have downloaded := downloaded_of_last wellFormed at_.at_ waits _ last (List.mem_of_getElem? found)
    rcases getElem?_modify_cases found with ⟨rfl, origin, here, rfl⟩ | ⟨-, here⟩
    · cases here.symm.trans at_.at_
      refine ⟨block, at_, rfl, rfl, ?_⟩
      exact congrArg (requestedBytes setup.torrent content) same
    · have old : session.pieces.BlockAt request.piece active j other := ⟨at_.found, here⟩
      exact ⟨other, old, rfl, rfl, collected _ _ _ _ old downloaded⟩
  rw [regular.torrent] at wellFormed bound
  have tiled := completedPiece_eq
    (f := fun j => content[request.piece * setup.torrent.pieceWidth + j]?)
    (shapes_filled (k := k) wellFormed (requestedBytes setup.torrent content request)) ?_ ?_ ?_
  · rw [← map_some_slice (pieceEnd_le measures bound)] at tiled
    exact List.map_injective_iff.mpr (fun _ _ => Option.some.inj) tiled
  · -- There is at least the block that was requested.
    have length : (filled active k (requestedBytes setup.torrent content request)).length =
        active.blocks.length := List.length_modify ..
    have inside := (List.getElem?_eq_some_iff.mp at_.at_).1
    exact List.ne_nil_of_length_pos (by omega)
  · intro other member
    obtain ⟨j, found⟩ := List.mem_iff_getElem?.mp member
    obtain ⟨origin, old, offset, length, value⟩ := data found
    rw [value, ← offset, ← length]
    exact length_requestedBytes measures regular old
  · intro other member j byte found
    obtain ⟨l, here⟩ := List.mem_iff_getElem?.mp member
    obtain ⟨origin, old, offset, length, value⟩ := data here
    rw [value] at found
    have short := Nat.lt_of_lt_of_le (List.getElem?_eq_some_iff.mp found).1
      (List.length_take_le ..)
    rwa [getElem?_requestedBytes short, Nat.add_assoc] at found

/-- So it has its hash. -/
theorem verified_content (collected : Collected setup content session.pieces)
    (last : active.blocksDownloaded + 1 = active.totalBlocks) :
    session.pieces.torrent.pieces[request.piece]? = some (setup.sha1 (completedPiece
      (filled active k (requestedBytes setup.torrent content request)))) := by
  have bound := regular.sound.index_lt (regular.sound.bound at_.mem)
  rw [completedPiece_content measures regular at_ waits same collected last]
  rw [regular.torrent] at bound ⊢
  have size := measures.size
  have whole : (content.drop (request.piece * setup.torrent.pieceWidth)).take
      setup.torrent.pieceWidth = (content.drop (request.piece * setup.torrent.pieceWidth)).take
        (pieceSize setup.torrent request.piece) := by
    rw [List.take_eq_take_iff, measures.divided.pieceSize_eq bound, List.length_drop]
    omega
  rw [← whole]
  exact measures.hashes _ bound

omit measures in
theorem Collected.processes {next : PieceManager} {done : Bool}
    (collected : Collected setup content session.pieces)
    (processes : session.pieces.Processes setup.sha1 request.piece request.offset
      (requestedBytes setup.torrent content request) next done) : Collected setup content next := by
  intro other taken j found here downloaded
  rcases processes.blockAt regular.sound here with
    ⟨active', old, -⟩ | ⟨rfl, active', origin, takes, -, rfl⟩ | ⟨-, missing⟩
  · exact collected _ _ _ _ old downloaded
  · obtain ⟨rfl, rfl, rfl⟩ := (takes_of_request at_ waits same).unique regular.sound takes
    exact congrArg (requestedBytes setup.torrent content) same
  · rw [missing] at downloaded
    cases downloaded

omit measures
include describes

theorem Agrees.processes {next : PieceManager} {done : Bool} {results : List SliceResult}
    (holding : Holding setup session.pieces session.disk)
    (agrees : Agrees setup content session.pieces session.disk) (succeed : Succeed results)
    (processes : session.pieces.Processes setup.sha1 request.piece request.offset
      (requestedBytes setup.torrent content request) next done) :
    Agrees setup content next (setup.disk.writeBlock session.disk request.piece request.offset
      (requestedBytes setup.torrent content request) results) where
  downloaded := agrees.downloaded.processes regular at_ waits same processes
  completed other completed := by
    -- A piece completed before keeps its range; the one completed now is all written.
    have careful := careful_of_request describes regular at_ waits same holding agrees
    rcases processes.isCompleted regular.sound completed with
      old | ⟨rfl, active', j, origin, takes, last, -⟩
    · exact heldRange_kept describes.addressable holding succeed careful old
        (agrees.completed other old)
    · obtain ⟨rfl, rfl, rfl⟩ := (takes_of_request at_ waits same).unique regular.sound takes
      rw [heldRange_of_last describes.addressable regular holding succeed careful takes last,
        completedPiece_content describes.toMeasures regular at_ waits same agrees.downloaded last]

end

/-! ## Steps and runs -/

theorem Collected.requests {setup : Setup} {content : Bytes} {pieces next : PieceManager}
    (collected : Collected setup content pieces) (requests : pieces.Requests next) :
    Collected setup content next := by
  intro pieceIndex active k block at_ downloaded
  obtain ⟨active', old⟩ := requests.downloaded at_ downloaded
  exact collected pieceIndex active' k block old downloaded

theorem Agrees.requests {setup : Setup} {content : Bytes} {pieces next : PieceManager} {disk : Disk}
    (agrees : Agrees setup content pieces disk) (requests : pieces.Requests next) :
    Agrees setup content next disk where
  downloaded := agrees.downloaded.requests requests
  completed pieceIndex completed := by
    rw [requests.picker] at completed
    exact agrees.completed pieceIndex completed

variable [DecidableEq ι]

/-- What holds while a block is handled. -/
structure Ongoing (setup : Setup) (content : Bytes) (session : Session ι) : Prop where
  regular : Regular setup session.pieces
  ledger : Ledger setup content session
  introduced : Introduced setup session
  collected : Collected setup content session.pieces

/-- What holds between two messages. -/
structure Downloading (setup : Setup) (content : Bytes) (session : Session ι) : Prop
    extends Ongoing setup content session where
  working : ∀ connection, (session.peer connection).peerChoking = false →
    Working setup content session

theorem Ongoing.requestNextBlocks {setup : Setup} {content : Bytes} {session : Session ι}
    {connection : ι} {order : IterationOrder} (ongoing : Ongoing setup content session)
    (measures : Measures setup content)
    (connected : (session.connections connection).state = .connected)
    (unchoked : (session.peer connection).peerChoking = false) :
    Downloading setup content (requestNextBlocks order session connection) := by
  have ready : Ready setup content connection session :=
    ⟨ongoing.regular, ongoing.ledger, connected, unchoked⟩
  have requests : session.pieces.Requests
      (Session.requestNextBlocks order session connection).pieces :=
    requests_requestNextBlocks rfl
  refine ⟨⟨ready.requestNextBlocks.regular, ready.requestNextBlocks.ledger,
    ongoing.introduced.requestNextBlocks, ongoing.collected.requests requests⟩, fun _ _ => ?_⟩
  exact working_requestNextBlocks measures ready (ongoing.introduced.full connection unchoked)

theorem Working.congr {setup : Setup} {content : Bytes} {session next : Session ι}
    (working : Working setup content session)
    (asks : ∀ connection request,
      asked next.wire connection request = asked session.wire connection request)
    (answers : ∀ connection request, answered setup content next.wire connection request =
      answered setup content session.wire connection request)
    (pieces : next.pieces = session.pieces) : Working setup content next := by
  rcases working with ⟨connection, request, fits, owes⟩ | drained
  · refine .inl ⟨connection, request, fits, ?_⟩
    rw [Unanswered, asks, answers]
    exact owes
  · exact .inr (pieces ▸ drained)

section
variable {setup : Setup} {content : Bytes} {session : Session ι} {connection : ι}

theorem Downloading.handshake (downloading : Downloading setup content session) :
    Downloading setup content (session.setState connection .connected) where
  regular := downloading.regular
  ledger := downloading.ledger.congr (fun _ _ => rfl) (fun _ _ => rfl) rfl
    fun other free => (peer_setState session connection .connected other).symm ▸ free
  introduced := downloading.introduced.mono (fun _ _ _ => id) fun other => peer_setState ..
  collected := downloading.collected
  working other free := by
    rw [peer_setState] at free
    exact downloading.working other free

section
variable {msg : PeerMessage} (id : msg.id ≠ .piece)
include id

theorem answered_record (other : ι) (request : BlockRequest) :
    answered setup content (session.record connection msg).wire other request =
      answered setup content session.wire other request := by
  refine (answered_cons_received ..).trans ?_
  rw [if_neg, Nat.add_zero]
  rintro ⟨-, rfl⟩
  exact id rfl

/-- A message that is no answer leaves the requests as they are. -/
theorem Ongoing.told {known : Peer} (ongoing : Ongoing setup content session)
    (introduced : Introduced setup ((session.record connection msg).setPeer connection known))
    (choking : (session.peer connection).peerChoking = false → known.peerChoking = false) :
    Ongoing setup content ((session.record connection msg).setPeer connection known) where
  regular := ongoing.regular
  ledger := by
    refine ongoing.ledger.congr (fun other request => asked_cons_received ..)
      (fun other request => answered_record id other request) rfl fun other free => ?_
    rw [peer_setPeer]
    split
    · rename_i same
      subst same
      exact choking free
    · exact free
  introduced := introduced
  collected := ongoing.collected

theorem Downloading.told {known : Peer} (downloading : Downloading setup content session)
    (introduced : Introduced setup ((session.record connection msg).setPeer connection known))
    (choking : known.peerChoking = (session.peer connection).peerChoking) :
    Downloading setup content ((session.record connection msg).setPeer connection known) where
  toOngoing := downloading.toOngoing.told id introduced fun free => choking.trans free
  working other free := by
    have before : (session.peer other).peerChoking = false := by
      rw [peer_setPeer] at free
      split at free
      · rename_i same
        rw [same, ← choking, free]
      · exact free
    exact (downloading.working other before).congr (fun _ _ => asked_cons_received ..)
      (fun other request => answered_record id other request) rfl

end

theorem asked_queueInterested (other : ι) (request : BlockRequest) :
    asked (session.queueMessage connection interested).wire other request =
      asked session.wire other request := by
  rw [wire_queueMessage]
  split
  · rw [asked_cons_queued, if_neg, Nat.add_zero]
    rintro ⟨-, same⟩
    cases same
  · rfl

theorem answered_queueMessage (msg : PeerMessage) (other : ι) (request : BlockRequest) :
    answered setup content (session.queueMessage connection msg).wire other request =
      answered setup content session.wire other request := by
  rw [wire_queueMessage]
  split
  · exact answered_cons_queued ..
  · rfl

theorem Downloading.queueInterested (downloading : Downloading setup content session) :
    Downloading setup content (session.queueMessage connection interested) where
  regular := by
    rw [pieces_queueMessage]
    exact downloading.regular
  ledger := downloading.ledger.congr asked_queueInterested (answered_queueMessage _)
    (pieces_queueMessage ..)
    fun other free => (congrArg Peer.peerChoking (peer_queueMessage ..)).trans free
  introduced := downloading.introduced.mono (fun _ _ _ => received_queueMessage) fun other =>
    peer_queueMessage ..
  collected := by
    rw [pieces_queueMessage]
    exact downloading.collected
  working other free := by
    rw [peer_queueMessage] at free
    exact (downloading.working other free).congr asked_queueInterested (answered_queueMessage _)
      (pieces_queueMessage ..)

theorem Introduced.bitfield {bitfield : Bytes} {known : Peer}
    (introduced : Introduced setup session) (full : Full setup.torrent { bitfield := bitfield })
    (notes : Notes (session.peer connection) ⟨.bitfield, bitfield⟩ known) :
    Introduced setup
      ((session.record connection ⟨.bitfield, bitfield⟩).setPeer connection known) := by
  have fullKnown : Full setup.torrent known := full.congr notes.bitfield
  have choking : known.peerChoking = (session.peer connection).peerChoking :=
    notes.choking.trans (Bool.or_false _)
  refine ⟨fun other bits member => ?_, fun other member => ?_, fun other free => ?_⟩
  · rw [peer_setPeer]
    split
    · exact fullKnown
    · rename_i different
      rcases List.mem_cons.mp member with same | before
      · cases same
        exact absurd rfl different
      · exact introduced.announced other bits before
  · rw [peer_setPeer]
    rcases List.mem_cons.mp member with same | before
    · cases same
    · split
      · -- A bitfield does not change who is choked.
        rename_i same
        subst same
        exact choking.trans (introduced.heard other before)
      · exact introduced.heard other before
  · rw [peer_setPeer] at free ⊢
    split
    · exact fullKnown
    · rename_i different
      rw [if_neg different] at free
      exact introduced.full other free

theorem Introduced.unchoke {bitfield : Bytes} (introduced : Introduced setup session)
    (announced : .received connection ⟨.bitfield, bitfield⟩ ∈ session.wire) :
    Introduced setup ((session.record connection ⟨.unchoke, []⟩).setPeer connection
      { session.peer connection with peerChoking := false }) := by
  have full := introduced.announced connection bitfield announced
  refine ⟨fun other bits member => ?_, fun other member => ?_, fun other free => ?_⟩
  · rw [peer_setPeer]
    rcases List.mem_cons.mp member with same | before
    · cases same
    · split
      · exact full.congr rfl
      · exact introduced.announced other bits before
  · rw [peer_setPeer]
    split
    · rfl
    · rename_i different
      rcases List.mem_cons.mp member with same | before
      · cases same
        exact absurd rfl different
      · exact introduced.heard other before
  · rw [peer_setPeer] at free ⊢
    split
    · exact full.congr rfl
    · rename_i different
      rw [if_neg different] at free
      exact introduced.full other free

/-- The answer to a request is one block, of the piece and at the offset that it asks for. -/
theorem delivers_answer {request : BlockRequest} (measures : Measures setup content)
    (ongoing : Ongoing setup content session) (fits : request.Fits)
    (owes : Unanswered setup content session.wire connection request) :
    Delivers (answer setup.torrent content request) request.piece request.offset
      (requestedBytes setup.torrent content request) := by
  obtain ⟨active, k, block, at_, -, same⟩ := ongoing.ledger.marked connection request fits owes
  have read := readU32At_payload (requestedBytes setup.torrent content request) fits.1 fits.2.1
  have length := length_requestedBytes measures ongoing.regular at_
  rw [← same] at length
  -- A block is not empty, so the payload is more than its two numbers.
  have positive := (blockEnd_le measures ongoing.regular at_).1
  refine ⟨rfl, ?_, read.1, read.2, rfl⟩
  simp only [answer, List.length_append, length_writeU32, length]
  omega

/-- An answer is taken, whatever becomes of it on disk. -/
theorem Ongoing.answer {request : BlockRequest} {pieces : PieceManager} {done : Bool}
    (ongoing : Ongoing setup content session) (measures : Measures setup content)
    (fits : request.Fits) (owes : Unanswered setup content session.wire connection request)
    (processes : session.pieces.Processes setup.sha1 request.piece request.offset
      (requestedBytes setup.torrent content request) pieces done) (disk : Disk) :
    Ongoing setup content
      { session.record connection (answer setup.torrent content request) with disk, pieces } := by
  have regular := ongoing.regular
  obtain ⟨active, k, block, at_, requested, same⟩ :=
    ongoing.ledger.marked connection request fits owes
  have waits : block.state ≠ .downloaded := by
    rw [requested]
    nofun
  constructor
  case regular => exact regular.processes processes
  case ledger =>
    refine ongoing.ledger.delivered rfl regular fits owes processes ?_ fun _ => rfl
    intro taken j other takes last
    obtain ⟨rfl, rfl, rfl⟩ := (takes_of_request at_ waits same).unique regular.sound takes
    exact verified_content measures regular at_ waits same ongoing.collected last
  case introduced =>
    refine ongoing.introduced.mono (fun other msg id member => ?_) fun _ => rfl
    rcases List.mem_cons.mp member with equal | before
    · cases equal
      exact absurd rfl id
    · exact before
  case collected => exact ongoing.collected.processes regular at_ waits same processes

end

theorem Downloading.step {setup : Setup} {content : Bytes} {session next : Session ι}
    {event : Event ι} (downloading : Downloading setup content session)
    (measures : Measures setup content) (honest : Honest setup content session event)
    (taken : step setup session event = some next) : Downloading setup content next := by
  cases honest with
  | handshake =>
    cases steps_of_step taken with
    | handshake => exact downloading.handshake
  | @bitfield connection bitfield order results full =>
    cases steps_of_step taken with
    | message connected handles =>
      cases handles with
      | @noted known quiet notes =>
        exact downloading.told (by nofun) (downloading.introduced.bitfield full notes)
          (notes.choking.trans (Bool.or_false _))
      | @greeted known quiet notes =>
        exact (downloading.told (by nofun) (downloading.introduced.bitfield full notes)
          (notes.choking.trans (Bool.or_false _))).queueInterested
      | unchoked id => exact nomatch id
      | delivered delivers => exact nomatch delivers.id
  | @unchoke connection bitfield order results full announced =>
    cases steps_of_step taken with
    | message connected handles =>
      cases handles with
      | noted quiet => exact absurd (.inl rfl) quiet
      | greeted quiet => exact absurd (.inl rfl) quiet
      | unchoked =>
        refine Ongoing.requestNextBlocks ?_ measures ?_ ?_
        · exact downloading.toOngoing.told (by nofun) (downloading.introduced.unchoke announced)
            fun _ => rfl
        · exact (state_setPeer ..).trans connected
        · rw [peer_setPeer, if_pos rfl]
      | delivered delivers => exact nomatch delivers.id
  | @answer connection request order results fits owes =>
    -- The message is a block, of the request and no other.
    have whole := delivers_answer measures downloading.toOngoing fits owes
    cases steps_of_step taken with
    | message connected handles =>
      cases handles with
      | noted quiet => exact absurd (.inr ⟨whole.id, whole.long⟩) quiet
      | greeted quiet => exact absurd (.inr ⟨whole.id, whole.long⟩) quiet
      | unchoked id => exact nomatch id
      | delivered delivers processes =>
        have carries := @Carries.message _ connection _ order results _ _ _ whole
        obtain ⟨rfl, rfl, rfl, -⟩ := carries.unique (.message delivers)
        refine Ongoing.requestNextBlocks ?_ measures connected ?_
        · exact downloading.toOngoing.answer measures fits owes processes _
        · exact downloading.ledger.unchoked connection request fits owes

section
variable {setup : Setup} {content : Bytes} {start : Session ι} (initial : Initial setup start)
include initial

theorem Initial.unrequested {connection : ι} {request : BlockRequest} :
    ¬ Unanswered setup content start.wire connection request := by
  intro owes
  rw [initial.silent] at owes
  exact Nat.not_lt_zero _ owes

theorem Initial.ledger : Ledger setup content start where
  balanced connection request _ _ := by
    rw [initial.silent]
    exact Nat.le_refl 0
  single connection request _ := by
    rw [initial.silent]
    exact Nat.zero_le _
  owner connection other request _ owes := absurd owes initial.unrequested
  marked connection request _ owes := absurd owes initial.unrequested
  owed pieceIndex active k block at_ := absurd at_ initial.inactive
  unchoked connection request _ owes := absurd owes initial.unrequested

omit [DecidableEq ι] in
theorem Initial.choked (connection : ι) : (start.peer connection).peerChoking ≠ false := by
  rw [initial.fresh]
  nofun

omit [DecidableEq ι] in
theorem Initial.introduced : Introduced setup start where
  announced connection bitfield member := by
    rw [initial.silent] at member
    cases member
  heard connection member := by
    rw [initial.silent] at member
    cases member
  full connection unchoked := absurd unchoked (initial.choked connection)

omit [DecidableEq ι] in
theorem Initial.agrees : Agrees setup content start.pieces start.disk where
  downloaded _ _ _ _ at_ := absurd at_ initial.inactive
  completed pieceIndex completed := absurd completed (initial.incomplete pieceIndex)

theorem Initial.downloading : Downloading setup content start where
  regular := initial.regular
  ledger := initial.ledger
  introduced := initial.introduced
  collected := initial.agrees.downloaded
  working connection unchoked := absurd unchoked (initial.choked connection)

end

/-- While no request is unanswered every piece is completed, once a seeder has unchoked. -/
theorem Downloading.completes {setup : Setup} {content : Bytes} {session : Session ι}
    {connection : ι} (downloading : Downloading setup content session)
    (measures : Measures setup content)
    (unchoked : (session.peer connection).peerChoking = false) :
    (∃ other request, BlockRequest.Fits request ∧
        Unanswered setup content session.wire other request) ∨
      ∀ pieceIndex < setup.torrent.pieces.length,
        session.pieces.picker.isCompleted pieceIndex = true := by
  by_cases unanswered : ∃ other request, BlockRequest.Fits request ∧
      Unanswered setup content session.wire other request
  · exact .inl unanswered
  · right
    have drained := (downloading.working connection unchoked).resolve_left unanswered
    intro pieceIndex bound
    apply completed_of_drained measures downloading.regular drained ?_ bound
    -- A requested block is owed by some connection.
    intro other active k block at_ requested
    obtain ⟨owner, owes⟩ := downloading.ledger.owed other active k block at_ requested
    exact unanswered ⟨owner, _, at_.fits downloading.regular.sound, owes⟩

/-! ## On disk -/

/-- The blocks that an honest event carries are careful. -/
theorem Downloading.careful {setup : Setup} {content : Bytes} {session : Session ι} {event : Event ι}
    (downloading : Downloading setup content session) (describes : Describes setup content)
    (holding : Holding setup session.pieces session.disk)
    (agrees : Agrees setup content session.pieces session.disk)
    (honest : Honest setup content session event) {pieceIndex blockOffset : Nat} {data : Bytes}
    {results : List SliceResult} (carries : Carries event pieceIndex blockOffset data results) :
    ∃ request active k block, session.pieces.BlockAt pieceIndex active k block ∧
      block.state ≠ .downloaded ∧ request = ⟨pieceIndex, block.offset, block.length⟩ ∧
      blockOffset = block.offset ∧ data = requestedBytes setup.torrent content request ∧
      Careful setup session pieceIndex blockOffset data := by
  cases honest with
  | handshake => exact nomatch carries
  | bitfield => exact nomatch carries.id
  | unchoke => exact nomatch carries.id
  | @answer connection request order results fits owes =>
    have whole := delivers_answer describes.toMeasures downloading.toOngoing fits owes
    obtain ⟨delivers⟩ := carries
    obtain rfl := delivers.piece.symm.trans whole.piece
    obtain rfl := delivers.offset.symm.trans whole.offset
    obtain rfl := delivers.data.symm.trans whole.data
    obtain ⟨active, k, block, at_, requested, same⟩ :=
      downloading.ledger.marked connection request fits owes
    have waits : block.state ≠ .downloaded := by
      rw [requested]
      nofun
    exact ⟨request, active, k, block, at_, waits, same, by rw [same], rfl,
      careful_of_request describes downloading.regular at_ waits same holding agrees⟩

/-- What is on disk meanwhile. -/
structure Kept (setup : Setup) (content : Bytes) (session : Session ι) : Prop where
  holding : Holding setup session.pieces session.disk
  agrees : Agrees setup content session.pieces session.disk
  bounded : setup.disk.Bounded session.disk.stored

theorem Kept.step {setup : Setup} {content : Bytes} {session next : Session ι} {event : Event ι}
    (kept : Kept setup content session) (downloading : Downloading setup content session)
    (describes : Describes setup content) (honest : Honest setup content session event)
    (unfailing : Unfailing event) (taken : step setup session event = some next) :
    Kept setup content next where
  holding := by
    refine kept.holding.step describes.addressable downloading.regular unfailing ?_ taken
    intro pieceIndex blockOffset data results carries
    obtain ⟨-, -, -, -, -, -, -, -, -, careful⟩ :=
      downloading.careful describes kept.holding kept.agrees honest carries
    exact careful
  agrees := by
    cases moves_of_step taken with
    | quiet _ files requests =>
      rw [files]
      exact kept.agrees.requests requests
    | stored carries processes files requests =>
      obtain ⟨request, active, k, block, at_, waits, same, rfl, rfl, -⟩ :=
        downloading.careful describes kept.holding kept.agrees honest carries
      subst same
      rw [files]
      exact (@Agrees.processes _ setup content session ⟨_, block.offset, block.length⟩ active k block
        describes downloading.regular at_ waits rfl _ _ _ kept.holding kept.agrees
        (unfailing _ _ _ _ carries) processes).requests requests
  bounded := by
    cases moves_of_step taken with
    | quiet _ files =>
      rw [files]
      exact kept.bounded
    | stored carries _ files =>
      rw [files]
      exact bounded_writeBlock (distinct_places describes.addressable.toConsistent) kept.bounded
        kept.holding.tidy

omit [DecidableEq ι] in
/-- With every piece completed, each position of the torrent has its byte on disk. -/
theorem byteAt_of_completed {setup : Setup} {content : Bytes} {session : Session ι}
    (describes : Describes setup content) (holding : Holding setup session.pieces session.disk)
    (agrees : Agrees setup content session.pieces session.disk)
    (completed : ∀ pieceIndex < setup.torrent.pieces.length,
      session.pieces.picker.isCompleted pieceIndex = true) {position : Nat} {cell : Bytes × Nat}
    (here : locate setup.disk.fileMap.files position = some cell) :
    ∃ pieceIndex byte, session.pieces.picker.isCompleted pieceIndex = true ∧
      InPiece setup.torrent pieceIndex position ∧
      setup.disk.byteAt session.disk position = some byte ∧ content[position]? = some byte := by
  have addressable := describes.addressable
  have size := describes.size
  have small : position < setup.torrent.size :=
    (addressable.toConsistent.covers.located position).mp (Option.ne_none_iff_exists'.mpr ⟨cell, here⟩)
  have width := pieceWidth_pos addressable.toConsistent
  have start := Nat.div_mul_le_self position setup.torrent.pieceWidth
  have stop := Nat.lt_div_mul_add (a := position) width
  -- The position belongs to the piece of that number.
  have bound : position / setup.torrent.pieceWidth < setup.torrent.pieces.length := by
    have reach := size_le_pieces addressable.toConsistent
    exact Nat.div_lt_of_lt_mul (by rw [Nat.mul_comm]; omega)
  have inside : InPiece setup.torrent (position / setup.torrent.pieceWidth) position := by
    refine ⟨start, ?_⟩
    rw [pieceSize_eq addressable bound]
    omega
  have value : content[position]? = some content[position] := List.getElem?_eq_getElem (by omega)
  refine ⟨_, content[position], completed _ bound, inside, ?_, value⟩
  rw [byteAt_of_agrees holding agrees (.piece (completed _ bound) inside), value]

/-! ## In the files -/

/-- What completes the last piece leaves nothing of the torrent in a put area. -/
def FlushingLast (setup : Setup) (session : Session ι) (event : Event ι) : Prop :=
  ∀ pieceIndex blockOffset data results active k block,
    Carries event pieceIndex blockOffset data results →
    session.pieces.Takes pieceIndex blockOffset active k block →
    active.blocksDownloaded + 1 = active.totalBlocks →
    setup.torrent.pieces[pieceIndex]? = some (setup.sha1 (completedPiece (filled active k data))) →
    (∀ other < setup.torrent.pieces.length, other ≠ pieceIndex →
      session.pieces.picker.isCompleted other = true) →
    Drains setup session.disk (fun _ => True) pieceIndex blockOffset data results

/-- With every piece completed, the whole torrent is in the files. -/
def SecuredAll (setup : Setup) (pieces : PieceManager) (disk : Disk) : Prop :=
  (∀ pieceIndex < setup.torrent.pieces.length, pieces.picker.isCompleted pieceIndex = true) →
    ∀ position cell, locate setup.disk.fileMap.files position = some cell →
      setup.disk.Settled disk position

theorem SecuredAll.step {setup : Setup} {content : Bytes} {session next : Session ι} {event : Event ι}
    (secured : SecuredAll setup session.pieces session.disk) (kept : Kept setup content session)
    (downloading : Downloading setup content session) (describes : Describes setup content)
    (honest : Honest setup content session event) (unfailing : Unfailing event)
    (flushing : FlushingLast setup session event) (taken : step setup session event = some next) :
    SecuredAll setup next.pieces next.disk := by
  have after_ := kept.step downloading describes honest unfailing taken
  have regular := downloading.regular
  cases moves_of_step taken with
  | quiet _ files requests =>
    unfold SecuredAll
    rw [requests.picker, files]
    exact secured
  | stored carries processes files requests =>
    intro completed position cell here
    obtain ⟨_, _, _, _, held, _⟩ :=
      byteAt_of_completed describes after_.holding after_.agrees completed here
    rw [requests.picker] at completed
    rw [files] at held ⊢
    have succeed := unfailing _ _ _ _ carries
    by_cases before : ∀ pieceIndex < setup.torrent.pieces.length,
        session.pieces.picker.isCompleted pieceIndex = true
    · obtain ⟨_, _, done, inside, -, -⟩ :=
        byteAt_of_completed describes kept.holding kept.agrees before here
      obtain ⟨-, -, -, -, -, -, -, -, -, careful⟩ :=
        downloading.careful describes kept.holding kept.agrees honest carries
      exact settled_of_held describes.addressable kept.holding succeed careful (.piece done inside)
        (secured before position cell here)
    · -- Just one piece has been completed now.
      simp only [not_forall] at before
      obtain ⟨last, bound, open_⟩ := before
      rcases processes.isCompleted regular.sound (completed last bound) with
        old | ⟨rfl, active, k, block, takes, all_, verified⟩
      · exact absurd old open_
      · rw [regular.torrent] at verified
        refine settled_of_drains (flushing _ _ _ _ _ _ _ carries takes all_ verified ?_) kept.holding
          succeed trivial held
        intro other small apart
        exact (processes.isCompleted regular.sound (completed other small)).resolve_right
          fun same => apart same.1

/-- With honest seeders, of whatever number and in whatever order they answer: once one has
unchoked, a request is unanswered or every piece is completed. And when every piece is completed,
the files are the content, if none has been longer from the start and what completes the last
piece leaves nothing in a put area. -/
theorem download_correct {setup : Setup} {content : Bytes} {start final : Session ι}
    {history : List (Machine.Transition (Session ι) (Event ι))}
    (describes : Describes setup content) (runs : Runs setup start history final)
    (honest : ∀ x ∈ history, Honest setup content x.before x.event)
    (bounded : setup.disk.Bounded start.disk.stored)
    (unfailing : ∀ x ∈ history, Unfailing x.event)
    (flushing : ∀ x ∈ history, FlushingLast setup x.before x.event) :
    (∀ connection, .received connection ⟨.unchoke, []⟩ ∈ final.wire →
      (∃ other request, BlockRequest.Fits request ∧
        Unanswered setup content final.wire other request) ∨
      ∀ pieceIndex < setup.torrent.pieces.length,
        final.pieces.picker.isCompleted pieceIndex = true) ∧
    ((∀ pieceIndex < setup.torrent.pieces.length,
        final.pieces.picker.isCompleted pieceIndex = true) →
      (setup.disk.fileMap.files.map fun file =>
        final.disk.stored (setup.disk.file file.path)).flatten = content) := by
  obtain ⟨downloading, kept, secured⟩ : Downloading setup content final ∧
      Kept setup content final ∧ SecuredAll setup final.pieces final.disk := by
    refine runs.2.invariant_of_guard (fun _ session => Downloading setup content session ∧
        Kept setup content session ∧ SecuredAll setup session.pieces session.disk)
      (fun session event => Honest setup content session event ∧ Unfailing event ∧
        FlushingLast setup session event) ?_ ?_
      fun x member => ⟨honest x member, unfailing x member, flushing x member⟩
    · refine ⟨runs.1.downloading, ⟨runs.1.holding, runs.1.agrees, bounded⟩, ?_⟩
      intro completed position cell here
      obtain ⟨_, _, done, -⟩ :=
        byteAt_of_completed describes runs.1.holding runs.1.agrees completed here
      exact absurd done (runs.1.incomplete _)
    · rintro history session event next - ⟨downloading, kept, secured⟩
        ⟨honest, unfailing, flushing⟩ taken
      exact ⟨downloading.step describes.toMeasures honest taken,
        kept.step downloading describes honest unfailing taken,
        secured.step kept downloading describes honest unfailing flushing taken⟩
  constructor
  · intro connection member
    exact downloading.completes describes.toMeasures (downloading.introduced.heard connection member)
  · intro completed
    refine flatten_bytes (fun path => final.disk.stored (setup.disk.file path))
      describes.addressable.toConsistent kept.bounded describes.size fun position cell here => ?_
    have here : locate setup.disk.fileMap.files position = some cell := here
    obtain ⟨_, byte, -, -, held, value⟩ :=
      byteAt_of_completed describes kept.holding kept.agrees completed here
    have stored := (secured completed position cell here).storedAt held
    rw [storedAt, here, Option.bind_some] at stored
    rw [value]
    exact stored

theorem flushingLast_of_empty {setup : Setup} {session : Session Bool}
    (empty : ∀ cell, session.disk.pending cell = none) (connection : Bool) (msg : PeerMessage) :
    FlushingLast setup session (receive connection msg) := by
  rintro pieceIndex blockOffset data results active k block ⟨delivers⟩ _ _ _ _
  exact ⟨nofun, fun _ cell _ _ _ => empty cell⟩

theorem describes_oneByte : Describes oneByte [1] where
  lengths := by decide
  distinct := by decide
  total := by decide
  positive := by decide
  pieceLength := by decide
  pieces := by decide
  few := by decide
  hashes := by decide

/-- One seeder of a torrent of one byte, up to its answer. -/
def seeding (results : List SliceResult) : List (Event Bool) :=
  unchoking ++ [.message true (answer oneByte.torrent [1] ⟨0, 0, 1⟩) inOrder results]

theorem honest_seeding {results : List SliceResult} {final : Session Bool}
    {history : List (Machine.Transition (Session Bool) (Event Bool))}
    (replayed : Machine.replay (step oneByte) [] (waiting oneByte) (seeding results) =
      some (history, final)) :
    ∀ x ∈ history, Honest oneByte [1] x.before x.event := by
  have full : Full oneByte.torrent { bitfield := [128] } := by decide
  obtain ⟨rfl, rfl⟩ := Prod.mk.inj (Option.some.inj (replayed.symm.trans rfl))
  refine List.forall_mem_cons.mpr ⟨?_, List.forall_mem_cons.mpr ⟨?_, List.forall_mem_cons.mpr
    ⟨?_, List.forall_mem_cons.mpr ⟨?_, List.forall_mem_nil _⟩⟩⟩⟩
  · refine .answer (by decide) ?_
    dsimp only
    decide +kernel
  · exact .unchoke full (.tail _ (.head _))
  · exact .bitfield full
  · exact .handshake

theorem download_correct_oneByte :
    ∃ history final, Runs oneByte (waiting oneByte) history final ∧
      (∀ connection, .received connection ⟨.unchoke, []⟩ ∈ final.wire →
        (∃ other request, BlockRequest.Fits request ∧
          Unanswered oneByte [1] final.wire other request) ∨
        ∀ pieceIndex < oneByte.torrent.pieces.length,
          final.pieces.picker.isCompleted pieceIndex = true) ∧
      ((∀ pieceIndex < oneByte.torrent.pieces.length,
          final.pieces.picker.isCompleted pieceIndex = true) →
        (oneByte.disk.fileMap.files.map fun file =>
          final.disk.stored (oneByte.disk.file file.path)).flatten = [1]) := by
  have replayed : Machine.replay (step oneByte) [] (waiting oneByte) (seeding []) = some (_, _) := rfl
  have runs := runs_of_replay oneByte _ replayed
  refine ⟨_, _, runs, download_correct describes_oneByte runs (honest_seeding replayed)
    (fun _ _ => Nat.zero_le _) ?_ ?_⟩
  · simp only [List.forall_mem_cons]
    exact ⟨unfailing_receive _ _, unfailing_receive _ _, unfailing_receive _ _, nofun,
      List.forall_mem_nil _⟩
  · simp only [List.forall_mem_cons]
    exact ⟨flushingLast_of_empty (fun _ => rfl) _ _, flushingLast_of_empty (fun _ => rfl) _ _,
      flushingLast_of_empty (fun _ => rfl) _ _, nofun, List.forall_mem_nil _⟩

/-- Where the stream keeps the byte in its put area, the piece is completed and the file empty. -/
theorem download_unflushed :
    Describes oneByte [1] ∧ ∃ history final, Runs oneByte (waiting oneByte) history final ∧
      (∀ x ∈ history, Honest oneByte [1] x.before x.event) ∧
      (∀ x ∈ history, Unfailing x.event) ∧
      (∀ path, (waiting oneByte).disk.stored path = []) ∧
      (∀ pieceIndex < oneByte.torrent.pieces.length,
        final.pieces.picker.isCompleted pieceIndex = true) ∧
      (oneByte.disk.fileMap.files.map fun file =>
        final.disk.stored (oneByte.disk.file file.path)).flatten = [] := by
  have replayed : Machine.replay (step oneByte) [] (waiting oneByte)
      (seeding [⟨.opened, none, none, 1⟩]) = some (_, _) := rfl
  refine ⟨describes_oneByte, _, _, runs_of_replay oneByte _ replayed, honest_seeding replayed, ?_,
    fun _ => rfl, by decide +kernel, by decide +kernel⟩
  refine List.forall_mem_cons.mpr ⟨?_, List.forall_mem_cons.mpr ⟨?_, List.forall_mem_cons.mpr
    ⟨?_, List.forall_mem_cons.mpr ⟨?_, List.forall_mem_nil _⟩⟩⟩⟩
  · rintro pieceIndex blockOffset data results ⟨delivers⟩ result member
    cases List.mem_singleton.mp member
    exact ⟨rfl, rfl, rfl⟩
  · exact unfailing_receive _ _
  · exact unfailing_receive _ _
  · exact nofun

end Session

end K0Torrent
