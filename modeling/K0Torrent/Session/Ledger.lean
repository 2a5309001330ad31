import K0Torrent.Piece.Geometry
import K0Torrent.Session.Storage

/-! The requests that seeders have not answered yet.

Requests and answers are counted. While every block that arrives answers a
request, exactly the requested blocks have a request that is unanswered, on one
connection each.
-/

set_option autoImplicit false

namespace K0Torrent

/-- The bytes of the content that a request asks for. -/
def requestedBytes (torrent : TorrentFile) (content : Bytes) (request : BlockRequest) : Bytes :=
  (content.drop (request.piece * torrent.pieceWidth + request.offset)).take request.length

/-- The message that answers a request. -/
def answer (torrent : TorrentFile) (content : Bytes) (request : BlockRequest) : PeerMessage :=
  ⟨.piece, writeU32 request.piece ++
    (writeU32 request.offset ++ requestedBytes torrent content request)⟩

/-- The request is for a block of the torrent. -/
structure Genuine (torrent : TorrentFile) (request : BlockRequest) : Prop where
  block : ∃ k < PieceManager.blockCount (PieceManager.pieceSize torrent request.piece),
    request.offset = k * blockSize ∧ request.length =
      min blockSize (PieceManager.pieceSize torrent request.piece - k * blockSize)

theorem Genuine.eq {torrent : TorrentFile} {request other : BlockRequest}
    (genuine : Genuine torrent request) (genuine' : Genuine torrent other)
    (piece : request.piece = other.piece) (offset : request.offset = other.offset) :
    request = other := by
  obtain ⟨k, -, start, length⟩ := genuine.block
  obtain ⟨j, -, start', length'⟩ := genuine'.block
  have same : k = j := by
    unfold blockSize at start start'
    omega
  subst same
  cases request
  cases other
  simp only at piece offset start length length'
  subst piece offset
  rw [length, length']

theorem readU32At_payload {piece offset : Nat} (rest : Bytes) (pieceFits : piece < 2 ^ 32)
    (offsetFits : offset < 2 ^ 32) :
    readU32At (writeU32 piece ++ (writeU32 offset ++ rest)) 0 = piece ∧
      readU32At (writeU32 piece ++ (writeU32 offset ++ rest)) 4 = offset :=
  ⟨readU32At_append_writeU32 [] _ piece pieceFits,
    readU32At_append_writeU32 (writeU32 piece) rest offset offsetFits⟩

/-- The three numbers in the payload of a `Request`. -/
def decodeRequest (msg : PeerMessage) : BlockRequest :=
  ⟨readU32At msg.payload 0, readU32At msg.payload 4, readU32At msg.payload 8⟩

theorem decodeRequest_message {request : BlockRequest} (fits : request.Fits) :
    decodeRequest request.message = request := by
  obtain ⟨pieceFits, offsetFits, lengthFits⟩ := fits
  obtain ⟨piece, offset⟩ := readU32At_payload (writeU32 request.length) pieceFits offsetFits
  have length := readU32At_append_writeU32 (writeU32 request.piece ++ writeU32 request.offset) []
    request.length lengthFits
  rw [List.append_assoc, List.append_nil] at length
  unfold decodeRequest BlockRequest.message
  rw [piece, offset]
  exact congrArg (BlockRequest.mk request.piece request.offset) length

theorem message_inj {request other : BlockRequest} (fits : request.Fits) (fits' : other.Fits)
    (same : request.message = other.message) : request = other :=
  calc request = decodeRequest request.message := (decodeRequest_message fits).symm
    _ = decodeRequest other.message := congrArg decodeRequest same
    _ = other := decodeRequest_message fits'

theorem answer_inj {torrent : TorrentFile} {content : Bytes} {request other : BlockRequest}
    (fits : request.Fits) (fits' : other.Fits) (genuine : Genuine torrent request)
    (genuine' : Genuine torrent other)
    (same : answer torrent content request = answer torrent content other) : request = other := by
  have payload := congrArg PeerMessage.payload same
  simp only [answer] at payload
  have first := readU32At_payload (requestedBytes torrent content request) fits.1 fits.2.1
  have second := readU32At_payload (requestedBytes torrent content other) fits'.1 fits'.2.1
  rw [payload] at first
  exact genuine.eq genuine' (first.1.symm.trans second.1) (first.2.symm.trans second.2)

theorem PieceManager.BlockAt.genuine {manager : PieceManager} (sound : manager.Sound)
    {pieceIndex k : Nat} {active : ActivePiece} {block : Block}
    (at_ : manager.BlockAt pieceIndex active k block) :
    Genuine manager.torrent ⟨pieceIndex, block.offset, block.length⟩ := by
  obtain ⟨bound, -, offset, length⟩ := (sound.wellFormed at_.found).block at_.at_
  exact ⟨k, bound, offset, length⟩

/-- A request is for a block nobody was asked for. -/
theorem PieceManager.Creates.origin {manager next : PieceManager} {peer : Peer}
    {request : BlockRequest} (creates : manager.Creates peer next (some request)) :
    (∃ active k block, manager.BlockAt request.piece active k block ∧ block.state = .missing ∧
      block.offset = request.offset) ∨ request.piece ∉ manager.activePieces := by
  cases creates with
  | reuse at_ _ missing => exact .inl ⟨_, _, _, at_, missing, rfl⟩
  | fresh opens => exact .inr opens.pickable.inactive

/-- Requested blocks stay where they are while further requests are made. -/
theorem PieceManager.Creates.requested_kept {manager next : PieceManager} {peer : Peer}
    {request : Option BlockRequest} (creates : manager.Creates peer next request)
    {pieceIndex k : Nat} {active : ActivePiece} {block : Block}
    (at_ : manager.BlockAt pieceIndex active k block) (requested : block.state = .requested) :
    ∃ active', next.BlockAt pieceIndex active' k block := by
  obtain ⟨active', now | ⟨missing, -⟩⟩ := creates.kept at_
  · exact ⟨active', now⟩
  · rw [requested] at missing
    cases missing

/-- A requested block was requested before, or now. -/
theorem PieceManager.Creates.requested_before {manager next : PieceManager} {peer : Peer}
    {request : Option BlockRequest} (creates : manager.Creates peer next request)
    {pieceIndex k : Nat} {active : ActivePiece} {block : Block}
    (at_ : next.BlockAt pieceIndex active k block) (requested : block.state = .requested) :
    (∃ active', manager.BlockAt pieceIndex active' k block) ∨
      request = some ⟨pieceIndex, block.offset, block.length⟩ := by
  rcases creates.blockAt at_ with old | ⟨_, _, _, made, _⟩ | ⟨-, missing⟩
  · exact .inl old
  · exact .inr made
  · rw [missing] at requested
    cases requested

namespace Session

open PieceManager

variable {ι : Type} [DecidableEq ι]

def asked (wire : List (Wire ι)) (connection : ι) (request : BlockRequest) : Nat :=
  wire.count (.queued connection request.message)

def answered (setup : Setup) (content : Bytes) (wire : List (Wire ι)) (connection : ι)
    (request : BlockRequest) : Nat :=
  wire.count (.received connection (answer setup.torrent content request))

/-- The connection owes the block that was requested on it. -/
def Unanswered (setup : Setup) (content : Bytes) (wire : List (Wire ι)) (connection : ι)
    (request : BlockRequest) : Prop :=
  answered setup content wire connection request < asked wire connection request

instance (setup : Setup) (content : Bytes) (wire : List (Wire ι)) (connection : ι)
    (request : BlockRequest) : Decidable (Unanswered setup content wire connection request) :=
  inferInstanceAs (Decidable (_ < _))

section
variable (wire : List (Wire ι)) (sender connection : ι) (msg : PeerMessage)
  (request : BlockRequest)

theorem asked_cons_queued : asked (.queued sender msg :: wire) connection request =
    asked wire connection request +
      if sender = connection ∧ msg = request.message then 1 else 0 := by
  unfold asked
  rw [List.count_cons]
  simp

@[simp] theorem asked_cons_received :
    asked (.received sender msg :: wire) connection request = asked wire connection request := by
  unfold asked
  rw [List.count_cons]
  simp

variable (setup : Setup) (content : Bytes)

theorem answered_cons_received : answered setup content (.received sender msg :: wire) connection
      request = answered setup content wire connection request +
      if sender = connection ∧ msg = answer setup.torrent content request then 1 else 0 := by
  unfold answered
  rw [List.count_cons]
  simp

@[simp] theorem answered_cons_queued :
    answered setup content (.queued sender msg :: wire) connection request =
      answered setup content wire connection request := by
  unfold answered
  rw [List.count_cons]
  simp

end

/-- The books on requests and answers, beside the marks on the blocks. -/
structure Ledger (setup : Setup) (content : Bytes) (session : Session ι) : Prop where
  balanced : ∀ connection request, request.Fits → Genuine setup.torrent request →
    answered setup content session.wire connection request ≤
      asked session.wire connection request
  single : ∀ connection request, request.Fits → asked session.wire connection request ≤
    answered setup content session.wire connection request + 1
  owner : ∀ connection other request, request.Fits →
    Unanswered setup content session.wire connection request →
    Unanswered setup content session.wire other request → connection = other
  marked : ∀ connection request, request.Fits →
    Unanswered setup content session.wire connection request →
    ∃ active k block, session.pieces.BlockAt request.piece active k block ∧
      block.state = .requested ∧ request = ⟨request.piece, block.offset, block.length⟩
  owed : ∀ pieceIndex active k block, session.pieces.BlockAt pieceIndex active k block →
    block.state = .requested → ∃ connection,
      Unanswered setup content session.wire connection ⟨pieceIndex, block.offset, block.length⟩
  unchoked : ∀ connection request, request.Fits →
    Unanswered setup content session.wire connection request →
    (session.peer connection).peerChoking = false

/-! ## Requests -/

theorem Unanswered.issue {setup : Setup} {content : Bytes} {connection other : ι}
    {session : Session ι} {pieces : PieceManager} {request : BlockRequest}
    {created : Option BlockRequest}
    (owes : Unanswered setup content session.wire other request) :
    Unanswered setup content (session.issue connection pieces created).wire other request := by
  cases created with
  | none => exact owes
  | some created =>
    simp only [Session.issue, wire_queueMessage]
    split
    · rw [Unanswered, asked_cons_queued, answered_cons_queued]
      exact Nat.lt_of_lt_of_le owes (Nat.le_add_right ..)
    · exact owes

section
variable {setup : Setup} {content : Bytes} {session : Session ι} {connection : ι}
  {pieces : PieceManager} (ledger : Ledger setup content session)
  (regular : Regular setup session.pieces)
include ledger regular

theorem Ledger.unasked {request : BlockRequest}
    (creates : session.pieces.Creates (session.peer connection) pieces (some request))
    (other : ι) : ¬ Unanswered setup content session.wire other request := by
  intro owes
  obtain ⟨active, k, block, at_, requested, same⟩ :=
    ledger.marked other request (creates.fits regular.sound) owes
  rcases creates.origin with ⟨active', j, block', at', missing, offset⟩ | inactive
  · cases at_.found.symm.trans at'.found
    have sameOffset : block.offset = block'.offset := by rw [offset, same]
    obtain rfl := (regular.sound.wellFormed at_.found).offset_inj at_.at_ at'.at_ sameOffset
    cases at_.at_.symm.trans at'.at_
    rw [missing] at requested
    cases requested
  · exact inactive at_.mem

omit [DecidableEq ι] ledger in
theorem Regular.genuine {request : BlockRequest}
    (creates : session.pieces.Creates (session.peer connection) pieces (some request)) :
    Genuine setup.torrent request := by
  obtain ⟨active, k, block, at_, -, same⟩ := creates.requested
  have next := at_.genuine (regular.sound.creates creates)
  rwa [← same, (regular.creates creates).torrent] at next

theorem Ledger.unanswered_issue {request : BlockRequest}
    (connected : (session.connections connection).state = .connected)
    (creates : session.pieces.Creates (session.peer connection) pieces (some request)) :
    Unanswered setup content (session.issue connection pieces (some request)).wire connection
      request := by
  have before := ledger.balanced connection request (creates.fits regular.sound)
    (regular.genuine creates)
  rw [Unanswered, wire_issue _ _ _ _ connected, asked_cons_queued, answered_cons_queued,
    if_pos ⟨rfl, rfl⟩]
  omega

omit ledger in
/-- Only the new request is unanswered now and was not before. -/
theorem Regular.unanswered_of_issue {request asked_ : BlockRequest} {other : ι}
    (connected : (session.connections connection).state = .connected)
    (creates : session.pieces.Creates (session.peer connection) pieces (some request))
    (fits' : asked_.Fits)
    (owes : Unanswered setup content (session.issue connection pieces (some request)).wire other
      asked_) :
    (connection = other ∧ request = asked_) ∨
      Unanswered setup content session.wire other asked_ := by
  rw [Unanswered, wire_issue _ _ _ _ connected, asked_cons_queued, answered_cons_queued] at owes
  split at owes
  · rename_i here
    exact .inl ⟨here.1, message_inj (creates.fits regular.sound) fits' here.2⟩
  · exact .inr owes

omit regular in
theorem Ledger.issue_none
    (creates : session.pieces.Creates (session.peer connection) pieces none) :
    Ledger setup content (session.issue connection pieces none) := by
  refine ⟨ledger.balanced, ledger.single, ledger.owner, ?_, ?_, ledger.unchoked⟩
  · intro other asked_ fits owes
    obtain ⟨active, k, block, at_, requested, same⟩ := ledger.marked other asked_ fits owes
    obtain ⟨active', now⟩ := creates.requested_kept at_ requested
    exact ⟨active', k, block, now, requested, same⟩
  · intro pieceIndex active k block at_ requested
    rcases creates.requested_before at_ requested with ⟨active', old⟩ | made
    · exact ledger.owed _ _ _ _ old requested
    · cases made

theorem Ledger.issue_some {request : BlockRequest}
    (connected : (session.connections connection).state = .connected)
    (unchoked : (session.peer connection).peerChoking = false)
    (creates : session.pieces.Creates (session.peer connection) pieces (some request)) :
    Ledger setup content (session.issue connection pieces (some request)) := by
  have fits := creates.fits regular.sound
  have none_ := ledger.unasked regular creates
  have wire := wire_issue session connection pieces request connected
  constructor
  case balanced =>
    intro other asked_ fits' genuine'
    have before := ledger.balanced other asked_ fits' genuine'
    rw [wire, asked_cons_queued, answered_cons_queued]
    omega
  case single =>
    intro other asked_ fits'
    have before := ledger.single other asked_ fits'
    rw [wire, asked_cons_queued, answered_cons_queued]
    split
    · -- The same request was asked for before, but not left unanswered.
      rename_i here
      obtain rfl := message_inj fits fits' here.2
      have settled := none_ other
      unfold Unanswered at settled
      omega
    · omega
  case owner =>
    intro first second asked_ fits' owesFirst owesSecond
    rcases regular.unanswered_of_issue connected creates fits' owesFirst with
      ⟨rfl, rfl⟩ | before
    · rcases regular.unanswered_of_issue connected creates fits owesSecond with
        ⟨rfl, -⟩ | before'
      · rfl
      · exact absurd before' (none_ second)
    · rcases regular.unanswered_of_issue connected creates fits' owesSecond with
        ⟨rfl, rfl⟩ | before'
      · exact absurd before (none_ first)
      · exact ledger.owner first second asked_ fits' before before'
  case marked =>
    intro other asked_ fits' now
    rw [pieces_issue]
    rcases regular.unanswered_of_issue connected creates fits' now with ⟨rfl, rfl⟩ | before
    · exact creates.requested
    · obtain ⟨active, k, block, at_, requested, same⟩ := ledger.marked other asked_ fits' before
      obtain ⟨active', here⟩ := creates.requested_kept at_ requested
      exact ⟨active', k, block, here, requested, same⟩
  case owed =>
    intro pieceIndex active k block at_ requested
    rw [pieces_issue] at at_
    rcases creates.requested_before at_ requested with ⟨active', old⟩ | made
    · obtain ⟨other, before⟩ := ledger.owed _ _ _ _ old requested
      exact ⟨other, before.issue⟩
    · cases made
      exact ⟨connection, ledger.unanswered_issue regular connected creates⟩
  case unchoked =>
    intro other asked_ fits' now
    rw [peer_issue]
    rcases regular.unanswered_of_issue connected creates fits' now with ⟨rfl, -⟩ | before
    · exact unchoked
    · exact ledger.unchoked other asked_ fits' before

theorem Ledger.issue {request : Option BlockRequest}
    (connected : (session.connections connection).state = .connected)
    (unchoked : (session.peer connection).peerChoking = false)
    (creates : session.pieces.Creates (session.peer connection) pieces request) :
    Ledger setup content (session.issue connection pieces request) := by
  cases request with
  | none => exact ledger.issue_none creates
  | some request => exact ledger.issue_some regular connected unchoked creates

/-! ## Answers -/

omit [DecidableEq ι] ledger in
theorem Regular.genuine_blockAt {pieceIndex k : Nat} {active : ActivePiece} {block : Block}
    (at_ : session.pieces.BlockAt pieceIndex active k block) :
    Genuine setup.torrent ⟨pieceIndex, block.offset, block.length⟩ := by
  rw [← regular.torrent]
  exact at_.genuine regular.sound

theorem Ledger.genuine {request : BlockRequest} (fits : request.Fits)
    (owes : Unanswered setup content session.wire connection request) :
    Genuine setup.torrent request := by
  obtain ⟨active, k, block, at_, -, same⟩ := ledger.marked connection request fits owes
  rw [same]
  exact regular.genuine_blockAt at_

end

section
variable {setup : Setup} {content : Bytes} {session next : Session ι} {connection : ι}
  {request : BlockRequest} (ledger : Ledger setup content session)
  (wire : next.wire = .received connection (answer setup.torrent content request) :: session.wire)
include wire

theorem unanswered_of_answer {other : ι} {asked_ : BlockRequest}
    (owes : Unanswered setup content next.wire other asked_) :
    Unanswered setup content session.wire other asked_ := by
  rw [Unanswered, wire, asked_cons_received, answered_cons_received] at owes
  exact Nat.lt_of_le_of_lt (Nat.le_add_right ..) owes

include ledger

/-- An answer settles its request on every connection. -/
theorem Ledger.settled (fits : request.Fits)
    (owes : Unanswered setup content session.wire connection request) (other : ι) :
    ¬ Unanswered setup content next.wire other request := by
  intro now
  obtain rfl := ledger.owner connection other request fits owes (unanswered_of_answer wire now)
  have single := ledger.single connection request fits
  rw [Unanswered, wire, asked_cons_received, answered_cons_received, if_pos ⟨rfl, rfl⟩] at now
  omega

/-- The answer to a request settles it, and no other. -/
theorem Ledger.delivered {data : Bytes} {done : Bool} (regular : Regular setup session.pieces)
    (fits : request.Fits) (owes : Unanswered setup content session.wire connection request)
    (processes : session.pieces.Processes setup.sha1 request.piece request.offset data next.pieces
      done)
    (verified : ∀ active k block, session.pieces.Takes request.piece request.offset active k block →
      active.blocksDownloaded + 1 = active.totalBlocks → session.pieces.torrent.pieces[request.piece]? =
        some (setup.sha1 (completedPiece (filled active k data))))
    (peers : ∀ other, next.peer other = session.peer other) : Ledger setup content next := by
  have genuine := ledger.genuine regular fits owes
  constructor
  case balanced =>
    intro other asked_ fits' genuine'
    have balanced := ledger.balanced other asked_ fits' genuine'
    rw [wire, asked_cons_received, answered_cons_received]
    split
    · rename_i here
      obtain ⟨rfl, same⟩ := here
      obtain rfl := answer_inj fits fits' genuine genuine' same
      exact owes
    · exact balanced
  case single =>
    intro other asked_ fits'
    have single := ledger.single other asked_ fits'
    rw [wire, asked_cons_received, answered_cons_received]
    omega
  case owner =>
    intro first second asked_ fits' owesFirst owesSecond
    exact ledger.owner first second asked_ fits' (unanswered_of_answer wire owesFirst)
      (unanswered_of_answer wire owesSecond)
  case marked =>
    intro other asked_ fits' now
    obtain ⟨active, k, block, at_, requested, same⟩ :=
      ledger.marked other asked_ fits' (unanswered_of_answer wire now)
    -- The request of the block that arrived is settled, so this is another block.
    have different : ¬ (asked_.piece = request.piece ∧ block.offset = request.offset) := by
      rintro ⟨piece, offset⟩
      have genuine' := regular.genuine_blockAt at_
      rw [← same] at genuine'
      have sameOffset : asked_.offset = request.offset := by rw [same, offset]
      obtain rfl := genuine'.eq genuine piece sameOffset
      exact ledger.settled wire fits owes other now
    have waits : block.state ≠ .downloaded := by simp [requested]
    obtain ⟨active', here⟩ := processes.kept regular.sound verified at_ waits different
    exact ⟨active', k, block, here, requested, same⟩
  case owed =>
    intro pieceIndex active k block at_ requested
    have waits : block.state ≠ .downloaded := by simp [requested]
    rcases processes.blockAt regular.sound at_ with
      ⟨active', old, other⟩ | ⟨-, _, _, _, _, rfl⟩ | ⟨-, missing⟩
    · obtain ⟨creditor, owed⟩ := ledger.owed _ _ _ _ old requested
      refine ⟨creditor, ?_⟩
      rw [Unanswered, wire, asked_cons_received, answered_cons_received, if_neg]
      · exact owed
      · rintro ⟨rfl, same⟩
        have equal := answer_inj fits (old.fits regular.sound) genuine
          (regular.genuine_blockAt old) same
        rw [equal] at other
        exact other ⟨rfl, rfl, waits⟩
    · cases requested
    · rw [missing] at requested
      cases requested
  case unchoked =>
    intro other asked_ fits' now
    rw [peers]
    exact ledger.unchoked other asked_ fits' (unanswered_of_answer wire now)

end

/-- Entries that are neither requests nor answers leave the books as they are. -/
theorem Ledger.congr {setup : Setup} {content : Bytes} {session next : Session ι}
    (ledger : Ledger setup content session)
    (asks : ∀ connection request,
      asked next.wire connection request = asked session.wire connection request)
    (answers : ∀ connection request, answered setup content next.wire connection request =
      answered setup content session.wire connection request)
    (pieces : next.pieces = session.pieces)
    (choking : ∀ connection, (session.peer connection).peerChoking = false →
      (next.peer connection).peerChoking = false) : Ledger setup content next := by
  obtain ⟨balanced, single, owner, marked, owed, unchoked⟩ := ledger
  refine ⟨?_, ?_, ?_, ?_, ?_, ?_⟩
  all_goals simp only [Unanswered, asks, answers, pieces]
  · exact balanced
  · exact single
  · exact owner
  · exact marked
  · exact owed
  · exact fun connection request fits owes => choking connection (unchoked connection request fits owes)

end Session

end K0Torrent
