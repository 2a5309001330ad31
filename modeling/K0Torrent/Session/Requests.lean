import K0Torrent.Session.Failures
import K0Torrent.Session.Ledger

/-! The requests that a session sends.

A block that was requested is requested or downloaded, or its piece is completed,
until the piece fails its hash; and only a missing block is requested. So a block
is requested a second time only after such a failure.
-/

set_option autoImplicit false

namespace K0Torrent

namespace PieceManager

/-- The block was requested, and its piece has not started over since. -/
def Settled (manager : PieceManager) (pieceIndex blockOffset : Nat) : Prop :=
  manager.picker.isCompleted pieceIndex = true ∨
    ∃ active k block, manager.BlockAt pieceIndex active k block ∧ block.offset = blockOffset ∧
      block.state ≠ .missing

section
variable {manager next : PieceManager} {peer : Peer}

theorem Settled.creates {request : Option BlockRequest} {pieceIndex blockOffset : Nat}
    (settled : manager.Settled pieceIndex blockOffset) (creates : manager.Creates peer next request) :
    next.Settled pieceIndex blockOffset := by
  rcases settled with completed | ⟨active, k, block, at_, offset, state⟩
  · rw [← creates.picker] at completed
    exact .inl completed
  · obtain ⟨active', still | ⟨missing, -⟩⟩ := creates.kept at_
    · exact .inr ⟨active', k, block, still, offset, state⟩
    · exact absurd missing state

variable {request : BlockRequest}

theorem Creates.settles (creates : manager.Creates peer next (some request)) :
    next.Settled request.piece request.offset := by
  obtain ⟨active, k, block, at_, requested, same⟩ := creates.requested
  have offset := congrArg BlockRequest.offset same
  exact .inr ⟨active, k, block, at_, offset.symm, by rw [requested]; nofun⟩

/-- A request is for a piece that the peer has. -/
theorem Creates.has (creates : manager.Creates peer next (some request)) :
    peer.hasPiece request.piece = true := by
  cases creates with
  | reuse _ has => exact has
  | fresh opens => exact opens.pickable.has

theorem Creates.not_settled (sound : manager.Sound)
    (creates : manager.Creates peer next (some request)) :
    ¬ manager.Settled request.piece request.offset := by
  rintro (completed | ⟨active, k, block, at_, offset, state⟩)
  · rw [← creates.picker] at completed
    obtain ⟨active, k, block, at_, -⟩ := creates.requested
    rw [(sound.creates creates).incomplete at_.mem] at completed
    cases completed
  · cases creates with
    | reuse before _ missing =>
      -- The block at this offset is the one that was missing.
      cases at_.found.symm.trans before.found
      obtain rfl := (sound.wellFormed at_.found).offset_inj at_.at_ before.at_ offset
      cases at_.at_.symm.trans before.at_
      exact state missing
    | fresh opens => exact opens.pickable.inactive at_.mem

/-- A request is for a block of a piece that is not completed. -/
theorem Creates.inside {torrent : TorrentFile} (divided : Divided torrent) (sound : manager.Sound)
    (same : manager.torrent = torrent) (creates : manager.Creates peer next (some request)) :
    request.piece < torrent.pieces.length ∧ manager.picker.isCompleted request.piece = false ∧
      (1 ≤ request.length ∧ request.length ≤ 16384) ∧
      request.offset + request.length ≤
        min torrent.pieceWidth (torrent.size - request.piece * torrent.pieceWidth) := by
  obtain ⟨active, k, block, at_, -, fields⟩ := creates.requested
  have offset := congrArg BlockRequest.offset fields
  have length := congrArg BlockRequest.length fields
  have soundNext := sound.creates creates
  have sameNext := creates.torrent.trans same
  have bound := soundNext.index_lt (soundNext.bound at_.mem)
  have incomplete := soundNext.incomplete at_.mem
  obtain ⟨inside, -, start, size⟩ := (soundNext.wellFormed at_.found).block at_.at_
  obtain ⟨-, before, -⟩ := size_of_blockCount inside (pieceSize_lt ..)
  rw [sameNext] at bound size before
  rw [creates.picker] at incomplete
  simp only at offset length
  rw [← divided.pieceSize_eq bound, offset, length, start, size]
  refine ⟨bound, incomplete, ?_, ?_⟩
  · unfold blockSize at before ⊢
    omega
  · omega

end

/-- A block that is delivered unsettles the blocks of its piece only if it fails its hash. -/
theorem Settled.processes {sha1 : Bytes → Digest} {manager next : PieceManager}
    {pieceIndex blockOffset other otherOffset : Nat} {data : Bytes} {done : Bool}
    (sound : manager.Sound) (settled : manager.Settled other otherOffset)
    (processes : manager.Processes sha1 pieceIndex blockOffset data next done) :
    next.Settled other otherOffset ∨ other = pieceIndex ∧ ∃ active k block,
      manager.Takes pieceIndex blockOffset active k block ∧
        active.blocksDownloaded + 1 = active.totalBlocks ∧
        manager.torrent.pieces[pieceIndex]? ≠
          some (sha1 (completedPiece (filled active k data))) := by
  cases processes with
  | rejected => exact .inl settled
  | @recorded taken j origin takes =>
    rcases settled with completed | ⟨active, k, block, at_, offset, state⟩
    · exact .inl (.inl completed)
    · by_cases same : other = pieceIndex
      · subst same
        cases at_.found.symm.trans takes.at_.found
        have here : (filled taken j data)[k]? =
            some (if j = k then block.fill data else block) := by
          rw [filled, List.getElem?_modify, at_.at_]
          rfl
        refine .inl (.inr ⟨_, k, _, ⟨lookup_setPiece_self .., here⟩, ?_⟩)
        split
        · exact ⟨offset, fun missing => by cases missing⟩
        · exact ⟨offset, state⟩
      · exact .inl (.inr ⟨active, k, block,
          ⟨(lookup_setPiece_of_ne _ _ _ same).trans at_.found, at_.at_⟩, offset, state⟩)
  | completed takes =>
    have marked := isCompleted_markCompleted manager.picker pieceIndex other
      (sound.bound takes.at_.mem)
    by_cases same : other = pieceIndex
    · rw [decide_eq_true same, Bool.true_or] at marked
      exact .inl (.inl marked)
    · rcases settled with completed | ⟨active, k, block, at_, offset, state⟩
      · rw [completed, Bool.or_true] at marked
        exact .inl (.inl marked)
      · exact .inl (.inr ⟨active, k, block,
          ⟨(AList.lookup_erase_ne same).trans at_.found, at_.at_⟩, offset, state⟩)
  | failed takes last unverified =>
    by_cases same : other = pieceIndex
    · exact .inr ⟨same, _, _, _, takes, last, unverified⟩
    · rcases settled with completed | ⟨active, k, block, at_, offset, state⟩
      · exact .inl (.inl completed)
      · exact .inl (.inr ⟨active, k, block,
          ⟨(lookup_setPiece_of_ne _ _ _ same).trans at_.found, at_.at_⟩, offset, state⟩)

end PieceManager

namespace Session

variable {ι : Type}

/-! ## What a request says -/

/-- The request may be sent to the connection. -/
structure Legitimate (torrent : TorrentFile) (session : Session ι) (connection : ι)
    (request : BlockRequest) : Prop where
  unchoked : (session.peer connection).peerChoking = false
  has : (session.peer connection).hasPiece request.piece = true
  bound : request.piece < torrent.pieces.length
  incomplete : session.pieces.picker.isCompleted request.piece = false
  length : 1 ≤ request.length ∧ request.length ≤ 16384
  inside : request.offset + request.length ≤
    min torrent.pieceWidth (torrent.size - request.piece * torrent.pieceWidth)

theorem Legitimate.congr {torrent : TorrentFile} {session next : Session ι} {connection : ι}
    {request : BlockRequest} (legitimate : Legitimate torrent session connection request)
    (peer : next.peer connection = session.peer connection)
    (picker : next.pieces.picker = session.pieces.picker) :
    Legitimate torrent next connection request where
  unchoked := by
    rw [peer]
    exact legitimate.unchoked
  has := by
    rw [peer]
    exact legitimate.has
  bound := legitimate.bound
  incomplete := by
    rw [picker]
    exact legitimate.incomplete
  length := legitimate.length
  inside := legitimate.inside

/-- A request on the wire, with what had passed before it. -/
structure RequestAt (wire : List (Wire ι)) (connection : ι) (msg : PeerMessage)
    (earlier : List (Wire ι)) : Prop where
  id : msg.id = .request
  sent : .queued connection msg :: earlier <:+ wire

section
variable {wire earlier : List (Wire ι)} {connection : ι} {msg : PeerMessage}

theorem RequestAt.cases {entry : Wire ι} (at_ : RequestAt (entry :: wire) connection msg earlier) :
    (entry = .queued connection msg ∧ earlier = wire) ∨ RequestAt wire connection msg earlier := by
  rcases List.suffix_cons_iff.mp at_.sent with same | before
  · obtain ⟨rfl, rfl⟩ := List.cons.inj same
    exact .inl ⟨rfl, rfl⟩
  · exact .inr ⟨at_.id, before⟩

end

/-- One round adds nothing to the wire, or the request it has created. -/
theorem wire_issue_cases (session : Session ι) (connection : ι) (pieces : PieceManager)
    (request : Option BlockRequest) :
    (session.issue connection pieces request).wire = session.wire ∨
      ∃ created, request = some created ∧ (session.issue connection pieces request).wire =
        .queued connection created.message :: session.wire := by
  cases request with
  | none => exact .inl rfl
  | some created =>
    by_cases connected : (session.connections connection).state = .connected
    · exact .inr ⟨created, rfl, wire_issue _ _ _ _ connected⟩
    · exact .inl ((wire_queueMessage ..).trans (if_neg connected))

/-- What a message adds to the wire besides requests. -/
def Plain : Wire ι → Prop
  | .queued _ msg => msg.id ≠ .request
  | .received _ _ | .closed _ => True

theorem RequestAt.of_plain {wire earlier : List (Wire ι)} {connection : ι} {msg : PeerMessage}
    {entry : Wire ι} (at_ : RequestAt (entry :: wire) connection msg earlier)
    (plain : Plain entry) : RequestAt wire connection msg earlier := by
  rcases at_.cases with ⟨rfl, -⟩ | before
  · exact absurd at_.id plain
  · exact before

/-- The request was added to the wire, and may be sent. -/
structure Issued (torrent : TorrentFile) (wire : List (Wire ι)) (session : Session ι)
    (connection : ι) (msg : PeerMessage) (earlier : List (Wire ι)) : Prop where
  since : wire <:+ earlier
  whole : msg.payload.length = 12
  legitimate : Legitimate torrent session connection (decodeRequest msg)

section
variable {setup : Setup} (divided : Divided setup.torrent) {session : Session ι} {connection : ι}
include divided

theorem issued_of_creates {pieces : PieceManager} {request : BlockRequest}
    (regular : Regular setup session.pieces)
    (unchoked : (session.peer connection).peerChoking = false)
    (creates : session.pieces.Creates (session.peer connection) pieces (some request)) :
    request.message.payload.length = 12 ∧
      Legitimate setup.torrent session connection (decodeRequest request.message) := by
  obtain ⟨bound, incomplete, length, inside⟩ :=
    creates.inside divided regular.sound regular.torrent
  rw [decodeRequest_message (creates.fits regular.sound)]
  exact ⟨rfl, unchoked, creates.has, bound, incomplete, length, inside⟩

/-- What the loop keeps: it adds requests to the wire, and each may be sent. -/
structure Issuing (setup : Setup) (session next : Session ι) : Prop where
  regular : Regular setup next.pieces
  peer : ∀ connection, next.peer connection = session.peer connection
  picker : next.pieces.picker = session.pieces.picker
  longer : session.wire <:+ next.wire
  issued : ∀ {sender msg earlier}, RequestAt next.wire sender msg earlier →
    RequestAt session.wire sender msg earlier ∨
      Issued setup.torrent session.wire next sender msg earlier

theorem Issuing.issue {next : Session ι} {pieces : PieceManager} {request : Option BlockRequest}
    (issuing : Issuing setup session next)
    (unchoked : (session.peer connection).peerChoking = false)
    (creates : next.pieces.Creates (next.peer connection) pieces request) :
    Issuing setup session (next.issue connection pieces request) := by
  have same (other : ι) : (next.issue connection pieces request).peer other = next.peer other :=
    peer_issue ..
  have picker : (next.issue connection pieces request).pieces.picker = next.pieces.picker := by
    rw [pieces_issue]
    exact creates.picker
  refine ⟨?_, fun other => (same other).trans (issuing.peer other), picker.trans issuing.picker,
    ?_, ?_⟩
  · rw [pieces_issue]
    exact issuing.regular.creates creates
  · rcases wire_issue_cases next connection pieces request with wire | ⟨created, -, wire⟩
    · rw [wire]
      exact issuing.longer
    · rw [wire]
      exact issuing.longer.trans (List.suffix_cons ..)
  · intro sender msg earlier at_
    have kept (before : RequestAt next.wire sender msg earlier) :=
      (issuing.issued before).imp_right fun issued : Issued .. =>
        (⟨issued.since, issued.whole, issued.legitimate.congr (same sender) picker⟩ :
          Issued setup.torrent session.wire (next.issue connection pieces request) sender msg
            earlier)
    rcases wire_issue_cases next connection pieces request with wire | ⟨created, rfl, wire⟩
    · rw [wire] at at_
      exact kept at_
    · rw [wire] at at_
      rcases at_.cases with ⟨entry, rfl⟩ | before
      · cases entry
        rw [← issuing.peer] at unchoked
        obtain ⟨whole, legitimate⟩ := issued_of_creates divided issuing.regular unchoked creates
        exact .inr ⟨issuing.longer, whole, legitimate.congr (same connection) picker⟩
      · exact kept before

/-- Every request that the loop adds may be sent. -/
theorem issued_requestNextBlocks {order : IterationOrder} {sender : ι} {msg : PeerMessage}
    {earlier : List (Wire ι)} (regular : Regular setup session.pieces)
    (at_ : RequestAt (requestNextBlocks order session connection).wire sender msg earlier) :
    RequestAt session.wire sender msg earlier ∨
      Issued setup.torrent session.wire (requestNextBlocks order session connection) sender msg
        earlier := by
  have start : Issuing setup session session :=
    ⟨regular, fun _ => rfl, rfl, List.suffix_rfl, fun at_ => .inl at_⟩
  unfold requestNextBlocks at at_ ⊢
  cases choking : (session.peer connection).peerChoking with
  | true =>
    rw [choking] at at_
    exact .inl at_
  | false =>
    rw [choking] at at_
    exact (requestBlocks_induct (Issuing setup session)
      (fun issuing creates => issuing.issue divided choking creates) 5 start).issued at_

end

/-! ## What a step adds to the wire -/

/-- A step adds requests, or nothing that is one. -/
inductive Adds (setup : Setup) (session : Session ι) (event : Event ι) (next : Session ι) : Prop where
  | plain (entries : List (Wire ι)) (plain : ∀ entry ∈ entries, Plain entry)
      (wire : next.wire = entries ++ session.wire) (pieces : next.pieces = session.pieces)
  | unchoked {middle : Session ι} {connection : ι} {msg : PeerMessage} {order : IterationOrder}
      (requests : next = requestNextBlocks order middle connection)
      (wire : middle.wire = .received connection msg :: session.wire)
      (pieces : middle.pieces = session.pieces)
  | delivered {middle : Session ι} {connection : ι} {msg : PeerMessage} {order : IterationOrder}
      {results : List SliceResult} {pieceIndex blockOffset : Nat} {data : Bytes} {done : Bool}
      (received : event = .message connection msg order results)
      (requests : next = requestNextBlocks order middle connection)
      (wire : middle.wire = .received connection msg :: session.wire)
      (delivers : Delivers msg pieceIndex blockOffset data)
      (processes : session.pieces.Processes setup.sha1 pieceIndex blockOffset data middle.pieces done)

theorem adds_of_step [DecidableEq ι] {setup : Setup} {session next : Session ι} {event : Event ι}
    (taken : step setup session event = some next) : Adds setup session event next := by
  cases steps_of_step taken with
  | handshake => exact .plain [] (List.forall_mem_nil _) rfl rfl
  | @disconnect connection =>
    exact .plain [.closed connection] (List.forall_mem_singleton.mpr trivial) rfl rfl
  | @message connection msg order results next connected handles =>
    have received : ∀ entry ∈ [Wire.received connection msg], Plain entry :=
      List.forall_mem_singleton.mpr trivial
    cases handles with
    | noted => exact .plain _ received rfl rfl
    | @greeted known =>
      have wire := wire_queueMessage ((session.record connection msg).setPeer connection known)
        connection interested
      split at wire
      · exact .plain [.queued connection interested, .received connection msg]
          (List.forall_mem_cons.mpr ⟨nofun, received⟩) wire (pieces_queueMessage ..)
      · exact .plain _ received wire (pieces_queueMessage ..)
    | unchoked => exact .unchoked rfl rfl rfl
    | delivered delivers processes => exact .delivered rfl rfl rfl delivers processes

theorem RequestAt.of_plains {entries wire earlier : List (Wire ι)} {connection : ι}
    {msg : PeerMessage} (plain : ∀ entry ∈ entries, Plain entry)
    (at_ : RequestAt (entries ++ wire) connection msg earlier) :
    RequestAt wire connection msg earlier := by
  induction entries with
  | nil => exact at_
  | cons entry entries ih =>
    obtain ⟨first, rest⟩ := List.forall_mem_cons.mp plain
    exact ih rest (at_.of_plain first)

/-- What a request on the wire was when the step queued it. -/
def Queued (setup : Setup) (connection : ι) (msg : PeerMessage) (earlier : List (Wire ι))
    (x : Machine.Transition (Session ι) (Event ι)) : Prop :=
  .queued connection msg :: earlier <:+ x.after.wire ∧
    Issued setup.torrent x.before.wire x.after connection msg earlier

/-! ## Requests for the same block -/

/-- The block is the last of the piece, which fails its hash. `wire` is what had
passed when the block had come. -/
inductive HashFailure (setup : Setup) (pieceIndex : Nat) :
    List (Wire ι) → Machine.Transition (Session ι) (Event ι) → Prop where
  | intro {before after : Session ι} {connection : ι} {msg : PeerMessage} {order : IterationOrder}
      {results : List SliceResult} {blockOffset k : Nat} {data : Bytes} {active : ActivePiece}
      {block : Block} (delivers : Delivers msg pieceIndex blockOffset data)
      (takes : before.pieces.Takes pieceIndex blockOffset active k block)
      (fails : FailsHash setup pieceIndex active k data) :
      HashFailure setup pieceIndex (.received connection msg :: before.wire)
        ⟨before, .message connection msg order results, after⟩

/-- The piece has failed since the request was sent, and before the later one. -/
def FailedSince (Failed : Nat → List (Wire ι) → Prop) (connection : ι) (msg : PeerMessage)
    (earlier later : List (Wire ι)) : Prop :=
  ∃ wire, Failed (decodeRequest msg).piece wire ∧ RequestAt wire connection msg earlier ∧
    wire <:+ later

/-- The block of every request is settled or its piece has failed since, and so it
has between two requests for the same block. -/
structure Tracked (Failed : Nat → List (Wire ι) → Prop) (wire : List (Wire ι))
    (pieces : PieceManager) : Prop where
  settled : ∀ {connection msg earlier}, RequestAt wire connection msg earlier →
    pieces.Settled (decodeRequest msg).piece (decodeRequest msg).offset ∨
      FailedSince Failed connection msg earlier wire
  separated : ∀ {connection connection' msg msg' later earlier},
    RequestAt wire connection msg later → RequestAt later connection' msg' earlier →
    (decodeRequest msg).piece = (decodeRequest msg').piece →
    (decodeRequest msg).offset = (decodeRequest msg').offset →
    FailedSince Failed connection' msg' earlier later

section
variable {Failed Failed' : Nat → List (Wire ι) → Prop} {wire : List (Wire ι)}
  {pieces : PieceManager}

theorem FailedSince.mono {connection : ι} {msg : PeerMessage} {earlier later : List (Wire ι)}
    (failed : FailedSince Failed connection msg earlier later)
    (more : ∀ {pieceIndex wire}, Failed pieceIndex wire → Failed' pieceIndex wire) :
    FailedSince Failed' connection msg earlier later := by
  obtain ⟨wire, here, since, before⟩ := failed
  exact ⟨wire, more here, since, before⟩

theorem FailedSince.longer {connection : ι} {msg : PeerMessage} {earlier later : List (Wire ι)}
    (failed : FailedSince Failed connection msg earlier later) {longer : List (Wire ι)}
    (suffix : later <:+ longer) : FailedSince Failed connection msg earlier longer := by
  obtain ⟨wire, here, since, before⟩ := failed
  exact ⟨wire, here, since, before.trans suffix⟩

theorem Tracked.mono (tracked : Tracked Failed wire pieces)
    (more : ∀ {pieceIndex wire}, Failed pieceIndex wire → Failed' pieceIndex wire) :
    Tracked Failed' wire pieces where
  settled at_ := (tracked.settled at_).imp_right fun failed => failed.mono more
  separated at_ at_' piece offset := (tracked.separated at_ at_' piece offset).mono more

theorem Tracked.plain (tracked : Tracked Failed wire pieces) {entries : List (Wire ι)}
    (plain : ∀ entry ∈ entries, Plain entry) : Tracked Failed (entries ++ wire) pieces where
  settled at_ := (tracked.settled (at_.of_plains plain)).imp_right fun failed =>
    failed.longer (List.suffix_append ..)
  separated at_ := tracked.separated (at_.of_plains plain)

theorem Tracked.keeps (tracked : Tracked Failed wire pieces) {next : PieceManager}
    (keeps : ∀ {pieceIndex blockOffset}, pieces.Settled pieceIndex blockOffset →
      next.Settled pieceIndex blockOffset ∨ Failed pieceIndex wire) :
    Tracked Failed wire next where
  settled at_ := by
    rcases tracked.settled at_ with settled | failed
    · exact (keeps settled).imp_right fun failed => ⟨wire, failed, at_, List.suffix_rfl⟩
    · exact .inr failed
  separated := tracked.separated

theorem Tracked.issue {session : Session ι} {connection : ι} {request : Option BlockRequest}
    (tracked : Tracked Failed session.wire session.pieces) (sound : session.pieces.Sound)
    (creates : session.pieces.Creates (session.peer connection) pieces request) :
    Tracked Failed (session.issue connection pieces request).wire
      (session.issue connection pieces request).pieces := by
  rw [pieces_issue]
  have kept : Tracked Failed session.wire pieces :=
    tracked.keeps fun settled => .inl (settled.creates creates)
  rcases wire_issue_cases session connection pieces request with wire | ⟨created, rfl, wire⟩
  · rw [wire]
    exact kept
  · rw [wire]
    have decoded : decodeRequest created.message = created :=
      decodeRequest_message (creates.fits sound)
    constructor
    · intro other msg earlier at_
      rcases at_.cases with ⟨same, -⟩ | before
      · cases same
        rw [decoded]
        exact .inl creates.settles
      · exact (kept.settled before).imp_right fun failed => failed.longer (List.suffix_cons ..)
    · intro other other' msg msg' later earlier at_ at_' piece offset
      rcases at_.cases with ⟨same, rfl⟩ | before
      · cases same
        rw [decoded] at piece offset
        -- The block was missing, so it is not settled by the earlier request any more.
        refine (tracked.settled at_').resolve_left fun settled => ?_
        rw [← piece, ← offset] at settled
        exact creates.not_settled sound settled
      · exact kept.separated before at_' piece offset

end

/-! ## Steps and runs -/

theorem Tracked.requestNextBlocks {Failed : Nat → List (Wire ι) → Prop} {order : IterationOrder}
    {session : Session ι} {connection : ι} (tracked : Tracked Failed session.wire session.pieces)
    (sound : session.pieces.Sound) :
    Tracked Failed (requestNextBlocks order session connection).wire
      (requestNextBlocks order session connection).pieces := by
  refine (requestNextBlocks_induct
    (fun next => next.pieces.Sound ∧ Tracked Failed next.wire next.pieces) ?_ ⟨sound, tracked⟩).2
  rintro current pieces request ⟨sound, holds⟩ creates
  refine ⟨?_, holds.issue sound creates⟩
  rw [pieces_issue]
  exact sound.creates creates

variable [DecidableEq ι]

theorem issued_of_step {setup : Setup} (divided : Divided setup.torrent) {session next : Session ι}
    {event : Event ι} (regular : Regular setup session.pieces)
    (taken : step setup session event = some next) {connection : ι} {msg : PeerMessage}
    {earlier : List (Wire ι)} (at_ : RequestAt next.wire connection msg earlier) :
    RequestAt session.wire connection msg earlier ∨
      Issued setup.torrent session.wire next connection msg earlier := by
  -- The loop starts when the message is on the wire already.
  have loop {middle : Session ι} {sender : ι} {received : PeerMessage} {order : IterationOrder}
      (wire : middle.wire = .received sender received :: session.wire)
      (regular : Regular setup middle.pieces)
      (requests : next = requestNextBlocks order middle sender) :
      RequestAt session.wire connection msg earlier ∨
        Issued setup.torrent session.wire next connection msg earlier := by
    subst requests
    rcases issued_requestNextBlocks divided regular at_ with before | ⟨since, whole, legitimate⟩
    · rw [wire] at before
      exact .inl (before.of_plain trivial)
    · rw [wire] at since
      exact .inr ⟨(List.suffix_cons ..).trans since, whole, legitimate⟩
  cases adds_of_step taken with
  | plain entries plain wire =>
    rw [wire] at at_
    exact .inl (at_.of_plains plain)
  | unchoked requests wire pieces =>
    rw [← pieces] at regular
    exact loop wire regular requests
  | delivered _ requests wire _ processes => exact loop wire (regular.processes processes) requests

theorem Runs.queued {setup : Setup} (divided : Divided setup.torrent) {start final : Session ι}
    {history : List (Machine.Transition (Session ι) (Event ι))}
    (runs : Runs setup start history final) {connection : ι} {msg : PeerMessage}
    {earlier : List (Wire ι)} (at_ : RequestAt final.wire connection msg earlier) :
    ∃ x ∈ history, Queued setup connection msg earlier x := by
  refine (runs.2.invariant_of_history (fun history session => Regular setup session.pieces ∧
    ∀ {connection msg earlier}, RequestAt session.wire connection msg earlier →
      ∃ x ∈ history, Queued setup connection msg earlier x) ?_ ?_).2 at_
  · refine ⟨runs.1.regular, fun at_ => ?_⟩
    have sent := at_.sent
    rw [runs.1.silent] at sent
    cases List.suffix_nil.mp sent
  · rintro history session event next - ⟨regular, queued⟩ taken
    refine ⟨regular.step taken, fun at_ => ?_⟩
    rcases issued_of_step divided regular taken at_ with before | issued
    · obtain ⟨x, member, earlier⟩ := queued before
      exact ⟨x, List.mem_cons_of_mem _ member, earlier⟩
    · exact ⟨_, List.mem_cons_self .., at_.sent, issued⟩

/-- The hash failures of a history. -/
def FailedIn (setup : Setup) (history : List (Machine.Transition (Session ι) (Event ι)))
    (pieceIndex : Nat) (wire : List (Wire ι)) : Prop :=
  ∃ x ∈ history, HashFailure setup pieceIndex wire x

theorem Tracked.step {setup : Setup} {session next : Session ι} {event : Event ι}
    {history : List (Machine.Transition (Session ι) (Event ι))}
    (tracked : Tracked (FailedIn setup history) session.wire session.pieces)
    (regular : Regular setup session.pieces) (taken : step setup session event = some next) :
    Tracked (FailedIn setup (⟨session, event, next⟩ :: history)) next.wire next.pieces := by
  have grown : Tracked (FailedIn setup (⟨session, event, next⟩ :: history)) session.wire
      session.pieces := by
    refine tracked.mono ?_
    rintro pieceIndex wire ⟨x, member, failure⟩
    exact ⟨x, List.mem_cons_of_mem _ member, failure⟩
  have received (connection : ι) (msg : PeerMessage) :=
    @Tracked.plain _ _ _ _ grown [.received connection msg] (List.forall_mem_singleton.mpr trivial)
  cases adds_of_step taken with
  | plain entries plain wire pieces =>
    rw [wire, pieces]
    exact grown.plain plain
  | @unchoked middle connection msg order requests wire pieces =>
    have start := received connection msg
    rw [List.singleton_append, ← wire, ← pieces] at start
    rw [← pieces] at regular
    have looped := @Tracked.requestNextBlocks _ _ order _ connection start regular.sound
    rwa [← requests] at looped
  | @delivered middle connection msg order results pieceIndex blockOffset data done event_ requests
      wire delivers processes =>
    have start := received connection msg
    rw [List.singleton_append, ← wire] at start
    have stored : Tracked (FailedIn setup (⟨session, event, next⟩ :: history)) middle.wire
        middle.pieces := by
      refine start.keeps fun settled => ?_
      refine (settled.processes regular.sound processes).imp_right ?_
      rintro ⟨rfl, active, k, block, takes, last, unverified⟩
      rw [regular.torrent] at unverified
      rw [wire, event_]
      exact ⟨_, List.mem_cons_self .., .intro delivers takes ⟨last, unverified⟩⟩
    have looped := @Tracked.requestNextBlocks _ _ order _ connection stored
      (regular.sound.processes processes)
    rwa [← requests] at looped

theorem Runs.tracked {setup : Setup} {start final : Session ι}
    {history : List (Machine.Transition (Session ι) (Event ι))}
    (runs : Runs setup start history final) :
    Tracked (FailedIn setup history) final.wire final.pieces := by
  refine (runs.2.invariant_of_history (fun history session => Regular setup session.pieces ∧
    Tracked (FailedIn setup history) session.wire session.pieces) ?_ ?_).2
  · have none_ {connection msg earlier} (at_ : RequestAt start.wire connection msg earlier) :
        False := by
      have sent := at_.sent
      rw [runs.1.silent] at sent
      cases List.suffix_nil.mp sent
    exact ⟨runs.1.regular, fun at_ => (none_ at_).elim, fun at_ => (none_ at_).elim⟩
  · rintro history session event next - ⟨regular, tracked⟩ taken
    exact ⟨regular.step taken, tracked.step regular taken⟩

/-- Every request may be sent at the time it is queued, and between two requests for
the same block its piece fails its hash. -/
theorem requests_legitimate_separated {setup : Setup} (divided : Divided setup.torrent)
    {start final : Session ι} {history : List (Machine.Transition (Session ι) (Event ι))}
    (runs : Runs setup start history final) :
    (∀ connection msg earlier, RequestAt final.wire connection msg earlier →
      ∃ x ∈ history, Queued setup connection msg earlier x) ∧
    ∀ connection connection' msg msg' later earlier,
      RequestAt final.wire connection msg later → RequestAt later connection' msg' earlier →
      (decodeRequest msg).piece = (decodeRequest msg').piece →
      (decodeRequest msg).offset = (decodeRequest msg').offset →
      ∃ x ∈ history, ∃ wire, HashFailure setup (decodeRequest msg').piece wire x ∧
        RequestAt wire connection' msg' earlier ∧ wire <:+ later := by
  refine ⟨fun _ _ _ at_ => runs.queued divided at_, ?_⟩
  intro connection connection' msg msg' later earlier at_ at_' piece offset
  obtain ⟨wire, ⟨x, member, failure⟩, since, before⟩ :=
    runs.tracked.separated at_ at_' piece offset
  exact ⟨x, member, wire, failure, since, before⟩

theorem divided_oneByte : Divided oneByte.torrent := ⟨by decide, by decide, by decide⟩

def oneByteRequest : PeerMessage := BlockRequest.message ⟨0, 0, 1⟩

/-- What passes up to the first request of the byte. -/
def oneByteWire : List (Wire Bool) :=
  [.received true ⟨.unchoke, []⟩, .queued true interested, .received true ⟨.bitfield, [128]⟩]

/-- The byte comes wrong, and is requested again. -/
theorem second_request_oneByte :
    ∃ history final, Runs oneByte (waiting oneByte) history final ∧
      final.wire = .queued true oneByteRequest ::
        .received true (blockMessage 0 0 [2]) :: .queued true oneByteRequest :: oneByteWire ∧
      ∃ x ∈ history, ∃ wire, HashFailure oneByte 0 wire x ∧
        RequestAt wire true oneByteRequest oneByteWire ∧
        wire <:+ .received true (blockMessage 0 0 [2]) :: .queued true oneByteRequest ::
          oneByteWire := by
  obtain ⟨history, final, replayed, wire⟩ : ∃ history final,
      Machine.replay (step oneByte) [] (waiting oneByte)
        (unchoking ++ [receive true (blockMessage 0 0 [2])]) = some (history, final) ∧
      final.wire = .queued true oneByteRequest ::
        .received true (blockMessage 0 0 [2]) :: .queued true oneByteRequest :: oneByteWire :=
    ⟨_, _, rfl, by decide +kernel⟩
  have runs := runs_of_replay oneByte _ replayed
  have read : decodeRequest oneByteRequest = ⟨0, 0, 1⟩ := by decide +kernel
  have second : RequestAt final.wire true oneByteRequest
      (.received true (blockMessage 0 0 [2]) :: .queued true oneByteRequest :: oneByteWire) :=
    ⟨rfl, by rw [wire]⟩
  have first : RequestAt (.received true (blockMessage 0 0 [2]) :: .queued true oneByteRequest ::
      oneByteWire) true oneByteRequest oneByteWire := ⟨rfl, List.suffix_cons ..⟩
  have separated := (requests_legitimate_separated divided_oneByte runs).2 _ _ _ _ _ _ second first
    rfl rfl
  rw [read] at separated
  exact ⟨history, final, runs, wire, separated⟩

end Session

end K0Torrent
