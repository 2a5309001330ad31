import K0Torrent.Piece.Transitions
import K0Torrent.Session.Session

/-! Everything an event can do to a session.

A message either changes what is known of its sender, or leads to requests: the
state in between, with the block stored and processed, is named. The requests
are issued one at a time.
-/

set_option autoImplicit false

namespace K0Torrent.Session

open PieceManager

variable {ι : Type}

/-! ## Requests -/

/-- One round of the loop that requests blocks. -/
def issue (session : Session ι) (connection : ι) (pieces : PieceManager)
    (request : Option BlockRequest) : Session ι :=
  match request with
  | none => { session with pieces }
  | some request => { session with pieces }.queueMessage connection request.message

section
variable (session : Session ι) (connection : ι)

@[simp] theorem connections_queueMessage (msg : PeerMessage) :
    (session.queueMessage connection msg).connections = session.connections := by
  unfold queueMessage
  split <;> rfl

@[simp] theorem peer_queueMessage (msg : PeerMessage) (other : ι) :
    (session.queueMessage connection msg).peer other = session.peer other := by
  unfold peer
  rw [connections_queueMessage]

@[simp] theorem disk_queueMessage (msg : PeerMessage) :
    (session.queueMessage connection msg).disk = session.disk := by
  unfold queueMessage
  split <;> rfl

@[simp] theorem pieces_queueMessage (msg : PeerMessage) :
    (session.queueMessage connection msg).pieces = session.pieces := by
  unfold queueMessage
  split <;> rfl

theorem wire_queueMessage (msg : PeerMessage) :
    (session.queueMessage connection msg).wire =
      if (session.connections connection).state = .connected then
        .queued connection msg :: session.wire
      else session.wire := by
  unfold queueMessage
  split <;> simp_all

theorem wire_issue (pieces : PieceManager) (request : BlockRequest)
    (connected : (session.connections connection).state = .connected) :
    (session.issue connection pieces (some request)).wire =
      .queued connection request.message :: session.wire :=
  (wire_queueMessage ..).trans (if_pos connected)

@[simp] theorem connections_issue (pieces : PieceManager) (request : Option BlockRequest) :
    (session.issue connection pieces request).connections = session.connections := by
  cases request with
  | none => rfl
  | some request => exact connections_queueMessage ..

@[simp] theorem peer_issue (pieces : PieceManager) (request : Option BlockRequest) (other : ι) :
    (session.issue connection pieces request).peer other = session.peer other := by
  unfold peer
  rw [connections_issue]

@[simp] theorem disk_issue (pieces : PieceManager) (request : Option BlockRequest) :
    (session.issue connection pieces request).disk = session.disk := by
  cases request with
  | none => rfl
  | some request => exact disk_queueMessage ..

@[simp] theorem pieces_issue (pieces : PieceManager) (request : Option BlockRequest) :
    (session.issue connection pieces request).pieces = pieces := by
  cases request with
  | none => rfl
  | some request => exact pieces_queueMessage ..

end

/-- What every round keeps, the loop keeps. -/
theorem requestBlocks_induct {order : IterationOrder} {connection : ι} (Holds : Session ι → Prop)
    (issued : ∀ {session pieces request}, Holds session →
      session.pieces.Creates (session.peer connection) pieces request →
      Holds (session.issue connection pieces request))
    (left : Nat) : ∀ {session : Session ι}, Holds session →
      Holds (requestBlocks order connection left session) := by
  induction left with
  | zero => exact id
  | succ left ih =>
    intro session holds
    have created := createNextRequest_creates order session.pieces (session.peer connection)
    have next := issued holds created
    simp only [requestBlocks]
    cases request : (createNextRequest order session.pieces (session.peer connection)).2 with
    | none =>
      rw [request] at next
      exact next
    | some request =>
      rw [request] at next
      exact ih next

theorem requestNextBlocks_induct {order : IterationOrder} {connection : ι}
    (Holds : Session ι → Prop)
    (issued : ∀ {session pieces request}, Holds session →
      session.pieces.Creates (session.peer connection) pieces request →
      Holds (session.issue connection pieces request))
    {session : Session ι} (holds : Holds session) :
    Holds (requestNextBlocks order session connection) := by
  unfold requestNextBlocks
  split
  · exact holds
  · exact requestBlocks_induct Holds issued 5 holds

/-- Without a choke there is a first round, and up to four rounds behind it. -/
theorem requestNextBlocks_first {order : IterationOrder} {session : Session ι} {connection : ι}
    (unchoked : (session.peer connection).peerChoking = false) (Holds : Session ι → Prop)
    (nothing : ∀ {pieces}, session.pieces.Creates (session.peer connection) pieces none →
      Holds { session with pieces })
    (issued : ∀ {pieces request},
      session.pieces.Creates (session.peer connection) pieces (some request) →
        Holds (requestBlocks order connection 4 (session.issue connection pieces (some request)))) :
    Holds (requestNextBlocks order session connection) := by
  have creates := createNextRequest_creates order session.pieces (session.peer connection)
  unfold requestNextBlocks
  rw [unchoked, if_neg Bool.false_ne_true]
  simp only [requestBlocks]
  cases created : (createNextRequest order session.pieces (session.peer connection)).2 with
  | none =>
    rw [created] at creates
    exact nothing creates
  | some request =>
    rw [created] at creates
    exact issued creates

theorem connections_requestNextBlocks (order : IterationOrder) (session : Session ι)
    (connection : ι) :
    (requestNextBlocks order session connection).connections = session.connections :=
  requestNextBlocks_induct (fun next => next.connections = session.connections)
    (fun holds _ => (connections_issue ..).trans holds) rfl

theorem peer_requestNextBlocks (order : IterationOrder) (session : Session ι) (connection other : ι) :
    (requestNextBlocks order session connection).peer other = session.peer other := by
  unfold peer
  rw [connections_requestNextBlocks]

theorem disk_requestNextBlocks (order : IterationOrder) (session : Session ι) (connection : ι) :
    (requestNextBlocks order session connection).disk = session.disk :=
  requestNextBlocks_induct (fun next => next.disk = session.disk)
    (fun holds _ => (disk_issue ..).trans holds) rfl

/-! ## Events -/

variable [DecidableEq ι]

def record (session : Session ι) (connection : ι) (msg : PeerMessage) : Session ι :=
  { session with wire := .received connection msg :: session.wire }

/-- The message makes the session look for blocks to request. -/
def Schedules (msg : PeerMessage) : Prop :=
  msg.id = .unchoke ∨ msg.id = .piece ∧ 8 < msg.payload.length

/-- The message carries a block. -/
structure Delivers (msg : PeerMessage) (pieceIndex blockOffset : Nat) (data : Bytes) : Prop where
  id : msg.id = .piece
  long : 8 < msg.payload.length
  piece : readU32At msg.payload 0 = pieceIndex
  offset : readU32At msg.payload 4 = blockOffset
  data : msg.payload.drop 8 = data

/-- What a message that schedules nothing changes in its sender. -/
structure Notes (peer : Peer) (msg : PeerMessage) (next : Peer) : Prop where
  choking : next.peerChoking = (peer.peerChoking || msg.id = .choke)
  bitfield : next.bitfield =
    if msg.id = .bitfield then msg.payload
    else if msg.id = .havePiece ∧ msg.payload.length = 4 then
      (peer.setPiece (readU32At msg.payload 0)).bitfield
    else peer.bitfield

inductive Handles (setup : Setup) (order : IterationOrder) (results : List SliceResult)
    (session : Session ι) (connection : ι) (msg : PeerMessage) : Session ι → Prop where
  | noted {next : Peer} (quiet : ¬ Schedules msg)
      (notes : Notes (session.peer connection) msg next) :
      Handles setup order results session connection msg (session.setPeer connection next)
  | greeted {next : Peer} (quiet : ¬ Schedules msg)
      (notes : Notes (session.peer connection) msg next) :
      Handles setup order results session connection msg
        ((session.setPeer connection next).queueMessage connection interested)
  | unchoked (id : msg.id = .unchoke) :
      Handles setup order results session connection msg
        (requestNextBlocks order
          (session.setPeer connection { session.peer connection with peerChoking := false })
          connection)
  | delivered {pieceIndex blockOffset : Nat} {data : Bytes} {pieces : PieceManager} {done : Bool}
      (delivers : Delivers msg pieceIndex blockOffset data)
      (processes : session.pieces.Processes setup.sha1 pieceIndex blockOffset data pieces done) :
      Handles setup order results session connection msg
        (requestNextBlocks order
          { session with
            disk := setup.disk.writeBlock session.disk pieceIndex blockOffset data results
            pieces }
          connection)

theorem state_setPeer (session : Session ι) (connection : ι) (peer : Peer) (other : ι) :
    ((session.setPeer connection peer).connections other).state =
      (session.connections other).state := by
  unfold setPeer
  by_cases same : other = connection
  · subst same
    simp only [Function.update_self]
  · simp only [Function.update_of_ne same]

theorem state_setState (session : Session ι) (connection : ι) (state : ConnectionState)
    (other : ι) :
    ((session.setState connection state).connections other).state =
      if other = connection then state else (session.connections other).state := by
  unfold setState
  split
  · rename_i same
    subst same
    simp only [Function.update_self]
  · rename_i different
    simp only [Function.update_of_ne different]

theorem peer_setPeer (session : Session ι) (connection : ι) (known : Peer) (other : ι) :
    (session.setPeer connection known).peer other =
      if other = connection then known else session.peer other := by
  unfold setPeer peer
  split
  · rename_i same
    subst same
    simp only [Function.update_self]
  · rename_i different
    simp only [Function.update_of_ne different]

theorem peer_setState (session : Session ι) (connection : ι) (state : ConnectionState)
    (other : ι) : (session.setState connection state).peer other = session.peer other := by
  unfold setState peer
  by_cases same : other = connection
  · subst same
    simp only [Function.update_self]
  · simp only [Function.update_of_ne same]

theorem setPeer_peer (session : Session ι) (connection : ι) :
    session.setPeer connection (session.peer connection) = session := by
  unfold setPeer peer
  rw [Function.update_eq_self]

theorem onPeerMessage_handles (setup : Setup) (order : IterationOrder) (results : List SliceResult)
    (session : Session ι) (connection : ι) (msg : PeerMessage) :
    Handles setup order results session connection msg
      (onPeerMessage setup order results session connection msg) := by
  obtain ⟨id, payload⟩ := msg
  -- A message that is ignored notes the peer as it is.
  have ignored (quiet : ¬ Schedules ⟨id, payload⟩)
      (notes : Notes (session.peer connection) ⟨id, payload⟩ (session.peer connection)) :
      Handles setup order results session connection ⟨id, payload⟩ session := by
    have handled : Handles setup order results session connection ⟨id, payload⟩
        (session.setPeer connection (session.peer connection)) := .noted quiet notes
    rwa [setPeer_peer] at handled
  cases id with
  | choke => exact .noted (by simp [Schedules]) ⟨by simp, by simp⟩
  | unchoke => exact .unchoked rfl
  | interested => exact .noted (by simp [Schedules]) ⟨by simp, by simp⟩
  | notInterested => exact .noted (by simp [Schedules]) ⟨by simp, by simp⟩
  | havePiece =>
    simp only [onPeerMessage]
    split
    · rename_i whole
      split
      · exact .noted (by simp [Schedules]) ⟨by simp [Peer.setPiece], by simp [whole]⟩
      · exact .greeted (by simp [Schedules]) ⟨by simp [Peer.setPiece], by simp [whole]⟩
    · rename_i partial_
      exact ignored (by simp [Schedules]) ⟨by simp, by simp [partial_]⟩
  | bitfield => exact .greeted (by simp [Schedules]) ⟨by simp, by simp⟩
  | piece =>
    simp only [onPeerMessage]
    split
    · rename_i short
      exact ignored (by simp [Schedules, short]) ⟨by simp, by simp⟩
    · rename_i long
      exact .delivered ⟨rfl, Nat.lt_of_not_le long, rfl, rfl, rfl⟩ (processBlock_processes ..)
  | request => exact ignored (by simp [Schedules]) ⟨by simp, by simp⟩
  | cancel => exact ignored (by simp [Schedules]) ⟨by simp, by simp⟩
  | unnamed raw above => exact ignored (by simp [Schedules]) ⟨by simp, by simp⟩

/-- Only the peer of the sender changes. -/
theorem peer_of_handles {setup : Setup} {session next : Session ι} {connection sender : ι}
    {msg : PeerMessage} {order : IterationOrder} {results : List SliceResult}
    (handles : Handles setup order results (session.record sender msg) sender msg next)
    (different : sender ≠ connection) : next.peer connection = session.peer connection := by
  have told : ∀ known, ((session.record sender msg).setPeer sender known).peer connection =
      session.peer connection := fun known => (peer_setPeer ..).trans (if_neg different.symm)
  cases handles with
  | noted => exact told _
  | greeted =>
    rw [peer_queueMessage]
    exact told _
  | unchoked =>
    rw [peer_requestNextBlocks]
    exact told _
  | delivered =>
    rw [peer_requestNextBlocks]
    rfl

inductive Steps (setup : Setup) (session : Session ι) : Event ι → Session ι → Prop where
  | handshake {connection : ι} (sent : (session.connections connection).state = .handshakeSent) :
      Steps setup session (.handshake connection) (session.setState connection .connected)
  | message {connection : ι} {msg : PeerMessage} {order : IterationOrder}
      {results : List SliceResult} {next : Session ι}
      (connected : (session.connections connection).state = .connected)
      (handles : Handles setup order results (session.record connection msg) connection msg next) :
      Steps setup session (.message connection msg order results) next
  | disconnect {connection : ι} (open_ : (session.connections connection).state ≠ .disconnected) :
      Steps setup session (.disconnect connection)
        { session.setState connection .disconnected with
          wire := .closed connection :: session.wire }

theorem steps_of_step {setup : Setup} {session next : Session ι} {event : Event ι}
    (taken : step setup session event = some next) : Steps setup session event next := by
  cases event with
  | handshake connection =>
    simp only [step] at taken
    split at taken
    · rename_i sent
      cases taken
      exact .handshake sent
    · cases taken
  | message connection msg order results =>
    simp only [step] at taken
    split at taken
    · rename_i connected
      cases taken
      exact .message connected (onPeerMessage_handles ..)
    · cases taken
  | disconnect connection =>
    simp only [step] at taken
    split at taken
    · cases taken
    · rename_i open_
      cases taken
      exact .disconnect open_

end K0Torrent.Session
