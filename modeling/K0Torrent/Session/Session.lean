import K0Torrent.Disk.DiskManager
import K0Torrent.Library.Machine
import K0Torrent.Peer.PeerConnection
import K0Torrent.Piece.PieceManager

/-! A session and its connections (`session.cpp`, `peer_connection.cpp`).

One event is one message taken out of a read buffer, or a change of a
connection's state. The event loop is single-threaded, so a handler runs to its
end before the next event. What was queued and received is kept, latest first,
in place of the socket buffers; nothing the session does depends on it.
-/

set_option autoImplicit false

namespace K0Torrent

structure Connection where
  state : ConnectionState
  peer : Peer := {}
  deriving DecidableEq

/-- What passed over the connections. -/
inductive Wire (ι : Type) where
  | queued (connection : ι) (msg : PeerMessage)
  | received (connection : ι) (msg : PeerMessage)
  | closed (connection : ι)
  deriving DecidableEq

/-- What a session is made for, and the directory that the process runs in. -/
structure Setup where
  torrent : TorrentFile
  sha1 : Bytes → Digest
  downloadDir : Bytes
  workingDir : Bytes

def Setup.disk (setup : Setup) : DiskManager :=
  DiskManager.new setup.torrent setup.downloadDir setup.workingDir

structure Session (ι : Type) where
  connections : ι → Connection
  pieces : PieceManager
  disk : Disk
  wire : List (Wire ι)

/-- `order` is the iteration order of the active pieces while the message is
handled, `results` what the file operations of a block come to. -/
inductive Event (ι : Type) where
  | handshake (connection : ι)
  | message (connection : ι) (msg : PeerMessage) (order : IterationOrder) (results : List SliceResult)
  | disconnect (connection : ι)

namespace Session

variable {ι : Type} [DecidableEq ι]

def peer (session : Session ι) (connection : ι) : Peer := (session.connections connection).peer

def setState (session : Session ι) (connection : ι) (state : ConnectionState) : Session ι :=
  { session with
    connections := Function.update session.connections connection
      { session.connections connection with state } }

def setPeer (session : Session ι) (connection : ι) (peer : Peer) : Session ι :=
  { session with
    connections := Function.update session.connections connection
      { session.connections connection with peer } }

/-- `PeerConnection::queue_message`. -/
def queueMessage (session : Session ι) (connection : ι) (msg : PeerMessage) : Session ι :=
  if (session.connections connection).state ≠ .connected then session
  else { session with wire := .queued connection msg :: session.wire }

/-- The loop of `request_next_blocks`, with `left` rounds to go. -/
def requestBlocks (order : IterationOrder) (connection : ι) : Nat → Session ι → Session ι
  | 0, session => session
  | left + 1, session =>
    let (pieces, request) := PieceManager.createNextRequest order session.pieces
      (session.peer connection)
    match request with
    | none => { session with pieces }
    | some request =>
      requestBlocks order connection left
        ({ session with pieces }.queueMessage connection request.message)

def requestNextBlocks (order : IterationOrder) (session : Session ι) (connection : ι) : Session ι :=
  if (session.peer connection).peerChoking then session
  else requestBlocks order connection 5 session

def interested : PeerMessage := ⟨.interested, []⟩

def onPeerMessage (setup : Setup) (order : IterationOrder) (results : List SliceResult)
    (session : Session ι) (connection : ι) (msg : PeerMessage) : Session ι :=
  let peer := session.peer connection
  match msg.id with
  | .choke => session.setPeer connection { peer with peerChoking := true }
  | .unchoke =>
    requestNextBlocks order (session.setPeer connection { peer with peerChoking := false }) connection
  | .interested => session.setPeer connection { peer with peerInterested := true }
  | .notInterested => session.setPeer connection { peer with peerInterested := false }
  | .havePiece =>
    if msg.payload.length = 4 then
      let peer := peer.setPiece (readU32At msg.payload 0)
      if peer.amInterested then session.setPeer connection peer
      else (session.setPeer connection { peer with amInterested := true }).queueMessage connection
        interested
    else session
  | .bitfield =>
    (session.setPeer connection { peer with bitfield := msg.payload }).queueMessage connection
      interested
  | .piece =>
    if msg.payload.length ≤ 8 then session
    else
      let index := readU32At msg.payload 0
      let begin_ := readU32At msg.payload 4
      let data := msg.payload.drop 8
      -- An exception of `write_block` is caught and logged.
      let disk := setup.disk.writeBlock session.disk index begin_ data results
      let (pieces, _) := PieceManager.processBlock setup.sha1 session.pieces index begin_ data
      requestNextBlocks order { session with disk, pieces } connection
  | .request | .cancel | .unnamed _ _ => session

/-- Messages are handled only while connected; a connection is closed once. -/
def step (setup : Setup) (session : Session ι) : Event ι → Option (Session ι)
  | .handshake connection =>
    if (session.connections connection).state = .handshakeSent then
      some (session.setState connection .connected)
    else none
  | .message connection msg order results =>
    if (session.connections connection).state = .connected then
      some (onPeerMessage setup order results
        { session with wire := .received connection msg :: session.wire } connection msg)
    else none
  | .disconnect connection =>
    if (session.connections connection).state = .disconnected then none
    else some { session.setState connection .disconnected with
                wire := .closed connection :: session.wire }

/-- A session after `fetch_peers`: every connection has sent its handshake or has
already failed, and the files hold anything. -/
structure Initial (setup : Setup) (session : Session ι) : Prop where
  waiting : ∀ connection, (session.connections connection).state ≠ .connected
  fresh : ∀ connection, session.peer connection = {}
  pieces : session.pieces = PieceManager.new setup.torrent
  disk : ∃ files, session.disk = .fresh files
  silent : session.wire = []

omit [DecidableEq ι] in
theorem Initial.unopened {setup : Setup} {session : Session ι} (initial : Initial setup session)
    (path : Bytes) : session.disk.openFiles path = none := by
  obtain ⟨files, same⟩ := initial.disk
  rw [same]
  rfl

/-- The runs of a session, with their histories. -/
def Runs (setup : Setup) (start : Session ι)
    (history : List (Machine.Transition (Session ι) (Event ι))) (final : Session ι) : Prop :=
  Initial setup start ∧ Machine.Run (step setup) start history final

end Session

end K0Torrent
