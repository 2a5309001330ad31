import K0Torrent.Net.Draining
import K0Torrent.Peer.Network
import K0Torrent.Session.Session

/-! The whole client: a session on its connections, their sockets and the event loop
(`session.cpp`, `peer_connection.cpp`, `event_loop.cpp`).

The message handler of every connection is the session's, and is called inside the callback
that has read the message. What the system calls come to is given from outside. After
`fetch_peers` one event is a pass of the loop, or the call of `stop`.
-/

set_option autoImplicit false

namespace K0Torrent

/-- What one call of a callback meets: what `send` and `recv` come to, and for each call of the
message handler the order of its loop over the active pieces and what its file operations come to. -/
structure Surroundings where
  send : SendResult
  recv : RecvResult
  orders : Nat → IterationOrder
  results : Nat → List SliceResult

structure Client (ι : Type) where
  net : Network ι
  connections : List ι
  peers : ι → Peer
  pieces : PieceManager
  disk : Disk
  -- The bytes that have been read from each socket. The source does not keep them.
  arrived : ι → Bytes
  -- What is in the pipe that wakes the loop up.
  unread : Nat

namespace Client

variable {ι : Type} [DecidableEq ι]

/-- The client before `fetch_peers`. -/
def new (setup : Setup) (myPeerId : Digest) (addresses : ι → PeerAddress) (pipeRead : Int)
    (disk : Disk) : Client ι where
  net := Network.new (fun i => (addresses i, setup.torrent.infoHash, myPeerId)) pipeRead
  connections := []
  peers _ := {}
  pieces := PieceManager.new setup.torrent
  disk := disk
  arrived _ := []
  unread := 0

def setPeer (client : Client ι) (i : ι) (peer : Peer) : Client ι :=
  { client with peers := Function.update client.peers i peer }

def setConnection (client : Client ι) (i : ι) (connection : PeerConnection) : Client ι :=
  { client with net := client.net.setConnection i connection }

def disconnect (client : Client ι) (i : ι) : Client ι :=
  { client with net := client.net.disconnect i }

def receive (client : Client ι) (i : ι) (bytes : Bytes) : Client ι :=
  { client with arrived := Function.update client.arrived i (client.arrived i ++ bytes) }

section
variable (client : Client ι) (i : ι)

@[simp] theorem net_setPeer (peer : Peer) : (client.setPeer i peer).net = client.net := rfl

@[simp] theorem net_setConnection (connection : PeerConnection) :
    (client.setConnection i connection).net = client.net.setConnection i connection := rfl

@[simp] theorem arrived_setConnection (connection : PeerConnection) :
    (client.setConnection i connection).arrived = client.arrived := rfl

@[simp] theorem net_disconnect : (client.disconnect i).net = client.net.disconnect i := rfl

@[simp] theorem net_receive (bytes : Bytes) : (client.receive i bytes).net = client.net := rfl

end

/-- A call that may be left by an exception has changed what it has changed. -/
abbrev Called (ι : Type) := Client ι × Option Thrown

/-- A call and, unless it has thrown, what comes behind it. -/
def andThen (called : Option (Called ι)) (rest : Client ι → Option (Called ι)) :
    Option (Called ι) :=
  match called with
  | none => none
  | some (client, some thrown) => some (client, some thrown)
  | some (client, none) => rest client

def queueMessage (client : Client ι) (i : ι) (msg : PeerMessage) : Option (Called ι) :=
  (client.net.queueMessage i msg).map fun called => ({ client with net := called.1 }, called.2)

/-! ## The message handler -/

/-- The loop of `request_next_blocks`, with `left` rounds to go. -/
def requestBlocks (order : IterationOrder) (i : ι) : Nat → Client ι → Option (Called ι)
  | 0, client => some (client, none)
  | left + 1, client =>
    let created := PieceManager.createNextRequest order client.pieces (client.peers i)
    match created.2 with
    | none => some ({ client with pieces := created.1 }, none)
    | some request =>
      andThen ({ client with pieces := created.1 }.queueMessage i request.message)
        (requestBlocks order i left)

def requestNextBlocks (order : IterationOrder) (client : Client ι) (i : ι) : Option (Called ι) :=
  if (client.peers i).peerChoking then some (client, none)
  else requestBlocks order i 5 client

def onPeerMessage (setup : Setup) (order : IterationOrder) (results : List SliceResult)
    (client : Client ι) (i : ι) (msg : PeerMessage) : Option (Called ι) :=
  let peer := client.peers i
  match msg.id with
  | .choke => some (client.setPeer i { peer with peerChoking := true }, none)
  | .unchoke => requestNextBlocks order (client.setPeer i { peer with peerChoking := false }) i
  | .interested => some (client.setPeer i { peer with peerInterested := true }, none)
  | .notInterested => some (client.setPeer i { peer with peerInterested := false }, none)
  | .havePiece =>
    if msg.payload.length = 4 then
      let peer := peer.setPiece (readU32At msg.payload 0)
      if peer.amInterested then some (client.setPeer i peer, none)
      else (client.setPeer i { peer with amInterested := true }).queueMessage i Session.interested
    else some (client, none)
  | .bitfield =>
    (client.setPeer i { peer with bitfield := msg.payload }).queueMessage i Session.interested
  | .piece =>
    if msg.payload.length ≤ 8 then some (client, none)
    else
      let index := readU32At msg.payload 0
      let begin_ := readU32At msg.payload 4
      let data := msg.payload.drop 8
      -- An exception of `write_block` is caught and logged.
      let disk := setup.disk.writeBlock client.disk index begin_ data results
      let (pieces, _) := PieceManager.processBlock setup.sha1 client.pieces index begin_ data
      requestNextBlocks order { client with disk, pieces } i
  | .request | .cancel | .unnamed _ _ => some (client, none)

/-! ## The callback -/

/-- The loop over the messages in the read buffer, the handler having been called that
many times. -/
def handleMessages (setup : Setup) (i : ι) (around : Surroundings) :
    Nat → Nat → Client ι → Option (Called ι)
  | 0, _, _ => none
  | rounds + 1, calls, client =>
    let connection := (client.net.endpoints i).connection
    match parsePeerMessage connection.readBuffer with
    | .error _ => none
    | .ok result =>
      if ¬ result.complete then some (client, none)
      else
        let handled :=
          if result.isKeepAlive then some (client, none)
          else
            onPeerMessage setup (around.orders calls) (around.results calls)
              (client.setConnection i
                { connection with delivered := connection.delivered ++ [result.message] })
              i result.message
        andThen handled fun after =>
          let connection := (after.net.endpoints i).connection
          handleMessages setup i around rounds (if result.isKeepAlive then calls else calls + 1)
            (after.setConnection i
              { connection with readBuffer := connection.readBuffer.drop result.consumedBytes })

/-- Behind a handler: a `std::exception` is caught, and anything else goes on. -/
def caught (i : ι) : Called ι → Client ι
  | (client, some (.standard _)) => client.disconnect i
  | (client, _) => client

def handleRead (setup : Setup) (client : Client ι) (i : ι) (around : Surroundings) :
    Option (Client ι) :=
  if (client.net.endpoints i).fd = -1 then some (client.disconnect i)
  else
    match around.recv with
    | .failed => some (client.disconnect i)
    | .data bytes =>
      if bytes = [] then some client
      else
        let connection := (client.net.endpoints i).connection
        let filled := { connection with readBuffer := connection.readBuffer ++ bytes }
        let client := client.receive i bytes
        let handshaken :=
          if filled.state = .handshakeSent then filled.processHandshake else .ok (filled, true)
        match handshaken with
        | .error _ => some ((client.setConnection i filled).disconnect i)
        | .ok (connection, ready) =>
          let client := client.setConnection i connection
          if ready ∧ connection.state = .connected then
            (handleMessages setup i around (connection.readBuffer.length + 1) 0 client).map (caught i)
          else some client

def handleWrite (client : Client ι) (i : ι) (result : SendResult) : Called ι :=
  ({ client with net := (client.net.handleWrite i result).1 }, (client.net.handleWrite i result).2)

def onSocketEvent (setup : Setup) (client : Client ι) (i : ι) (events : Nat) (around : Surroundings) :
    Option (Client ι) :=
  match if hasEvent events pollOut then client.handleWrite i around.send else (client, none) with
  | (after, some thrown) => some (caught i (after, some thrown))
  | (after, none) =>
    if hasEvent events pollIn then after.handleRead setup i around else some after

/-! ## A pass of the loop -/

/-- The loop of `run_once` over the entries, from an index on. -/
def dispatch (setup : Setup) (around : Nat → Surroundings) :
    Nat → List PollFd → Nat → Client ι → Option (Client ι)
  | _, [], _, client => some client
  | k, pfd :: rest, ready, client =>
    if ready = 0 then some client
    else if pfd.revents = 0 then dispatch setup around (k + 1) rest ready client
    else
      match client.net.loop.lookup pfd.fd with
      | none => dispatch setup around (k + 1) rest (ready - 1) client
      | some entry =>
        match client.onSocketEvent setup entry.cb (widenShort pfd.revents) (around k) with
        | none => none
        | some after => dispatch setup around (k + 1) rest (ready - 1) after

/-- What `poll` leaves behind. It finds the pipe readable as long as there is something in it. -/
def polled (client : Client ι) (order : EventLoop.EntryOrder ι) (revents : Nat → Nat) : Client ι :=
  { client with net := { client.net with loop := client.net.loop.poll order fun k =>
      if k = 0 then (if client.unread = 0 then 0 else pollIn) else revents k } }

/-- `run_once`. Nobody else writes to the pipe while it is emptied. -/
def runOnce (setup : Setup) (client : Client ι) (order : EventLoop.EntryOrder ι)
    (revents : Nat → Nat) (around : Nat → Surroundings) : Option (Client ι) :=
  let client := client.polled order revents
  let ready := client.net.loop.ready
  if ready = 0 then some client
  else
    match client.net.loop.pollfds with
    | [] => some client
    | first :: rest =>
      if hasEvent first.revents pollIn then
        match drain (fun _ => 0) (client.unread + 1) 0 { Pipe.created with unread := client.unread } with
        | .left pipe =>
          dispatch setup around 1 rest (ready - 1) { client with unread := pipe.unread }
        | .waits _ | .going _ => none
      else dispatch setup around 1 rest ready client

/-- A pass that returns has left the pipe alone, since the reads that empty it would not end. -/
theorem runOnce_cases {setup : Setup} {client after : Client ι} {order : EventLoop.EntryOrder ι}
    {revents : Nat → Nat} {around : Nat → Surroundings}
    (ran : client.runOnce setup order revents around = some after) :
    after = client.polled order revents ∨ ∃ rest ready,
      dispatch setup around 1 rest ready (client.polled order revents) = some after := by
  unfold runOnce at ran
  dsimp only at ran
  split at ran
  · exact .inl (Option.some.inj ran).symm
  · split at ran
    · exact .inl (Option.some.inj ran).symm
    · split at ran
      · split at ran
        · rename_i left
          exact absurd left (drain_ne_left rfl)
        · cases ran
        · cases ran
      · exact .inr ⟨_, _, ran⟩

/-! ## Runs -/

/-- The loop of `fetch_peers` over new connections, with what each `start` meets. -/
def fetchPeers : List (ι × ConnectOutcome × Vector UInt8 8) → Client ι → Option (Client ι)
  | [], client => some client
  | (i, outcome, reserved) :: rest, client =>
    match client.net.start i outcome reserved with
    | none => none
    | some net => fetchPeers rest { client with net, connections := client.connections ++ [i] }

/-- `Session::stop`, but for the flag of the loop. -/
def stop (client : Client ι) : Client ι :=
  { client with
    unread := client.unread + 1
    net := client.connections.foldl Network.disconnect client.net
    connections := [] }

inductive Event (ι : Type) where
  | pass (order : EventLoop.EntryOrder ι) (revents : Nat → Nat) (around : Nat → Surroundings)
  | stop

def step (setup : Setup) (client : Client ι) : Event ι → Option (Client ι)
  | .pass order revents around => client.runOnce setup order revents around
  | .stop => some client.stop

/-- A client as `fetch_peers` leaves it, the files holding anything. -/
structure Fetched (setup : Setup) (client : Client ι) : Prop where
  intro ::
  connects : ∃ myPeerId addresses pipeRead files attempts,
    fetchPeers attempts (new setup myPeerId addresses pipeRead (.fresh files)) = some client

/-- The runs of a client, with their histories. -/
def Runs (setup : Setup) (start : Client ι)
    (history : List (Machine.Transition (Client ι) (Event ι))) (final : Client ι) : Prop :=
  Fetched setup start ∧ Machine.Run (step setup) start history final

end Client

end K0Torrent
