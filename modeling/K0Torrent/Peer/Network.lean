import K0Torrent.Library.Decimal
import K0Torrent.Library.Machine
import K0Torrent.Net.EventLoop
import K0Torrent.Peer.PeerConnection
import Mathlib.Data.Finset.Basic

/-! Connections that share an event loop (`peer_connection.cpp`, `tcp_socket.cpp`).

What the sockets do is given from outside, and what the message handler does with the
connections as well. One event is a call from outside, a pass of the loop through `poll`, or
a call of a connection's callback; each runs to its end before the next. An event after
which the source has no defined state, or never returns, has no successor here.
-/

set_option autoImplicit false

namespace K0Torrent

/-! ## Sockets -/

/-- What `gai_strerror` says. It speaks of names and services, never of an operation that is
in progress. -/
structure ResolverError where
  text : Bytes
  plain : ¬ ascii "Operation now in progress" <:+: text ∧ ¬ ascii "EINPROGRESS" <:+: text

inductive ConnectError where
  | alreadyOpen
  | unresolved (host : Bytes) (reason : ResolverError)
  | refused (host : Bytes) (port : Nat)

def ConnectError.what : ConnectError → Bytes
  | alreadyOpen =>
    -- The dash in UTF-8.
    ascii "net: socket already open " ++ [0xE2, 0x80, 0x94] ++ ascii " call close() first"
  | unresolved host reason => ascii "net: getaddrinfo(" ++ host ++ ascii "): " ++ reason.text
  | refused host port =>
    ascii "net: could not connect to " ++ host ++ ascii ":" ++ Decimal.encode port

/-- What `start` looks for in the text of an exception. -/
def inProgress (what : Bytes) : Bool :=
  decide (ascii "Operation now in progress" <:+: what ∨ ascii "EINPROGRESS" <:+: what)

/-- What the system calls of `TcpSocket::connect` come to. The connection may be established
or still be under way. -/
inductive ConnectOutcome where
  | unresolved (reason : ResolverError)
  | refused
  | opened (fd : Int)

/-- `TcpSocket::connect` of a socket with that descriptor. -/
def connectSocket (fd : Int) (host : Bytes) (port : Nat) (outcome : ConnectOutcome) :
    Except ConnectError Int :=
  if fd ≠ -1 then .error .alreadyOpen
  else
    match outcome with
    | .unresolved reason => .error (.unresolved host reason)
    | .refused => .error (.refused host port)
    | .opened fd => .ok fd

/-- `::send`: how many bytes it takes, if it does not fail. `EAGAIN` counts as none. -/
inductive SendResult where
  | accepted (count : Nat)
  | failed

/-- `::recv`: what it returns, which is nothing in the case of `EAGAIN`, if it does not
fail. The end of the stream counts as a failure. -/
inductive RecvResult where
  | data (bytes : Bytes)
  | failed

/-- The bytes of an address in memory, the first one of the lowest value. -/
def octet (ip k : Nat) : Bytes := Decimal.encode (ip / 256 ^ k % 256)

/-- `inet_ntoa`. -/
def ipToString (ip : Nat) : Bytes :=
  octet ip 0 ++ ascii "." ++ octet ip 1 ++ ascii "." ++ octet ip 2 ++ ascii "." ++ octet ip 3

/-! ## A connection with its socket -/

structure Endpoint where
  connection : PeerConnection
  address : PeerAddress
  myPeerId : Digest
  fd : Int := -1
  writeBuffer : Bytes := []
  -- What has happened so far. The source does not keep it.
  started : Bool := false
  reserved : Vector UInt8 8 := Vector.replicate 8 0
  queued : List PeerMessage := []
  sent : Bytes := []

namespace Endpoint

def new (address : PeerAddress) (infoHash myPeerId : Digest) : Endpoint where
  connection := { state := .disconnected, infoHash }
  address := address
  myPeerId := myPeerId

def state (endpoint : Endpoint) : ConnectionState := endpoint.connection.state

/-- The handshake of `start`. Its constructor leaves the reserved bytes as they happen to be. -/
def handshake (endpoint : Endpoint) : Handshake :=
  ⟨endpoint.reserved, endpoint.connection.infoHash, endpoint.myPeerId⟩

/-- The socket has taken that many bytes off the front of the write buffer. -/
def took (endpoint : Endpoint) (count : Nat) : Endpoint :=
  { endpoint with
    sent := endpoint.sent ++ endpoint.writeBuffer.take count
    writeBuffer := endpoint.writeBuffer.drop count }

def queue (endpoint : Endpoint) (msg : PeerMessage) (buf : Bytes) : Endpoint :=
  { endpoint with
    writeBuffer := endpoint.writeBuffer ++ buf
    queued := endpoint.queued ++ [msg] }

def greet (endpoint : Endpoint) : Endpoint :=
  { endpoint with
    connection := { endpoint.connection with state := .handshakeSent }
    writeBuffer := endpoint.writeBuffer ++ endpoint.handshake.serialize }

end Endpoint

/-- The descriptors of sockets that are open, and the errors that the loop has raised. -/
structure Network (ι : Type) where
  endpoints : ι → Endpoint
  loop : EventLoop ι
  opened : Finset Int := ∅
  raised : List LoopError := []

namespace Network

variable {ι : Type} [DecidableEq ι]

def new (identities : ι → PeerAddress × Digest × Digest) (pipeRead : Int) : Network ι where
  endpoints i := Endpoint.new (identities i).1 (identities i).2.1 (identities i).2.2
  loop := EventLoop.new pipeRead

def update (net : Network ι) (i : ι) (endpoint : Endpoint) : Network ι :=
  { net with endpoints := Function.update net.endpoints i endpoint }

def setConnection (net : Network ι) (i : ι) (connection : PeerConnection) : Network ι :=
  net.update i { net.endpoints i with connection }

/-- A call that may be left by an exception has changed what it has changed. -/
abbrev Called (ι : Type) := Network ι × Option Thrown

/-- `loop_.modify(socket_.fd(), …)`. -/
def modify (net : Network ι) (i : ι) (events : Nat) : Called ι :=
  match net.loop.modify (net.endpoints i).fd events with
  | .ok loop => ({ net with loop }, none)
  | .error error => ({ net with raised := error :: net.raised }, some (.standard (ascii error.what)))

def disconnect (net : Network ι) (i : ι) : Network ι :=
  let endpoint := net.endpoints i
  if endpoint.state = .disconnected then net
  else
    let closed := { endpoint with connection := endpoint.connection.disconnect }
    if endpoint.fd ≠ -1 then
      { net with
        endpoints := Function.update net.endpoints i { closed with fd := -1 }
        loop := net.loop.remove endpoint.fd
        opened := net.opened.erase endpoint.fd }
    else net.update i closed

/-- What `start` does once `connect` is behind it. -/
def register (net : Network ι) (i : ι) : Network ι :=
  match net.loop.add (net.endpoints i).fd (pollIn ||| pollOut) i with
  | .ok loop => { net with loop }.update i (net.endpoints i).greet
  | .error error => { net with raised := error :: net.raised }.disconnect i

/-- A connection is started at most once, and a new descriptor is not in use. -/
def start (net : Network ι) (i : ι) (outcome : ConnectOutcome) (reserved : Vector UInt8 8) :
    Option (Network ι) :=
  let endpoint := { net.endpoints i with started := true, reserved }
  if (net.endpoints i).started then none
  else
    match connectSocket endpoint.fd (ipToString endpoint.address.ip) endpoint.address.port
      outcome with
    | .error error =>
      let net := net.update i endpoint
      some (if inProgress error.what then net.register i else net.disconnect i)
    | .ok fd =>
      if 0 ≤ fd ∧ fd ∉ net.opened then
        some ({ net.update i { endpoint with fd } with opened := insert fd net.opened }.register i)
      else none

def queueMessage (net : Network ι) (i : ι) (msg : PeerMessage) : Option (Called ι) :=
  if (net.endpoints i).state ≠ .connected then some (net, none)
  else
    match msg.serialize with
    | .error _ => none
    | .ok buf =>
      some ((net.update i ((net.endpoints i).queue msg buf)).modify i (pollIn ||| pollOut))

/-! ## The message handler -/

inductive Action (ι : Type) where
  | start (connection : ι) (outcome : ConnectOutcome) (reserved : Vector UInt8 8)
  | queueMessage (connection : ι) (msg : PeerMessage)
  | disconnect (connection : ι)

def Action.run (net : Network ι) : Action ι → Option (Called ι)
  | start i outcome reserved => (net.start i outcome reserved).map (·, none)
  | queueMessage i msg => net.queueMessage i msg
  | disconnect i => some (net.disconnect i, none)

/-- What the handler does with one message, and the exception that leaves it then. -/
structure Handling (ι : Type) where
  actions : List (Action ι) := []
  throws : Option Thrown := none

def runActions (throws : Option Thrown) : List (Action ι) → Network ι → Option (Called ι)
  | [], net => some (net, throws)
  | action :: rest, net =>
    match action.run net with
    | none => none
    | some (after, some thrown) => some (after, some thrown)
    | some (after, none) => runActions throws rest after

def Handling.run (net : Network ι) (handling : Handling ι) : Option (Called ι) :=
  runActions handling.throws handling.actions net

/-! ## The callback -/

def handleWrite (net : Network ι) (i : ι) (result : SendResult) : Called ι :=
  if (net.endpoints i).writeBuffer = [] then (net, none)
  else if (net.endpoints i).fd = -1 then (net, some (.standard (ascii "net: send on closed socket")))
  else
    match result with
    | .failed => (net, some (.standard (ascii "net: send")))
    | .accepted count =>
      let after := net.update i ((net.endpoints i).took count)
      if (after.endpoints i).writeBuffer = [] then after.modify i pollIn else (after, none)

/-- The loop over the messages in the read buffer, the handler having been called that
many times. It goes on whatever the handler has done to the connection. -/
def handleMessages (i : ι) (handler : Nat → Handling ι) : Nat → Nat → Network ι →
    Option (Called ι)
  | 0, _, _ => none
  | rounds + 1, calls, net =>
    let connection := (net.endpoints i).connection
    match parsePeerMessage connection.readBuffer with
    | .error _ => none
    | .ok result =>
      if ¬ result.complete then some (net, none)
      else
        let handled :=
          if result.isKeepAlive then some (net, none)
          else
            (handler calls).run (net.setConnection i
              { connection with delivered := connection.delivered ++ [result.message] })
        match handled with
        | none => none
        | some (after, some thrown) => some (after, some thrown)
        | some (after, none) =>
          let connection := (after.endpoints i).connection
          handleMessages i handler rounds (if result.isKeepAlive then calls else calls + 1)
            (after.setConnection i
              { connection with readBuffer := connection.readBuffer.drop result.consumedBytes })

/-- Behind a handler: a `std::exception` is caught, and anything else goes on. -/
def caught (i : ι) : Called ι → Network ι
  | (net, some (.standard _)) => net.disconnect i
  | (net, _) => net

/-- A round of the loop that consumes bytes shortens the buffer. So the bound on the rounds
is reached only by a loop that has consumed none and would never end. -/
def handleRead (net : Network ι) (i : ι) (result : RecvResult) (handler : Nat → Handling ι) :
    Option (Network ι) :=
  if (net.endpoints i).fd = -1 then some (net.disconnect i)
  else
    match result with
    | .failed => some (net.disconnect i)
    | .data bytes =>
      if bytes = [] then some net
      else
        let connection := (net.endpoints i).connection
        let filled := { connection with readBuffer := connection.readBuffer ++ bytes }
        let handshaken :=
          if filled.state = .handshakeSent then filled.processHandshake else .ok (filled, true)
        match handshaken with
        | .error _ => some ((net.setConnection i filled).disconnect i)
        | .ok (connection, ready) =>
          let net := net.setConnection i connection
          if ready ∧ connection.state = .connected then
            (handleMessages i handler (connection.readBuffer.length + 1) 0 net).map (caught i)
          else some net

def onSocketEvent (net : Network ι) (i : ι) (events : Nat) (send : SendResult) (recv : RecvResult)
    (handler : Nat → Handling ι) : Option (Network ι) :=
  match if hasEvent events pollOut then net.handleWrite i send else (net, none) with
  | (after, some thrown) => some (caught i (after, some thrown))
  | (after, none) =>
    if hasEvent events pollIn then after.handleRead i recv handler else some after

/-! ## Runs -/

inductive Event (ι : Type) where
  | call (action : Action ι)
  | poll (order : EventLoop.EntryOrder ι) (revents : Nat → Nat)
  | socket (fd : Int) (events : Nat) (send : SendResult) (recv : RecvResult)
      (handler : Nat → Handling ι)

/-- The loop calls the callback of a registration. That the event was polled for the same
one is not asked for. -/
def step (net : Network ι) : Event ι → Option (Network ι)
  | .call action => (action.run net).map Prod.fst
  | .poll order revents => some { net with loop := net.loop.poll order revents }
  | .socket fd events send recv handler =>
    match net.loop.lookup fd with
    | none => none
    | some entry => net.onSocketEvent entry.cb events send recv handler

/-! ## One connection replaced -/

section
variable {net : Network ι} {i j : ι}

@[simp] theorem endpoints_update_self (endpoint : Endpoint) :
    (net.update i endpoint).endpoints i = endpoint :=
  Function.update_self ..

theorem endpoints_update_of_ne (other : j ≠ i) (endpoint : Endpoint) :
    (net.update i endpoint).endpoints j = net.endpoints j :=
  Function.update_of_ne other ..

@[simp] theorem endpoints_setConnection_self (connection : PeerConnection) :
    (net.setConnection i connection).endpoints i = { net.endpoints i with connection } :=
  endpoints_update_self _

theorem endpoints_setConnection_of_ne (other : j ≠ i) (connection : PeerConnection) :
    (net.setConnection i connection).endpoints j = net.endpoints j :=
  endpoints_update_of_ne other _

@[simp] theorem setConnection_setConnection (first second : PeerConnection) :
    (net.setConnection i first).setConnection i second = net.setConnection i second := by
  simp [setConnection, update, Function.update_idem]

@[simp] theorem setConnection_self : net.setConnection i (net.endpoints i).connection = net := by
  simp [setConnection, update]

end

end Network

end K0Torrent
