import K0Torrent.Peer.Message
import K0Torrent.Tracker.TrackerManager

/-! Announcing to a UDP tracker (`udp_tracker.hpp`, `udp_tracker.cpp`).

What the network does is given from outside: which datagrams arrive, in which order, and
during which attempt. A datagram that an attempt does not read stays in the queue of the
socket. `write_u32` and `read_u32` are the functions that messages use.
-/

set_option autoImplicit false

namespace K0Torrent

/-! ## Packets -/

def connectMagic : Nat := 0x41727101980

def writeU16 (v : Nat) : Bytes := [UInt8.ofNat ((v >>> 8) &&& 0xFF), UInt8.ofNat (v &&& 0xFF)]

def writeU64 (v : Nat) : Bytes := writeU32 ((v >>> 32) % 2 ^ 32) ++ writeU32 (v % 2 ^ 32)

def writeI64 (v : Int) : Bytes := writeU64 (castU64 v)

def readU64At (bytes : Bytes) (offset : Nat) : Nat :=
  (readU32At bytes offset <<< 32) ||| readU32At bytes (offset + 4)

/-- `static_cast<int32_t>` of a `uint32_t`. -/
def castI32 (n : Nat) : Int := if n < 2 ^ 31 then n else n - 2 ^ 32

def TrackerEvent.toInt : TrackerEvent → Int
  | none => 0
  | completed => 1
  | started => 2
  | stopped => 3

namespace UdpTracker

/-- The packet of `do_connect`, `txnId` being a random number. -/
def connectRequest (txnId : UInt32) : Bytes :=
  writeU64 connectMagic ++ writeU32 0 ++ writeU32 txnId.toNat

/-- The packet of `do_announce`. -/
def announceRequest (key : UInt32) (connectionId : Nat) (txnId : UInt32) (req : TrackerRequest) :
    Bytes :=
  writeU64 connectionId ++ writeU32 1 ++ writeU32 txnId.toNat ++
    req.infoHash.toList ++ req.peerId.toList ++
    writeI64 req.downloaded ++ writeI64 req.left ++ writeI64 req.uploaded ++
    writeU32 (castU32 req.event.toInt) ++ writeU32 0 ++ writeU32 key.toNat ++
    writeU32 (castU32 req.numWant) ++ writeU16 req.port

/-- A copied `uint32_t`, its lowest byte first as on the machines the client is built for. -/
def readIp (bytes : Bytes) (offset : Nat) : Nat :=
  (bytes.getD offset 0).toNat + 2 ^ 8 * (bytes.getD (offset + 1) 0).toNat +
    2 ^ 16 * (bytes.getD (offset + 2) 0).toNat + 2 ^ 24 * (bytes.getD (offset + 3) 0).toNat

/-- `ntohs` of a copied `uint16_t`. -/
def readPort (bytes : Bytes) (offset : Nat) : Nat :=
  2 ^ 8 * (bytes.getD offset 0).toNat + (bytes.getD (offset + 1) 0).toNat

def readPeer (resp : Bytes) (i : Nat) : PeerAddress :=
  ⟨readIp resp (20 + i * 6), readPort resp (20 + i * 6 + 4)⟩

/-- The response in an announce reply. -/
def readResponse (resp : Bytes) : TrackerResponse where
  interval := castI32 (readU32At resp 8)
  incomplete := castI32 (readU32At resp 12)
  complete := castI32 (readU32At resp 16)
  peers := (List.range ((resp.length - 20) / 6)).map (readPeer resp)

/-! ## The exchange -/

/-- What one attempt of `send_recv` meets: whether `send` or `recv` fails, and which
datagrams arrive, the first one first, until `recv` returns or times out. -/
structure Transmission where
  sendFails : Bool := false
  recvFails : Bool := false
  arriving : List Bytes := []

/-- The packets sent so far, the latest first, and the datagrams waiting to be read. -/
structure UdpSocket where
  sent : List Bytes := []
  queue : List Bytes := []

def attempts : Nat := 4

/-- The loop of `send_recv`, with that many rounds left. `recv` takes the first datagram,
cut off at `recvCap`; one that is empty counts as none. -/
def sendRecvFrom (packet : Bytes) (recvCap : Nat) (phase : Nat → Transmission) :
    Nat → Nat → UdpSocket → Except Thrown Bytes × UdpSocket
  | 0, _, socket => (.error (.standard (ascii "UDP tracker timed out after 4 attempts")), socket)
  | left + 1, attempt, socket =>
    if (phase attempt).sendFails then (.error (.standard (ascii "UDP send() failed")), socket)
    else
      let sent := packet :: socket.sent
      let waiting := socket.queue ++ (phase attempt).arriving
      if (phase attempt).recvFails then
        sendRecvFrom packet recvCap phase left (attempt + 1) ⟨sent, waiting⟩
      else
        match waiting with
        | [] => sendRecvFrom packet recvCap phase left (attempt + 1) ⟨sent, []⟩
        | datagram :: queue =>
          let resp := datagram.take recvCap
          if resp.isEmpty then sendRecvFrom packet recvCap phase left (attempt + 1) ⟨sent, queue⟩
          else (.ok resp, ⟨sent, queue⟩)

def sendRecv (packet : Bytes) (recvCap : Nat) (phase : Nat → Transmission) (socket : UdpSocket) :
    Except Thrown Bytes × UdpSocket :=
  sendRecvFrom packet recvCap phase attempts 0 socket

/-- The checks on the response to a connect request, and the connection id in it. -/
def checkConnect (txnId : UInt32) (resp : Bytes) : Except Thrown Nat :=
  if resp.length < 16 then .error (.standard (ascii "UDP connect response too short"))
  else if readU32At resp 0 ≠ 0 then
    .error (.standard (ascii "UDP connect response has wrong action"))
  else if readU32At resp 4 ≠ txnId.toNat then
    .error (.standard (ascii "UDP connect response transaction_id mismatch"))
  else .ok (readU64At resp 8)

def doConnect (txnId : UInt32) (phase : Nat → Transmission) (socket : UdpSocket) :
    Except Thrown Nat × UdpSocket :=
  let (received, socket) := sendRecv (connectRequest txnId) 16 phase socket
  (received.bind (checkConnect txnId), socket)

def maxResp : Nat := 20 + 6 * 200

def checkAnnounce (txnId : UInt32) (resp : Bytes) : Except Thrown TrackerResponse :=
  if resp.length < 20 then .error (.standard (ascii "UDP announce response too short"))
  else if readU32At resp 0 ≠ 1 then
    .error (.standard (ascii "UDP announce response has wrong action"))
  else if readU32At resp 4 ≠ txnId.toNat then
    .error (.standard (ascii "UDP announce transaction_id mismatch"))
  else .ok (readResponse resp)

def doAnnounce (key : UInt32) (connectionId : Nat) (txnId : UInt32) (req : TrackerRequest)
    (phase : Nat → Transmission) (socket : UdpSocket) : Except Thrown TrackerResponse × UdpSocket :=
  let (received, socket) :=
    sendRecv (announceRequest key connectionId txnId req) maxResp phase socket
  (received.bind (checkAnnounce txnId), socket)

/-- What one announce meets: what `connect_udp` throws, the two random numbers, and what
happens during the attempts of each request. -/
structure Exchange where
  opening : Option Thrown := none
  connectTxn : UInt32
  announceTxn : UInt32
  connecting : Nat → Transmission
  announcing : Nat → Transmission

/-- `announce`, with the key of the tracker. The socket is closed in either case. -/
def announce (key : UInt32) (exchange : Exchange) (req : TrackerRequest) :
    Except Thrown TrackerResponse :=
  match exchange.opening with
  | some thrown => .error thrown
  | none =>
    match doConnect exchange.connectTxn exchange.connecting {} with
    | (.error thrown, _) => .error thrown
    | (.ok connectionId, socket) =>
      (doAnnounce key connectionId exchange.announceTxn req exchange.announcing socket).1

end UdpTracker

end K0Torrent
