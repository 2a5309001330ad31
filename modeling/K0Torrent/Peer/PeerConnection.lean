import K0Torrent.Library.Outcome
import K0Torrent.Peer.Handshake
import K0Torrent.Peer.Message

/-! The receiving side of a connection (`peer_connection.hpp`, `peer_connection.cpp`).

What the message handler was called with is kept, in order. The handler itself is
not modelled here; it is taken not to throw.
-/

set_option autoImplicit false

namespace K0Torrent

inductive ConnectionState where
  | disconnected
  | handshakeSent
  | connected
  deriving DecidableEq

structure PeerConnection where
  state : ConnectionState
  infoHash : Digest
  readBuffer : Bytes := []
  -- `peer_->id`, once `id_set`.
  peerId : Option Digest := none
  delivered : List PeerMessage := []

namespace PeerConnection

/-- A connection whose own handshake is in the write buffer. -/
def started (infoHash : Digest) : PeerConnection := { state := .handshakeSent, infoHash }

def disconnect (connection : PeerConnection) : PeerConnection :=
  { connection with state := .disconnected }

/-- `false` says that the handshake is not complete yet. -/
def processHandshake (connection : PeerConnection) :
    Except HandshakeError (PeerConnection × Bool) :=
  if connection.readBuffer.length < Handshake.handshakeSize then .ok (connection, false)
  else do
    let handshake ← Handshake.deserialize (connection.readBuffer.take Handshake.handshakeSize)
    if handshake.infoHash ≠ connection.infoHash then .error .infoHashMismatch
    else
      return ({ connection with
        peerId := some handshake.peerId
        state := .connected
        readBuffer := connection.readBuffer.drop Handshake.handshakeSize }, true)

/-- The loop over the messages in the read buffer. -/
def handleMessages : Nat → PeerConnection → Outcome OutOfBounds PeerConnection
  | 0, _ => .unfinished
  | rounds + 1, connection =>
    match parsePeerMessage connection.readBuffer with
    | .error fault => .thrown fault
    | .ok result =>
      if result.complete then
        let delivered :=
          if result.isKeepAlive then connection.delivered
          else connection.delivered ++ [result.message]
        handleMessages rounds { connection with
          delivered, readBuffer := connection.readBuffer.drop result.consumedBytes }
      else .value connection

/-- `data` is what `recv` returned; nothing, if the socket had nothing to read.
Every round that consumes bytes shortens the buffer. So the bound on the rounds is
reached only by a loop that has consumed none and would never end. -/
def handleRead (connection : PeerConnection) (data : Bytes) :
    Outcome OutOfBounds PeerConnection :=
  if data = [] then .value connection
  else
    let connection := { connection with readBuffer := connection.readBuffer ++ data }
    let handshaken :=
      if connection.state = .handshakeSent then connection.processHandshake
      else .ok (connection, true)
    match handshaken with
    | .error _ => .value connection.disconnect
    | .ok (connection, false) => .value connection
    | .ok (connection, true) =>
      if connection.state = .connected then
        connection.handleMessages (connection.readBuffer.length + 1)
      else .value connection

/-- The chunks that successive calls of `recv` return. -/
def receive : List Bytes → PeerConnection → Outcome OutOfBounds PeerConnection
  | [], connection => .value connection
  | chunk :: rest, connection => do receive rest (← connection.handleRead chunk)

end PeerConnection

end K0Torrent
