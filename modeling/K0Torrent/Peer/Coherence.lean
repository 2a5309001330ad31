import K0Torrent.Peer.Agreement

/-! What a run of connections on one loop guarantees, between any two operations.

The bytes of a connection come out as they were meant to, and the loop watches exactly the
sockets of the connections that are alive, for exactly what there is to do.
-/

set_option autoImplicit false

namespace K0Torrent

def Endpoint.Alive (endpoint : Endpoint) : Prop :=
  endpoint.state = .handshakeSent ∨ endpoint.state = .connected

theorem Endpoint.alive_iff (endpoint : Endpoint) :
    endpoint.Alive ↔ endpoint.state ≠ .disconnected := by
  unfold Endpoint.Alive
  cases endpoint.state <;> simp

theorem Endpoint.hasEvent_mask (endpoint : Endpoint) : hasEvent endpoint.mask pollIn = true ∧
    (hasEvent endpoint.mask pollOut = true ↔ endpoint.writeBuffer ≠ []) := by
  have bits : hasEvent pollIn pollIn = true ∧ hasEvent pollIn pollOut = false ∧
      hasEvent (pollIn ||| pollOut) pollIn = true ∧
      hasEvent (pollIn ||| pollOut) pollOut = true := by decide
  unfold Endpoint.mask
  split <;> simp [*]

namespace Network

open Machine

/-- The bytes that the socket has taken, with those in the write buffer, are the handshake and
the messages queued while connected; and the loop watches for what there is to do. -/
structure Outgoing {ι : Type} (net : Network ι) (i : ι) : Prop where
  handshake : (net.endpoints i).handshake.serialize.length = 68
  stream : ∃ bufs : List Bytes,
    (net.endpoints i).queued.map PeerMessage.serialize = bufs.map .ok ∧
      (net.endpoints i).sent ++ (net.endpoints i).writeBuffer =
        (net.endpoints i).handshake.serialize ++ bufs.flatten
  watched : ∃ entry, net.loop.lookup (net.endpoints i).fd = some entry ∧ entry.cb = i ∧
    hasEvent entry.events pollIn = true ∧
    (hasEvent entry.events pollOut = true ↔ (net.endpoints i).writeBuffer ≠ [])

/-- Registrations, sockets and states agree. -/
structure Coherent {ι : Type} (net : Network ι) : Prop where
  registered : ∀ fd, (∃ entry, net.loop.lookup fd = some entry) ↔
    ∃ i, (net.endpoints i).Alive ∧ (net.endpoints i).fd = fd
  called : ∀ fd entry, net.loop.lookup fd = some entry →
    (net.endpoints entry.cb).Alive ∧ (net.endpoints entry.cb).fd = fd
  one : ∀ i j, (net.endpoints i).Alive → (net.endpoints j).Alive →
    (net.endpoints i).fd = (net.endpoints j).fd → i = j
  open_ : ∀ i, (net.endpoints i).Alive → (net.endpoints i).fd ∈ net.opened
  closed : ∀ i, (net.endpoints i).state = .disconnected →
    (net.endpoints i).fd = -1 ∧ (net.endpoints i).fd ∉ net.opened
  raised : net.raised = []

section
variable {ι : Type} {net : Network ι} (agree : Agree net)
include agree

theorem Agree.outgoing {i : ι} (alive : (net.endpoints i).state ≠ .disconnected) :
    Outgoing net i := by
  exact ⟨Handshake.length_serialize _, agree.intact i alive, _, (agree.live i alive).2.2, rfl,
    Endpoint.hasEvent_mask _⟩

theorem Agree.coherent : Coherent net where
  registered fd := by
    constructor
    · rintro ⟨entry, found⟩
      obtain ⟨alive, at_⟩ := agree.registered fd entry found
      exact ⟨entry.cb, (Endpoint.alive_iff _).mpr alive, at_⟩
    · rintro ⟨i, alive, rfl⟩
      exact ⟨_, (agree.live i ((Endpoint.alive_iff _).mp alive)).2.2⟩
  called fd entry found := by
    obtain ⟨alive, at_⟩ := agree.registered fd entry found
    exact ⟨(Endpoint.alive_iff _).mpr alive, at_⟩
  one i j first second :=
    agree.fd_injective ((Endpoint.alive_iff _).mp first) ((Endpoint.alive_iff _).mp second)
  open_ i alive := (agree.live i ((Endpoint.alive_iff _).mp alive)).2.1
  closed i dead := by
    have none_ := agree.dead i dead
    refine ⟨none_, fun member => ?_⟩
    obtain ⟨j, alive, at_⟩ := agree.owned _ member
    have positive := (agree.live j alive).1
    omega
  raised := agree.raised

end

section
variable {ι : Type} [DecidableEq ι] {identities : ι → PeerAddress × Digest × Digest}
  {pipeRead : Int} {history : List (Transition (Network ι) (Event ι))} {net : Network ι}

/-- The stream of a connection that is alive is intact, and neither stalls nor spins. -/
theorem outgoing_of_run (run : Run step (new identities pipeRead) history net) {i : ι}
    (alive : (net.endpoints i).state ≠ .disconnected) : Outgoing net i :=
  (agree_of_run run).outgoing alive

theorem coherent_of_run (run : Run step (new identities pipeRead) history net) : Coherent net :=
  (agree_of_run run).coherent

end

/-! ## Two connections, one of them refused -/

def twoIdentities (first : Bool) : PeerAddress × Digest × Digest :=
  (⟨if first then 0x0100007F else 0x0200007F, 6881⟩, Vector.replicate 20 0, Vector.replicate 20 1)

/-- The one that gets through is closed by the peer. -/
def meeting : List (Event Bool) :=
  [.call (.start true (.opened 9) (Vector.replicate 8 0)), .call (.start false .refused (Vector.replicate 8 0)),
    .call (.queueMessage true {}), .socket 9 (pollIn ||| pollOut) (.accepted 68) .failed fun _ => {}]

theorem coherent_meeting : ∃ history net, Run step (new twoIdentities 3) history net ∧
    (net.endpoints true).sent.length = 68 ∧ Coherent net := by
  have run := @run_of_replay _ _ step (new twoIdentities 3) meeting _ _ [] _ .start rfl
  exact ⟨_, _, run, rfl, coherent_of_run run⟩

/-! ## A handshake and a message that are sent in parts -/

def oneIdentity (_ : Unit) : PeerAddress × Digest × Digest :=
  (⟨0x0100007F, 6881⟩, Vector.replicate 20 0, Vector.replicate 20 1)

/-- The message is queued when the peer's handshake has come. The first part to be sent ends inside
the handshake, the second one inside the message, and the third would block. -/
def greeting : List (Event Unit) :=
  [.call (.start () (.opened 9) (Vector.replicate 8 0)),
    .socket 9 (pollIn ||| pollOut) (.accepted 40)
      (.data (Handshake.serialize ⟨.replicate 8 0, .replicate 20 0, .replicate 20 7⟩)) fun _ => {},
    .call (.queueMessage () ⟨.interested, []⟩),
    .socket 9 pollOut (.accepted 30) (.data []) fun _ => {},
    .socket 9 pollOut (.accepted 0) (.data []) fun _ => {}]

theorem outgoing_greeting : ∃ history net, Run step (new oneIdentity 3) history net ∧
    (net.endpoints ()).queued = [⟨.interested, []⟩] ∧ (net.endpoints ()).sent.length = 70 ∧
    (net.endpoints ()).writeBuffer = [0, 1, 2] ∧ Outgoing net () := by
  have run := @run_of_replay _ _ step (new oneIdentity 3) greeting _ _ [] _ .start rfl
  exact ⟨_, _, run, rfl, rfl, rfl, outgoing_of_run run fun dead => by cases dead⟩

end Network

end K0Torrent
