import K0Torrent.Peer.Agreement
import K0Torrent.Peer.Codec

/-! What `start` sends first, whatever the memory held before (`handshake.cpp`).

An object that is made keeps the bytes of its memory wherever its constructor writes none.
-/

set_option autoImplicit false

namespace K0Torrent

/-- What the memory holds, by chance, where `start` makes its handshake and where `serialize`
makes its buffer. -/
structure Memory where
  object : Handshake
  buf : Vector UInt8 Handshake.handshakeSize

namespace Handshake

/-- The constructor. Its initialisers leave `reserved` out. -/
def construct (memory : Handshake) (infoHash peerId : Digest) : Handshake :=
  { memory with infoHash, peerId }

/-- What is to be sent: no reserved bit is set. -/
def greeting (infoHash peerId : Digest) : Bytes :=
  (19 : UInt8) :: (ascii "BitTorrent protocol" ++ (List.replicate 8 0 ++
    (infoHash.toList ++ peerId.toList)))

/-- The bytes that `start` puts into the write buffer. -/
def queuedBytes (memory : Memory) (infoHash peerId : Digest) : Bytes :=
  (construct memory.object infoHash peerId).serializeOver memory.buf

variable {memory memory' : Memory} {infoHash peerId : Digest}

theorem queuedBytes_eq : queuedBytes memory infoHash peerId =
    protocolLen :: (protocolString ++ (memory.object.reserved.toList ++
      (infoHash.toList ++ peerId.toList))) := by
  rw [queuedBytes, serializeOver_eq]
  rfl

theorem queuedBytes_inj : queuedBytes memory infoHash peerId = queuedBytes memory' infoHash peerId ↔
    memory.object.reserved = memory'.object.reserved := by
  rw [queuedBytes_eq, queuedBytes_eq, List.cons_inj_right, List.append_cancel_left_eq,
    List.append_cancel_right_eq, Vector.toList_inj]

theorem queuedBytes_eq_greeting : queuedBytes memory infoHash peerId = greeting infoHash peerId ↔
    memory.object.reserved = Vector.replicate 8 0 := by
  have zeros : (Vector.replicate 8 (0 : UInt8)).toList = List.replicate 8 0 := rfl
  rw [queuedBytes_eq, ← Vector.toList_inj, zeros]
  change protocolLen :: (protocolString ++ _) = protocolLen :: (protocolString ++ _) ↔ _
  rw [List.cons_inj_right, List.append_cancel_left_eq, List.append_cancel_right_eq]

end Handshake

/-! ## The call of `start` -/

namespace Network

variable {ι : Type} [DecidableEq ι]

theorem writeBuffer_register {net : Network ι} {i : ι}
    (queued : ((net.register i).endpoints i).state = .handshakeSent) :
    ((net.register i).endpoints i).writeBuffer =
      (net.endpoints i).writeBuffer ++ (net.endpoints i).handshake.serialize := by
  unfold register at queued ⊢
  cases added : net.loop.add (net.endpoints i).fd (pollIn ||| pollOut) i with
  | ok loop => simp [Endpoint.greet]
  | error error =>
    -- `add` has thrown before the handshake is queued, and the catch disconnects.
    simp only [added, state_disconnect] at queued
    cases queued

/-- A `start` that gets through puts these bytes behind what is in the write buffer. -/
theorem writeBuffer_start {net after : Network ι} {i : ι} {outcome : ConnectOutcome}
    (memory : Memory) (started : net.start i outcome memory.object.reserved = some after)
    (queued : (after.endpoints i).state = .handshakeSent) :
    (after.endpoints i).writeBuffer = (net.endpoints i).writeBuffer ++
      Handshake.queuedBytes memory (net.endpoints i).connection.infoHash
        (net.endpoints i).myPeerId := by
  rw [Handshake.queuedBytes, Handshake.serializeOver_eq]
  unfold start at started
  dsimp only at started
  split at started
  · cases started
  · split at started
    · rename_i error failed
      cases started
      split at queued
      · rename_i going
        rw [if_pos going, writeBuffer_register queued]
        simp [Endpoint.handshake, Handshake.construct]
      · rw [state_disconnect] at queued
        cases queued
    · split at started
      · cases started
        rw [writeBuffer_register queued]
        simp [Endpoint.handshake, Handshake.construct]
      · cases started

/-- A `start` gets through, with that memory, and puts these bytes into the write buffer. -/
def Queues (net : Network ι) (i : ι) (memory : Memory) (bytes : Bytes) : Prop :=
  ∃ outcome after, net.start i outcome memory.object.reserved = some after ∧
    (after.endpoints i).state = .handshakeSent ∧
    (after.endpoints i).writeBuffer = (net.endpoints i).writeBuffer ++ bytes

theorem Queues.bytes_eq {net : Network ι} {i : ι} {memory : Memory} {bytes : Bytes}
    (queues : net.Queues i memory bytes) :
    bytes = Handshake.queuedBytes memory (net.endpoints i).connection.infoHash
      (net.endpoints i).myPeerId := by
  obtain ⟨outcome, after, started, state, appended⟩ := queues
  have written := writeBuffer_start memory started state
  exact List.append_cancel_left (appended.symm.trans written)

/-- The bytes are those of the identity exactly if there were zeros in the memory, and two
runs agree exactly if there were the same bytes in it. -/
theorem queues_iff {κ : Type} [DecidableEq κ] {net : Network ι} {net' : Network κ} {i : ι} {j : κ}
    {memory memory' : Memory} {bytes bytes' : Bytes} {infoHash peerId : Digest}
    (first : net.Queues i memory bytes) (second : net'.Queues j memory' bytes')
    (hashes : (net.endpoints i).connection.infoHash = infoHash ∧
      (net'.endpoints j).connection.infoHash = infoHash)
    (ids : (net.endpoints i).myPeerId = peerId ∧ (net'.endpoints j).myPeerId = peerId) :
    (bytes = Handshake.greeting infoHash peerId ↔ memory.object.reserved = Vector.replicate 8 0) ∧
      (bytes = bytes' ↔ memory.object.reserved = memory'.object.reserved) := by
  have left := first.bytes_eq
  have right := second.bytes_eq
  rw [hashes.1, ids.1] at left
  rw [hashes.2, ids.2] at right
  rw [left, right]
  exact ⟨Handshake.queuedBytes_eq_greeting, Handshake.queuedBytes_inj⟩

/-! ## Memory that has been used -/

/-- Every byte of the memory holds this one. -/
def filled (byte : UInt8) : Memory where
  object := ⟨.replicate 8 byte, .replicate 20 byte, .replicate 20 byte⟩
  buf := .replicate Handshake.handshakeSize byte

def waiting : Network Unit :=
  new (fun _ => (⟨0x0100007F, 6881⟩, .replicate 20 1, .replicate 20 2)) 3

theorem waiting_queues (byte : UInt8) : waiting.Queues () (filled byte)
    (Handshake.queuedBytes (filled byte) (.replicate 20 1) (.replicate 20 2)) := by
  refine ⟨.opened 9, _, rfl, rfl, ?_⟩
  rw [Handshake.queuedBytes, Handshake.serializeOver_eq]
  rfl

/-- Zeros in the memory make the greeting, and the two runs agree. -/
theorem queues_clean : ∃ bytes, waiting.Queues () (filled 0) bytes ∧
    bytes = Handshake.greeting (.replicate 20 1) (.replicate 20 2) := by
  have queues := waiting_queues 0
  exact ⟨_, queues, (queues_iff queues queues ⟨rfl, rfl⟩ ⟨rfl, rfl⟩).1.mpr rfl⟩

/-- What was in the memory is sent. -/
theorem queues_leftover : ∃ bytes bytes', waiting.Queues () (filled 0) bytes ∧
    waiting.Queues () (filled 0xAA) bytes' ∧
    bytes' ≠ Handshake.greeting (.replicate 20 1) (.replicate 20 2) ∧ bytes ≠ bytes' := by
  refine ⟨_, _, waiting_queues 0, waiting_queues 0xAA, ?_, ?_⟩
  · rw [ne_eq, Handshake.queuedBytes_eq_greeting]
    decide
  · rw [ne_eq, Handshake.queuedBytes_inj]
    decide

end Network

end K0Torrent
