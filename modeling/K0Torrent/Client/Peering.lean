import K0Torrent.Client.Outgoing

/-! Two clients at the two ends of a connection.

The bytes that one of them has read from its socket are the first ones that the other has sent
into its own.
-/

set_option autoImplicit false

namespace K0Torrent

open Machine Incremental

/-! ## The frames of a stream -/

theorem nextMessage_frame (frame : Frame) (rest : Bytes) :
    nextMessage (frame.bytes ++ rest) = some (messages [frame], rest) := by
  obtain ⟨result, parsed, complete, consumed, carried⟩ := parse_frame frame rest
  simp only [nextMessage, parsed, complete, if_true, carried, consumed, List.drop_left]

/-- What is whole in the first bytes of a stream is taken off, and nothing else. -/
theorem items_prefix {frames : List Frame} : ∀ {buffer left : Bytes} {items : List PeerMessage},
    buffer <+: Frames.bytes Frame.bytes frames → Emptied nextMessage buffer items left →
      items <+: messages frames := by
  induction frames with
  | nil =>
    intro buffer left items arrived emptied
    obtain rfl : buffer = [] := List.prefix_nil.mp arrived
    obtain ⟨rfl, -⟩ := emptied.unique (.done rfl)
    exact List.nil_prefix
  | cons frame frames ih =>
    intro buffer left items arrived emptied
    by_cases whole : frame.bytes.length ≤ buffer.length
    · obtain ⟨later, rfl, rest⟩ := Frames.starts_with arrived whole
      cases emptied with
      | done blocked => cases blocked.symm.trans (nextMessage_frame frame later)
      | more taken emptied =>
        cases taken.symm.trans (nextMessage_frame frame later)
        have both : messages (frame :: frames) = messages [frame] ++ messages frames :=
          List.filterMap_append (l := [frame])
        rw [both]
        exact (List.prefix_append_right_inj _).mpr (ih rest emptied)
    · have short := Nat.not_le.mp whole
      have waits := parse_partial (Frames.inside arrived short) short
      obtain ⟨rfl, -⟩ := emptied.unique (.done (by simp [nextMessage, waits]))
      exact List.nil_prefix

theorem items_eq {frames : List Frame} {left : Bytes} {items : List PeerMessage}
    (emptied : Emptied nextMessage (Frames.bytes Frame.bytes frames) items left) :
    items = messages frames := by
  induction frames generalizing items with
  | nil => exact (emptied.unique (.done rfl)).1
  | cons frame frames ih =>
    rw [Frames.bytes_cons] at emptied
    cases emptied with
    | done blocked => cases blocked.symm.trans (nextMessage_frame frame _)
    | more taken emptied =>
      cases taken.symm.trans (nextMessage_frame frame _)
      rw [ih emptied]
      exact (List.filterMap_append (l := [frame])).symm

theorem greets_serialize (handshake : Handshake) (behind : Bytes) :
    Greets handshake.infoHash (handshake.serialize ++ behind) := by
  have connects := @PeerConnection.connects_iff
    { PeerConnection.started handshake.infoHash with readBuffer := handshake.serialize ++ behind }
    fun same => by cases same
  exact connects.mp ⟨_, _, PeerConnection.processHandshake_serialize, rfl⟩

namespace Client

variable {ι κ : Type} [DecidableEq ι] [DecidableEq κ]

section
variable {setup setup' : Setup} {start client : Client ι} {start' client' : Client κ}
  {history : List (Transition (Client ι) (Event ι))}
  {history' : List (Transition (Client κ) (Event κ))}

/-- What has come in over a connection is the first part of what the other end has queued, and if
all of it has come, for the same torrent, it is the whole. -/
theorem delivered_of_peer (runs : Runs setup start history client)
    (runs' : Runs setup' start' history' client') {i : ι} {j : κ}
    (carried : client.arrived i <+: (client'.net.endpoints j).sent) :
    (client.net.endpoints i).connection.delivered <+: (client'.net.endpoints j).queued ∧
      (client.arrived i = (client'.net.endpoints j).sent →
        (client'.net.endpoints j).writeBuffer = [] →
          setup.torrent.infoHash = setup'.torrent.infoHash →
            (client.net.endpoints i).connection.delivered = (client'.net.endpoints j).queued) := by
  obtain ⟨pipeRead, listening⟩ := runs.listening
  have heard := listening.heard i
  rcases runs'.frames j with ⟨silent, -, queued⟩ | ⟨frames, said, hash, bytes⟩
  · -- Nothing has been sent.
    rw [silent] at carried
    have arrived := List.prefix_nil.mp carried
    have delivered : (client.net.endpoints i).connection.delivered = [] := by
      cases heard with
      | waiting short state readBuffer delivered => exact delivered
      | refused long stranger state delivered => exact delivered
      | greeted greets =>
        rw [arrived] at greets
        cases greets.1
    rw [delivered, queued]
    exact ⟨List.nil_prefix, fun _ _ _ => rfl⟩
  · have stream : client.arrived i <+: (client'.net.endpoints j).handshake.serialize ++
        Frames.bytes Frame.bytes frames := by
      rw [← bytes]
      exact carried.trans (List.prefix_append _ _)
    have behind : ((client'.net.endpoints j).handshake.serialize ++
        Frames.bytes Frame.bytes frames).drop Handshake.handshakeSize =
          Frames.bytes Frame.bytes frames := List.drop_left' (Handshake.length_serialize _)
    rw [← said]
    constructor
    · cases heard with
      | waiting short state readBuffer delivered =>
        rw [delivered]
        exact List.nil_prefix
      | refused long stranger state delivered =>
        rw [delivered]
        exact List.nil_prefix
      | greeted greets state emptied =>
        have rest := stream.drop Handshake.handshakeSize
        rw [behind] at rest
        exact items_prefix rest emptied
    · intro all_ written same
      have whole : client.arrived i = (client'.net.endpoints j).handshake.serialize ++
          Frames.bytes Frame.bytes frames := by
        rw [← bytes, written, List.append_nil, all_]
      have greets := greets_serialize (client'.net.endpoints j).handshake
        (Frames.bytes Frame.bytes frames)
      rw [← whole, hash, ← same] at greets
      cases heard with
      | waiting short => exact absurd greets.1 (Nat.not_le.mpr short)
      | refused long stranger => exact absurd greets stranger
      | greeted _ _ emptied =>
        rw [whole, behind] at emptied
        exact items_eq emptied

end

/-- What `dialled` sends to a peer that has the piece. -/
def itsBytes : Bytes :=
  Handshake.serialize ⟨.replicate 8 0, Session.oneByte.torrent.infoHash, .replicate 20 2⟩ ++
    [0, 0, 0, 1, 2]

/-- One client hears that the other is interested. -/
theorem delivered_of_peer_dialled : ∃ history client history' client',
    Runs Session.oneByte dialled history client ∧ Runs Session.oneByte dialled history' client' ∧
      client.arrived () = (client'.net.endpoints ()).sent ∧
      (client'.net.endpoints ()).queued = [Session.interested] ∧
      (client.net.endpoints ()).connection.delivered = [Session.interested] := by
  obtain ⟨history, client, runs, arrived⟩ : ∃ history client,
      Runs Session.oneByte dialled history client ∧ client.arrived () = itsBytes :=
    ⟨_, _, runs_of_replay [hears (itsBytes.take 50), hears (itsBytes.drop 50)] rfl, rfl⟩
  obtain ⟨history', client', runs', sent, queued, writeBuffer⟩ : ∃ history' client',
      Runs Session.oneByte dialled history' client' ∧ (client'.net.endpoints ()).sent = itsBytes ∧
        (client'.net.endpoints ()).queued = [Session.interested] ∧
        (client'.net.endpoints ()).writeBuffer = [] :=
    ⟨_, _, runs_of_replay [hears itsHandshake, hears [0, 0, 0, 2, 5, 0x80], hears []] rfl, rfl, rfl,
      rfl⟩
  have same := arrived.trans sent.symm
  have carried : client.arrived () <+: (client'.net.endpoints ()).sent := by rw [same]
  have delivered := (delivered_of_peer runs runs' carried).2 same writeBuffer rfl
  exact ⟨history, client, history', client', runs, runs', same, queued, delivered.trans queued⟩

end Client

end K0Torrent
