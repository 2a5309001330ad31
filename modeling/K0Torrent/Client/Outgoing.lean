import K0Torrent.Client.Stream
import K0Torrent.Peer.Delivery
import K0Torrent.Session.Requests

/-! What a client sends.

Behind its handshake it says that it is interested and asks for blocks; it never sends any.
-/

set_option autoImplicit false

namespace K0Torrent

open Machine

/-! ## What the session queues -/

/-- `interested`, or a request: where the pieces of the torrent divide it, for a block that it has. -/
inductive Outgoing (torrent : TorrentFile) : PeerMessage → Prop where
  | interested : Outgoing torrent Session.interested
  | request {request : BlockRequest} (fits : request.Fits)
      (inside : Divided torrent → request.piece < torrent.pieces.length ∧
        (1 ≤ request.length ∧ request.length ≤ 16384) ∧
        request.offset + request.length ≤
          min torrent.pieceWidth (torrent.size - request.piece * torrent.pieceWidth)) :
      Outgoing torrent request.message

/-- What a message is copied into would be too small for a longer one. -/
theorem short_of_serialized {msg : PeerMessage} {buf : Bytes} (serialized : msg.serialize = .ok buf) :
    msg.payload.length < 2 ^ 32 - 5 := by
  unfold PeerMessage.serialize at serialized
  dsimp only at serialized
  split at serialized
  · cases serialized
  · omega

/-- So the messages that have been serialized fit their frames. -/
theorem frames_of_serialized {msgs : List PeerMessage} :
    ∀ {bufs : List Bytes}, msgs.map PeerMessage.serialize = bufs.map .ok →
      ∃ frames, messages frames = msgs ∧ Frames.bytes Frame.bytes frames = bufs.flatten := by
  induction msgs with
  | nil =>
    intro bufs serialized
    cases bufs with
    | nil => exact ⟨[], rfl, rfl⟩
    | cons buf bufs => cases serialized
  | cons msg msgs ih =>
    intro bufs serialized
    cases bufs with
    | nil => cases serialized
    | cons buf bufs =>
      obtain ⟨written, later⟩ := List.cons.inj serialized
      obtain ⟨frames, carried, same⟩ := ih later
      have short := short_of_serialized written
      have bytes : (Frame.message msg short).bytes = buf :=
        Except.ok.inj ((Frame.serialize_eq (.message msg short)).symm.trans written)
      refine ⟨.message msg short :: frames, congrArg (msg :: ·) carried, ?_⟩
      rw [Frames.bytes_cons, bytes, same, List.flatten_cons]

namespace Session

variable {ι : Type} {setup : Setup} {session next : Session ι}

structure Modest (setup : Setup) (session : Session ι) : Prop where
  regular : Regular setup session.pieces
  queued : ∀ i msg, .queued i msg ∈ session.wire → Outgoing setup.torrent msg

theorem Modest.congr (modest : Modest setup session) (pieces : next.pieces = session.pieces)
    (wire : ∀ i msg, .queued i msg ∈ next.wire → .queued i msg ∈ session.wire) :
    Modest setup next where
  regular := by
    rw [pieces]
    exact modest.regular
  queued i msg member := modest.queued i msg (wire i msg member)

theorem Modest.queueMessage (modest : Modest setup session) {i : ι} {msg : PeerMessage}
    (outgoing : Outgoing setup.torrent msg) : Modest setup (session.queueMessage i msg) where
  regular := by
    rw [pieces_queueMessage]
    exact modest.regular
  queued j msg' member := by
    rw [wire_queueMessage] at member
    split at member
    · rcases List.mem_cons.mp member with same | before
      · cases same
        exact outgoing
      · exact modest.queued j msg' before
    · exact modest.queued j msg' member

theorem Modest.requestNextBlocks (modest : Modest setup session) (order : IterationOrder) (i : ι) :
    Modest setup (requestNextBlocks order session i) := by
  apply requestNextBlocks_induct (Modest setup) ?_ modest
  intro session pieces request modest creates
  have stored : Modest setup { session with pieces } :=
    ⟨modest.regular.creates creates, modest.queued⟩
  cases request with
  | none => exact stored
  | some request =>
    refine stored.queueMessage (.request (creates.fits modest.regular.sound) fun divided => ?_)
    obtain ⟨bound, -, length, inside⟩ :=
      creates.inside divided modest.regular.sound modest.regular.torrent
    exact ⟨bound, length, inside⟩

variable [DecidableEq ι]

theorem Modest.setPeer (modest : Modest setup session) {i : ι} {peer : Peer} :
    Modest setup (session.setPeer i peer) :=
  modest.congr rfl fun _ _ member => member

theorem Modest.step (modest : Modest setup session) {event : Event ι}
    (taken : step setup session event = some next) : Modest setup next := by
  cases steps_of_step taken with
  | handshake => exact modest.congr rfl fun _ _ member => member
  | disconnect => exact modest.congr rfl fun _ _ member => by simpa using member
  | @message connection msg order results next connected handles =>
    have recorded : Modest setup (session.record connection msg) :=
      modest.congr rfl fun _ _ member => by simpa [record] using member
    cases handles with
    | noted => exact recorded.setPeer
    | greeted => exact recorded.setPeer.queueMessage .interested
    | unchoked => exact recorded.setPeer.requestNextBlocks order connection
    | delivered delivers processes =>
      apply Modest.requestNextBlocks
      exact ⟨recorded.regular.processes processes, recorded.queued⟩

theorem Runs.modest {start final : Session ι} {history : List (Transition (Session ι) (Event ι))}
    (runs : Runs setup start history final) : Modest setup final := by
  refine runs.2.invariant (Modest setup) ⟨runs.1.regular, fun i msg member => ?_⟩
    fun _ _ _ modest taken => modest.step taken
  rw [runs.1.silent] at member
  cases member

end Session

/-! ## What the socket has been given -/

namespace Endpoint

/-- The bytes are those of the handshake and the messages, unless there has been no socket. -/
def Said (endpoint : Endpoint) : Prop :=
  endpoint.Intact ∨ endpoint.sent = [] ∧ endpoint.writeBuffer = [] ∧ endpoint.queued = []

theorem Said.congr {endpoint endpoint' : Endpoint} (said : endpoint.Said)
    (handshake : endpoint'.handshake = endpoint.handshake) (queued : endpoint'.queued = endpoint.queued)
    (sent : endpoint'.sent = endpoint.sent)
    (writeBuffer : endpoint'.writeBuffer = endpoint.writeBuffer) : endpoint'.Said := by
  unfold Said Intact at said ⊢
  rwa [handshake, queued, sent, writeBuffer]

theorem Said.took {endpoint : Endpoint} (said : endpoint.Said) (count : Nat) :
    (endpoint.took count).Said := by
  rcases said with intact | ⟨sent, writeBuffer, queued⟩
  · exact .inl (intact.took count)
  · refine .inr ⟨?_, ?_, queued⟩
    · simp [Endpoint.took, sent, writeBuffer]
    · simp [Endpoint.took, writeBuffer]

end Endpoint

namespace Network

variable {ι : Type} [DecidableEq ι]

/-- The sockets and what they have been given. -/
structure Speaking (net : Network ι) : Prop where
  agree : Agree net
  said : ∀ i, (net.endpoints i).Said

variable {net after : Network ι} {i : ι} {thrown : Option Thrown}

/-- One endpoint changes, and says as much as before. -/
theorem said_update (said : ∀ j, (net.endpoints j).Said) {endpoint : Endpoint} (own : endpoint.Said)
    (j : ι) : ((net.update i endpoint).endpoints j).Said := by
  by_cases here : j = i
  · subst here
    rwa [endpoints_update_self]
  · rw [endpoints_update_of_ne here]
    exact said j

theorem Speaking.queueMessage (speaking : Speaking net) {msg : PeerMessage}
    (queued : net.queueMessage i msg = some (after, thrown)) : Speaking after := by
  refine ⟨(speaking.agree.queueMessage queued).1, fun j => ?_⟩
  unfold Network.queueMessage at queued
  split at queued
  · cases queued
    exact speaking.said j
  · rename_i open_
    split at queued
    · cases queued
    · rename_i buf serialized
      have connected := Decidable.not_not.mp open_
      have alive : (net.endpoints i).state ≠ .disconnected := fun dead => by
        cases connected.symm.trans dead
      have own := (speaking.agree.intact i alive).queue serialized
      have endpoints := congrArg (fun called => called.1.endpoints) (Option.some.inj queued)
      dsimp only at endpoints
      rw [endpoints_modify] at endpoints
      rw [← endpoints]
      exact said_update speaking.said (.inl own) j

theorem Speaking.setConnection (speaking : Speaking net) {connection : PeerConnection}
    (state : connection.state = .disconnected ↔ (net.endpoints i).state = .disconnected)
    (hash : connection.infoHash = (net.endpoints i).connection.infoHash) :
    Speaking (net.setConnection i connection) := by
  have own : Endpoint.Said { net.endpoints i with connection } := by
    refine (speaking.said i).congr ?_ rfl rfl rfl
    simp only [Endpoint.handshake, hash]
  exact ⟨speaking.agree.setConnection state hash, said_update speaking.said own⟩

theorem Speaking.disconnect (speaking : Speaking net) (i : ι) : Speaking (net.disconnect i) := by
  refine ⟨speaking.agree.disconnect, fun j => ?_⟩
  by_cases here : j = i
  · subst here
    rcases disconnect_self net j with same | ⟨fd, same⟩
    · rw [same]
      exact speaking.said j
    · rw [same]
      exact (speaking.said j).congr rfl rfl rfl rfl
  · rw [endpoints_disconnect here]
    exact speaking.said j

theorem Speaking.handleWrite (speaking : Speaking net) (i : ι) (send : SendResult) :
    Speaking (net.handleWrite i send).1 := by
  refine ⟨speaking.agree.handleWrite send, fun j => ?_⟩
  by_cases here : j = i
  · subst here
    rcases handleWrite_self net j send with same | ⟨count, took⟩
    · rw [same]
      exact speaking.said j
    · rw [took]
      exact (speaking.said j).took count
  · rw [(endpoints_handleWrite send).2.2 j here]
    exact speaking.said j

theorem Speaking.start (speaking : Speaking net) {outcome : ConnectOutcome}
    {reserved : Vector UInt8 8} (started : net.start i outcome reserved = some after) :
    Speaking after := by
  refine ⟨speaking.agree.start started, ?_⟩
  have fresh : (net.endpoints i).Unstarted := by
    apply speaking.agree.unstarted
    by_contra earlier
    unfold Network.start at started
    rw [if_pos (by simpa using earlier)] at started
    cases started
  rcases speaking.agree.start_cases started with rfl | ⟨fd, loop, -, -, -, rfl⟩
  · exact said_update speaking.said (.inr ⟨fresh.sent, fresh.writeBuffer, fresh.queued⟩)
  · exact said_update speaking.said
      (.inl (Endpoint.intact_greet fresh.writeBuffer fresh.sent fresh.queued))

end Network

namespace Client

variable {ι : Type} [DecidableEq ι]

theorem keeps_speaking (i : ι) : CallbackKeeps i fun client => Network.Speaking client.net where
  peer _ _ speaking := speaking
  store _ _ _ speaking := speaking
  queued _ _ _ _ speaking queued := speaking.queueMessage (net_queueMessage queued)
  connection _ _ state hash speaking := speaking.setConnection state hash
  receive _ _ speaking := speaking
  disconnect _ speaking := speaking.disconnect i
  write _ send speaking := speaking.handleWrite i send

section
variable {setup : Setup} {start final : Client ι} {history : List (Transition (Client ι) (Event ι))}

theorem Fetched.speaking (fetched : Fetched setup start) : Network.Speaking start.net := by
  obtain ⟨myPeerId, addresses, pipeRead, files, attempts, connected⟩ := fetched.connects
  refine @fetchPeers_keeps ι _ start (fun client => Network.Speaking client.net)
    (fun _ _ _ _ _ speaking started => speaking.start started) attempts _ ?_ connected
  exact ⟨Network.agree_new _ _, fun i => .inr ⟨rfl, rfl, rfl⟩⟩

theorem Runs.speaking (runs : Runs setup start history final) : Network.Speaking final.net := by
  apply run_keeps runs.2 runs.1.speaking
  · exact fun client order revents speaking =>
      ⟨agree_polled speaking.agree order revents, speaking.said⟩
  · exact fun client after fd entry events around speaking found ran =>
      (keeps_speaking entry.cb).onSocketEvent speaking ran
  · intro client speaking
    exact @disconnects_keep ι _ (fun client => Network.Speaking client.net)
      (fun client i speaking => speaking.disconnect i) client.connections client speaking

theorem Runs.outgoing (runs : Runs setup start history final) (i : ι) :
    ∀ msg ∈ (final.net.endpoints i).queued, Outgoing setup.torrent msg := by
  intro msg member
  obtain ⟨session, ⟨messages, run⟩, follows⟩ := runs.advances
  have modest := Session.Runs.modest ⟨runs.1.waiting.initial, run⟩
  rw [follows.shows_.queued, List.mem_reverse, List.mem_filterMap] at member
  obtain ⟨entry, passed, out⟩ := member
  cases entry with
  | queued j msg' =>
    simp only [Session.outbound, Option.ite_none_right_eq_some, Option.some.injEq] at out
    rw [← out.2]
    exact modest.queued j msg' passed
  | received j msg' => cases out
  | closed j => cases out

theorem Runs.frames (runs : Runs setup start history final) (i : ι) :
    (final.net.endpoints i).sent = [] ∧ (final.net.endpoints i).writeBuffer = [] ∧
        (final.net.endpoints i).queued = [] ∨
      ∃ frames, messages frames = (final.net.endpoints i).queued ∧
        (final.net.endpoints i).handshake.infoHash = setup.torrent.infoHash ∧
        (final.net.endpoints i).sent ++ (final.net.endpoints i).writeBuffer =
          (final.net.endpoints i).handshake.serialize ++ Frames.bytes Frame.bytes frames := by
  obtain ⟨pipeRead, regular⟩ := runs.regular
  rcases runs.speaking.said i with ⟨bufs, serialized, bytes⟩ | nothing
  · obtain ⟨frames, carried, same⟩ := frames_of_serialized serialized
    exact .inr ⟨frames, carried, regular.hash i, by rw [bytes, same]⟩
  · exact .inl nothing

/-- A client sends its handshake and then, frame after frame, that it is interested and requests
for blocks, and nothing else. -/
theorem sent_eq (runs : Runs setup start history final) (i : ι) :
    (∀ msg ∈ (final.net.endpoints i).queued, Outgoing setup.torrent msg) ∧
      ((final.net.endpoints i).sent = [] ∧ (final.net.endpoints i).writeBuffer = [] ∧
          (final.net.endpoints i).queued = [] ∨
        ∃ frames, messages frames = (final.net.endpoints i).queued ∧
          (final.net.endpoints i).handshake.infoHash = setup.torrent.infoHash ∧
          (final.net.endpoints i).sent ++ (final.net.endpoints i).writeBuffer =
            (final.net.endpoints i).handshake.serialize ++ Frames.bytes Frame.bytes frames) :=
  ⟨runs.outgoing i, runs.frames i⟩

/-- It is interested, and asks for the block. -/
theorem sent_eq_dialled : ∃ history client, Runs Session.oneByte dialled history client ∧
    (client.net.endpoints ()).queued = [Session.interested, BlockRequest.message ⟨0, 0, 1⟩] ∧
    ∀ msg ∈ (client.net.endpoints ()).queued, Outgoing Session.oneByte.torrent msg := by
  obtain ⟨history, client, runs, queued⟩ : ∃ history client,
      Runs Session.oneByte dialled history client ∧
        (client.net.endpoints ()).queued = [Session.interested, BlockRequest.message ⟨0, 0, 1⟩] :=
    ⟨_, _, @runs_of_replay
      [hears itsHandshake, hears [0, 0, 0, 2, 5, 0x80, 0, 0, 0, 1, 1]] _ _ rfl, by decide +kernel⟩
  exact ⟨history, client, runs, queued, (sent_eq runs ()).1⟩

end

end Client

end K0Torrent
