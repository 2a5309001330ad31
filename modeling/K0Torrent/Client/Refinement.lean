import K0Torrent.Client.Messages

/-! The runs of a client as runs of its connections and of its session. -/

set_option autoImplicit false

namespace K0Torrent

open Machine

/-! ## Before the first message -/

namespace Network

variable {ι : Type} [DecidableEq ι] {net after : Network ι} {i : ι}

/-- A `start` either leaves the connection alone or gives it a socket and queues its handshake. -/
theorem Agree.start_cases {outcome : ConnectOutcome} {reserved : Vector UInt8 8} (agree : Agree net)
    (started : net.start i outcome reserved = some after) :
    after = net.update i { net.endpoints i with started := true, reserved } ∨
      ∃ fd loop, 0 ≤ fd ∧ fd ∉ net.opened ∧ net.loop.add fd (pollIn ||| pollOut) i = .ok loop ∧
        after = { net with
          endpoints := Function.update net.endpoints i
            (Endpoint.greet { net.endpoints i with started := true, reserved, fd })
          loop, opened := insert fd net.opened } := by
  unfold Network.start at started
  dsimp only at started
  split at started
  · cases started
  · rename_i first
    have fresh := agree.unstarted i (Bool.eq_false_iff.mpr first)
    split at started
    · rename_i error failed
      rw [not_inProgress failed, if_neg Bool.false_ne_true] at started
      cases started
      left
      have dead : ((net.update i { net.endpoints i with started := true, reserved }).endpoints
          i).state = .disconnected := by
        rw [endpoints_update_self]
        exact fresh.state
      unfold Network.disconnect
      exact if_pos dead
    · rename_i fd connected
      split at started
      · rename_i unused
        cases started
        right
        cases added : net.loop.add fd (pollIn ||| pollOut) i with
        | error error =>
          -- A descriptor that is registered would be open.
          exfalso
          unfold EventLoop.add at added
          split at added
          · rename_i found
            obtain ⟨entry, found⟩ := Option.isSome_iff_exists.mp found
            obtain ⟨alive, at_⟩ := agree.registered fd entry found
            exact unused.2 (at_ ▸ (agree.live _ alive).2.1)
          · cases added
        | ok loop =>
          refine ⟨fd, loop, unused.1, unused.2, added, ?_⟩
          unfold Network.register
          simp only [update, Function.update_self, added, Function.update_idem]
      · cases started

/-- Nothing has come in over the connection, and no message is to go. -/
structure Unheard (endpoint : Endpoint) : Prop where
  waits : endpoint.state ≠ .connected
  readBuffer : endpoint.connection.readBuffer = []
  delivered : endpoint.connection.delivered = []
  queued : endpoint.queued = []

theorem unheard_start {outcome : ConnectOutcome} {reserved : Vector UInt8 8} (agree : Agree net)
    (unheard : ∀ j, Unheard (net.endpoints j)) (started : net.start i outcome reserved = some after)
    (j : ι) : Unheard (after.endpoints j) := by
  rcases agree.start_cases started with rfl | ⟨fd, loop, -, -, -, rfl⟩
  · by_cases here : j = i
    · subst here
      rw [endpoints_update_self]
      exact ⟨(unheard j).waits, (unheard j).readBuffer, (unheard j).delivered, (unheard j).queued⟩
    · rw [endpoints_update_of_ne here]
      exact unheard j
  · by_cases here : j = i
    · subst here
      simp only [Function.update_self]
      exact ⟨(fun same => by cases same), (unheard j).readBuffer, (unheard j).delivered,
        (unheard j).queued⟩
    · simp only [Function.update_of_ne here]
      exact unheard j

end Network

namespace Client

variable {ι : Type} [DecidableEq ι]

/-- A client whose connections have been started, or have failed to. -/
structure Waiting (setup : Setup) (client : Client ι) : Prop where
  agree : Network.Agree client.net
  unheard : ∀ i, Network.Unheard (client.net.endpoints i)
  peers : ∀ i, client.peers i = {}
  pieces : client.pieces = PieceManager.new setup.torrent
  disk : ∃ files, client.disk = .fresh files
  arrived : ∀ i, client.arrived i = []

section
variable {setup : Setup} {client after : Client ι}

theorem Waiting.fetchPeers {attempts : List (ι × ConnectOutcome × Vector UInt8 8)} :
    ∀ {client : Client ι}, Waiting setup client → fetchPeers attempts client = some after →
      Waiting setup after := by
  induction attempts with
  | nil =>
    intro client waiting fetched
    cases fetched
    exact waiting
  | cons attempt attempts ih =>
    intro client waiting fetched
    obtain ⟨i, outcome, reserved⟩ := attempt
    rw [Client.fetchPeers] at fetched
    split at fetched
    · cases fetched
    · rename_i net started
      have next : Waiting setup { client with net, connections := client.connections ++ [i] } :=
        ⟨waiting.agree.start started, Network.unheard_start waiting.agree waiting.unheard started,
          waiting.peers, waiting.pieces, waiting.disk, waiting.arrived⟩
      exact ih next fetched

theorem Fetched.waiting (fetched : Fetched setup client) : Waiting setup client := by
  obtain ⟨myPeerId, addresses, pipeRead, files, attempts, connected⟩ := fetched.connects
  have fresh : Waiting setup (new setup myPeerId addresses pipeRead (.fresh files)) :=
    ⟨Network.agree_new _ _, fun _ => ⟨(fun same => by cases same), rfl, rfl, rfl⟩, fun _ => rfl, rfl,
      ⟨files, rfl⟩, fun _ => rfl⟩
  exact fresh.fetchPeers connected

/-- The session of a client before its first message. -/
def session (client : Client ι) : Session ι where
  connections i := { state := (client.net.endpoints i).state, peer := client.peers i }
  pieces := client.pieces
  disk := client.disk
  wire := []

omit [DecidableEq ι] in
theorem Waiting.initial (waiting : Waiting setup client) :
    Session.Initial setup client.session where
  waiting i := (waiting.unheard i).waits
  fresh := waiting.peers
  pieces := waiting.pieces
  disk := waiting.disk
  silent := rfl

theorem Waiting.follows (waiting : Waiting setup client) : Follows client client.session :=
  ⟨waiting.agree, fun _ => rfl, fun _ => rfl, rfl, rfl, fun i => (waiting.unheard i).delivered,
    fun i => (waiting.unheard i).queued⟩

end

/-! ## Steps -/

section
variable {setup : Setup} {client after : Client ι} {session : Session ι}

theorem agree_polled (agree : Network.Agree client.net) (order : EventLoop.EntryOrder ι)
    (revents : Nat → Nat) : Network.Agree (client.polled order revents).net := by
  have taken : Network.step client.net (.poll order _) = some (client.polled order revents).net := rfl
  exact agree.step taken

theorem Follows.polled (follows : Follows client session) (order : EventLoop.EntryOrder ι)
    (revents : Nat → Nat) : Follows (client.polled order revents) session where
  agree := agree_polled follows.agree order revents
  shows_ := follows.shows_.of_endpoints fun _ => ⟨rfl, rfl, rfl⟩

theorem Follows.runOnce {order : EventLoop.EntryOrder ι} {revents : Nat → Nat}
    {around : Nat → Surroundings} (follows : Follows client session)
    (ran : client.runOnce setup order revents around = some after) :
    Advances setup around session after := by
  have polled := follows.polled order revents
  rcases runOnce_cases ran with rfl | ⟨rest, ready, dispatched⟩
  · exact polled.advances
  · exact polled.dispatch dispatched

theorem Follows.disconnects {connections : List ι} :
    ∀ {client : Client ι} {session : Session ι}, Follows client session →
      ∃ next, ReachesBy (fun e => ∃ i, e = .disconnect i) (Session.step setup) session next ∧
        Follows { client with net := connections.foldl Network.disconnect client.net } next := by
  induction connections with
  | nil => exact fun follows => ⟨_, .refl _, follows⟩
  | cons i connections ih =>
    intro client session follows
    obtain ⟨next, reaches, follows⟩ := @Follows.closes ι _ setup client session follows i
    obtain ⟨last, further, follows⟩ := ih follows
    exact ⟨last, reaches.trans further, follows⟩

theorem Follows.stop (follows : Follows client session) :
    ∃ next, ReachesBy (fun e => ∃ i, e = .disconnect i) (Session.step setup) session next ∧
      Follows client.stop next := by
  obtain ⟨last, reaches, agree, shows_⟩ :=
    @Follows.disconnects ι _ setup client.connections client session follows
  exact ⟨last, reaches, agree, shows_.state, shows_.peer, shows_.pieces, shows_.disk,
    shows_.delivered, shows_.queued⟩

/-- What the session does in a pass is prompted by the callbacks of that pass. -/
def Answers : Event ι → K0Torrent.Event ι → Prop
  | .pass _ _ around, e => Prompted around e
  | .stop, e => ∃ i, e = .disconnect i

theorem session_simulates (setup : Setup) :
    Simulates (step setup) (Session.step setup) Answers (Follows (ι := ι)) := by
  intro client session e next follows taken
  cases e with
  | pass order revents around => exact follows.runOnce taken
  | stop =>
    cases taken
    exact follows.stop

end

/-! ## Runs -/

section
variable {setup : Setup} {start final : Client ι} {history : List (Transition (Client ι) (Event ι))}

theorem Runs.answers (runs : Runs setup start history final) :
    ∃ session messages, Run (Session.step setup) start.session messages session ∧
      Follows final session ∧ ∀ y ∈ messages, ∃ x ∈ history, Answers x.event y.event :=
  (session_simulates setup).run runs.1.waiting.follows runs.2

theorem Runs.advances (runs : Runs setup start history final) :
    ∃ session, Reaches (Session.step setup) start.session session ∧ Follows final session := by
  obtain ⟨session, messages, run, follows, -⟩ := runs.answers
  exact ⟨session, ⟨messages, run⟩, follows⟩

/-- What a client does to its connections is a run of the network, and what it does to its peers,
its pieces and its files is a run of the session over the messages that the connections have
delivered. -/
theorem exists_session_run (runs : Runs setup start history final) :
    (∃ myPeerId, ∃ addresses : ι → PeerAddress, ∃ pipeRead calls, Run Network.step
      (Network.new (fun i => (addresses i, setup.torrent.infoHash, myPeerId)) pipeRead) calls
      final.net) ∧
    ∃ session messages, Session.Runs setup start.session messages session ∧ Shows final session := by
  constructor
  · obtain ⟨myPeerId, addresses, pipeRead, calls, run⟩ := net_of_runs runs
    exact ⟨myPeerId, addresses, pipeRead, calls, run⟩
  · obtain ⟨session, ⟨messages, run⟩, follows⟩ := runs.advances
    exact ⟨session, messages, ⟨runs.1.waiting.initial, run⟩, follows.shows_⟩

/-! ## One peer -/

/-- A client that has been told of one peer, and has connected to it. -/
def dialled : Client Unit :=
  (fetchPeers [((), .opened 9, .replicate 8 0)]
    (new Session.oneByte (.replicate 20 2) (fun _ => ⟨0x0100007F, 6881⟩) 3 (.fresh fun _ => []))).get rfl

theorem fetched_dialled : Fetched Session.oneByte dialled :=
  ⟨.replicate 20 2, fun _ => ⟨0x0100007F, 6881⟩, 3, fun _ => [],
    [((), .opened 9, .replicate 8 0)], rfl⟩

/-- The peer's socket is ready for anything. -/
def ready (k : Nat) : Nat := if k = 1 then pollIn ||| pollOut else 0

/-- It has these bytes to read, and takes all that is to be written. -/
def hearing (bytes : Bytes) (_ : Nat) : Surroundings where
  send := .accepted 1000
  recv := .data bytes
  orders _ := Session.inOrder
  results _ := []

def hears (bytes : Bytes) : Event Unit := .pass (.asStored _) ready (hearing bytes)

def itsHandshake : Bytes :=
  Handshake.serialize ⟨.replicate 8 0, Session.oneByte.torrent.infoHash, .replicate 20 7⟩

theorem runs_of_replay (events : List (Event Unit)) {final : Client Unit}
    {history : List (Transition (Client Unit) (Event Unit))}
    (replayed : replay (step Session.oneByte) [] dialled events = some (history, final)) :
    Runs Session.oneByte dialled history final :=
  ⟨fetched_dialled, run_of_replay .start replayed⟩

/-- The peer has the piece and unchokes the client. -/
theorem exists_session_run_dialled : ∃ history final, Runs Session.oneByte dialled history final ∧
    (final.net.endpoints ()).connection.delivered = [⟨.bitfield, [0x80]⟩, ⟨.unchoke, []⟩] ∧
    ∃ session messages, Session.Runs Session.oneByte dialled.session messages session ∧
      Shows final session := by
  have runs := @runs_of_replay
    [hears itsHandshake, hears [0, 0, 0, 2, 5, 0x80, 0, 0, 0, 1, 1]] _ _ rfl
  exact ⟨_, _, runs, rfl, (exists_session_run runs).2⟩

end

end Client

end K0Torrent
