import K0Torrent.Client.Outgoing
import K0Torrent.Session.Trackers
import Mathlib.Data.List.GetD

/-! The program from its start on (`session.cpp`).

`start` asks the trackers for peers, makes a connection for each, and enters the loop if there
are any. What the trackers, the resolver and the sockets do is given from outside.
-/

set_option autoImplicit false

namespace K0Torrent

open Machine

/-! ## The peers that the trackers give -/

section
variable {round : Round} {around : Circumstances} {attempt : Nat → Attempt} {number : Nat}

/-- A tier that has been gone through has given the peers of the first reply. -/
theorem peers_of_tryFrom {peers : List PeerAddress} (rest : Tier) :
    ∀ {done : Tier} {minInterval : Int} {watch : Watch},
      (tryFrom round number attempt done rest minInterval watch).peers = .ok peers →
        peers = (firstReply attempt done.length rest).elim [] TrackerResponse.peers := by
  induction rest with
  | nil =>
    intro done minInterval watch returned
    cases returned
    rfl
  | cons entry rest ih =>
    intro done minInterval watch returned
    rcases met : entry.contact (attempt done.length) with ⟨entry', answer⟩
    have replied : entry.reply (attempt done.length) = answer := congrArg Prod.snd met
    rw [firstReply, List.zipIdx_cons, List.findSome?_cons, replied]
    cases answer with
    | ok response =>
      rw [tryFrom_replied met] at returned
      cases returned
      rfl
    | error thrown =>
      cases thrown with
      | standard what =>
        rw [tryFrom_failed met] at returned
        have later := ih returned
        rwa [List.length_append] at later
      | other =>
        rw [tryFrom_escaped met] at returned
        cases returned

theorem peers_of_visitTiers (ungated : round.gated = false) (tiers : List Tier) :
    ∀ {number : Nat} {sweep : Sweep},
      (visitTiers round around number tiers sweep).2.2 = none →
        (visitTiers round around number tiers sweep).2.1.peers =
          FirstSeen.insertAll sweep.peers (repliedPeers around number tiers) := by
  induction tiers with
  | nil => exact fun _ => rfl
  | cons tier rest ih =>
    intro number sweep none_
    cases returned : (tryTier round number (around.attempt number) tier sweep.minInterval
        (sweep.watch.check round.gated (around.checked number))).peers with
    | error thrown =>
      rw [visitTiers_thrown (by rw [ungated]; rfl) rfl returned] at none_
      cases none_
    | ok peers =>
      rw [visitTiers_ok (by rw [ungated]; rfl) rfl returned] at none_ ⊢
      rw [peers_of_tryFrom tier returned] at none_ ⊢
      exact (ih none_).trans (FirstSeen.insertAll_append ..).symm

end

/-! ## Who a connection is to -/

/-- What is fixed when a connection is made, and that it has been started. -/
def Endpoint.named (endpoint : Endpoint) : PeerAddress × Digest × Bool :=
  (endpoint.address, endpoint.myPeerId, endpoint.started)

namespace Network

variable {ι : Type} [DecidableEq ι] {net after : Network ι} {i : ι} {thrown : Option Thrown}

/-- The endpoints, as far as that goes. -/
def names (net : Network ι) (j : ι) : PeerAddress × Digest × Bool := (net.endpoints j).named

theorem names_update {endpoint : Endpoint} (same : endpoint.named = (net.endpoints i).named) :
    (net.update i endpoint).names = net.names := by
  funext j
  by_cases here : j = i
  · subst here
    simp only [names, endpoints_update_self, same]
  · simp only [names, endpoints_update_of_ne here]

omit [DecidableEq ι] in
theorem names_modify (events : Nat) : (net.modify i events).1.names = net.names := by
  funext j
  simp only [names, endpoints_modify]

theorem names_setConnection (connection : PeerConnection) :
    (net.setConnection i connection).names = net.names :=
  @names_update ι _ net i { net.endpoints i with connection } rfl

theorem names_queueMessage {msg : PeerMessage}
    (queued : net.queueMessage i msg = some (after, thrown)) : after.names = net.names := by
  unfold Network.queueMessage at queued
  split at queued
  · cases queued
    rfl
  · split at queued
    · cases queued
    · have same := congrArg (fun called => called.1.names) (Option.some.inj queued)
      dsimp only at same
      rw [← same, names_modify]
      exact names_update rfl

theorem names_disconnect (net : Network ι) (i : ι) : (net.disconnect i).names = net.names := by
  funext j
  by_cases here : j = i
  · subst here
    rcases disconnect_self net j with same | ⟨fd, same⟩
    · rw [names, same, names]
    · rw [names, same, names]
      rfl
  · rw [names, endpoints_disconnect here, names]

theorem names_handleWrite (send : SendResult) : (net.handleWrite i send).1.names = net.names := by
  funext j
  by_cases here : j = i
  · subst here
    rcases handleWrite_self net j send with same | ⟨count, took⟩
    · rw [names, same, names]
    · rw [names, took, names]
      rfl
  · rw [names, (endpoints_handleWrite send).2.2 j here, names]

/-- A `start` is the first of its connection, and leaves every name but for that. -/
theorem Agree.names_start {outcome : ConnectOutcome} {reserved : Vector UInt8 8} (agree : Agree net)
    (started : net.start i outcome reserved = some after) (j : ι) :
    after.names j = if j = i then ((net.endpoints j).address, (net.endpoints j).myPeerId, true)
      else net.names j := by
  rcases agree.start_cases started with rfl | ⟨fd, loop, -, -, -, rfl⟩
  · by_cases here : j = i
    · subst here
      rw [if_pos rfl, names, endpoints_update_self]
      rfl
    · rw [if_neg here, names, endpoints_update_of_ne here]
      rfl
  · by_cases here : j = i
    · subst here
      simp only [if_true, names, Function.update_self]
      rfl
    · simp only [if_neg here, names, Function.update_of_ne here]

end Network

namespace Client

variable {ι : Type} [DecidableEq ι]

theorem keeps_names (i : ι) (named : ι → PeerAddress × Digest × Bool) :
    CallbackKeeps i fun client => client.net.names = named where
  peer _ _ names := names
  store _ _ _ names := names
  queued _ _ _ _ names queued := (Network.names_queueMessage (net_queueMessage queued)).trans names
  connection _ connection _ _ names := (Network.names_setConnection connection).trans names
  receive _ _ names := names
  disconnect client names := (Network.names_disconnect client.net i).trans names
  write _ send names := (Network.names_handleWrite send).trans names

theorem names_of_run {setup : Setup} {start final : Client ι}
    {history : List (Transition (Client ι) (Event ι))} (run : Run (step setup) start history final) :
    final.net.names = start.net.names := by
  refine @run_keeps ι _ setup start final (fun client => client.net.names = start.net.names) history
    run rfl ?_ ?_ ?_
  · exact fun _ _ _ names => names
  · exact fun client after fd entry events around names found ran =>
      (keeps_names entry.cb _).onSocketEvent names ran
  · intro client names
    exact @disconnects_keep ι _ (fun client => client.net.names = start.net.names)
      (fun client i names => (Network.names_disconnect client.net i).trans names)
      client.connections client names

section
variable {client final : Client ι}

/-- The connections of a client that have been started, and to whom. -/
structure Dialled (addresses : ι → PeerAddress) (myPeerId : Digest) (client : Client ι) : Prop where
  agree : Network.Agree client.net
  address : ∀ i, (client.net.endpoints i).address = addresses i
  me : ∀ i, (client.net.endpoints i).myPeerId = myPeerId
  started : ∀ i, (client.net.endpoints i).started = true ↔ i ∈ client.connections

theorem Dialled.start {addresses : ι → PeerAddress} {myPeerId : Digest}
    (dialled : Dialled addresses myPeerId client) {i : ι} {outcome : ConnectOutcome}
    {reserved : Vector UInt8 8} {net : Network ι}
    (started : client.net.start i outcome reserved = some net) :
    Dialled addresses myPeerId { client with net, connections := client.connections ++ [i] } := by
  have names := dialled.agree.names_start started
  refine ⟨dialled.agree.start started, fun j => ?_, fun j => ?_, fun j => ?_⟩
  · have same := congrArg Prod.fst (names j)
    split at same
    · exact same.trans (dialled.address j)
    · exact same.trans (dialled.address j)
  · have same := congrArg (fun named => named.2.1) (names j)
    split at same
    · exact same.trans (dialled.me j)
    · exact same.trans (dialled.me j)
  · have same := congrArg (fun named => named.2.2) (names j)
    rw [List.mem_append, List.mem_singleton]
    split at same
    · rename_i here
      exact iff_of_true same (.inr here)
    · rename_i other
      rw [or_iff_left other]
      exact (Bool.coe_iff_coe.mpr same).trans (dialled.started j)

theorem connections_fetchPeers {attempts : List (ι × ConnectOutcome × Vector UInt8 8)} :
    ∀ {client : Client ι}, fetchPeers attempts client = some final →
      final.connections = client.connections ++ attempts.map Prod.fst := by
  induction attempts with
  | nil =>
    intro client fetched
    cases fetched
    exact (List.append_nil _).symm
  | cons attempt attempts ih =>
    intro client fetched
    obtain ⟨i, outcome, reserved⟩ := attempt
    rw [fetchPeers] at fetched
    split at fetched
    · cases fetched
    · exact (ih fetched).trans (List.append_assoc ..)

end

end Client

/-! ## The program -/

/-- What the constructor of the session and `start` meet. -/
structure Startup where
  myPeerId : Digest
  now : Int
  around : Circumstances
  pipeRead : Int
  files : FileStore.Files (LexicalPath.Place Bytes) UInt8
  meets : Nat → ConnectOutcome × Vector UInt8 8

namespace Startup

section
variable (startup : Startup) (setup : Setup)

/-- The tracker manager of the constructor. -/
def announcer : Announcer := Session.newAnnouncer setup.torrent startup.myPeerId startup.now

/-- What `fetch_peers` asks for. -/
def announced : Announcer × Except Thrown (List PeerAddress) :=
  Session.fetchPeers setup.torrent (startup.announcer setup) startup.around

/-- The rest of `fetch_peers`. The connections are numbered in the order of the peers. -/
def dial (peers : List PeerAddress) : Option (Client Nat) :=
  Client.fetchPeers ((List.range peers.length).map fun i => (i, startup.meets i))
    (Client.new setup startup.myPeerId (fun i => peers.getD i ⟨0, 0⟩) startup.pipeRead
      (.fresh startup.files))

/-- The runs of the program, from where `fetch_peers` has returned. -/
structure Runs (start : Client Nat)
    (history : List (Transition (Client Nat) (Client.Event Nat))) (final : Client Nat) : Prop where
  fetched : ∃ peers, (startup.announced setup).2 = .ok peers ∧ startup.dial setup peers = some start
  run : Run (Client.step setup) start history final
  -- Without a connection the loop is not entered.
  idle : start.connections = [] → ∀ x ∈ history, x.event = .stop

end

section
variable {startup : Startup} {setup : Setup} {start final : Client Nat}
  {history : List (Transition (Client Nat) (Client.Event Nat))}

/-- They are runs of a client, so that all that holds of those holds here. -/
theorem Runs.client (runs : startup.Runs setup start history final) :
    Client.Runs setup start history final := by
  obtain ⟨peers, -, dialled⟩ := runs.fetched
  exact ⟨⟨_, _, _, _, _, dialled⟩, runs.run⟩

theorem peers_of_announced {peers : List PeerAddress}
    (told : (startup.announced setup).2 = .ok peers) :
    peers = FirstSeen.insertAll [] (repliedPeers startup.around 0
      (startup.announcer setup).manager.tiers) := by
  have collected := @peers_of_visitTiers
  unfold announced Session.fetchPeers Announcer.announce Announcer.visit at told
  dsimp only at told
  split at told
  · rename_i none_
    cases told
    exact collected rfl _ none_
  · cases told

theorem request_of_announced {c : Contact}
    (member : c ∈ (startup.announced setup).1.watch.contacts) : c.round.request =
      { infoHash := setup.torrent.infoHash, peerId := startup.myPeerId, port := Session.listenPort,
        downloaded := 0, uploaded := 0, left := Session.left setup.torrent, event := .started } := by
  unfold announced Session.fetchPeers Announcer.announce Announcer.visit at member
  dsimp only at member
  obtain ⟨new, contacts, tried⟩ := @tried_visitTiers
    ⟨(startup.announcer setup).calls, false, _⟩ startup.around (startup.announcer setup).manager.tiers 0
    ⟨(startup.announcer setup).manager.minInterval, (startup.announcer setup).watch, []⟩
  rw [contacts] at member
  obtain ⟨i, tier, -, tried⟩ := tried c ((List.mem_append.mp member).resolve_right List.not_mem_nil)
  rw [tried.sameRound]
  rfl

theorem dialled_of_dial {peers : List PeerAddress} (dialled : startup.dial setup peers = some start) :
    Client.Dialled (fun i => peers.getD i ⟨0, 0⟩) startup.myPeerId start ∧
      start.connections = List.range peers.length := by
  constructor
  · apply Client.fetchPeers_keeps (fun _ _ _ _ _ dialled started => dialled.start started) ?_ dialled
    exact ⟨Network.agree_new _ _, fun _ => rfl, fun _ => rfl, fun _ =>
      iff_of_false Bool.false_ne_true List.not_mem_nil⟩
  · rw [Client.connections_fetchPeers dialled, List.map_map]
    exact List.map_id _

theorem Runs.named (runs : startup.Runs setup start history final) : ∃ peers : List PeerAddress,
    peers = FirstSeen.insertAll [] (repliedPeers startup.around 0
        (startup.announcer setup).manager.tiers) ∧
      ∀ i, (final.net.endpoints i).address = peers.getD i ⟨0, 0⟩ ∧
        (final.net.endpoints i).myPeerId = startup.myPeerId ∧
        ((final.net.endpoints i).started = true ↔ i < peers.length) := by
  obtain ⟨peers, told, dialled⟩ := runs.fetched
  obtain ⟨named, connections⟩ := dialled_of_dial dialled
  refine ⟨peers, peers_of_announced told, fun i => ?_⟩
  have same : (final.net.endpoints i).named = (start.net.endpoints i).named :=
    congrFun (Client.names_of_run runs.run) i
  have started := congrArg (fun named => named.2.2) same
  refine ⟨(congrArg Prod.fst same).trans (named.address i),
    (congrArg (fun named => named.2.1) same).trans (named.me i), ?_⟩
  rw [← List.mem_range, ← connections, ← named.started i]
  exact Bool.coe_iff_coe.mpr started

/-- In every run the program has dialled each address that is in the first reply of a tier, over
one connection, and no other. What it sends there begins with the handshake for the torrent and
the peer id that each announce has told. -/
theorem dialled_exactly (runs : startup.Runs setup start history final) :
    (∀ address, (∃ i, (final.net.endpoints i).started = true ∧
        (final.net.endpoints i).address = address) ↔
      address ∈ repliedPeers startup.around 0 (startup.announcer setup).manager.tiers) ∧
    (∀ i j, (final.net.endpoints i).started = true → (final.net.endpoints j).started = true →
      (final.net.endpoints i).address = (final.net.endpoints j).address → i = j) ∧
    (∀ i, (final.net.endpoints i).sent ++ (final.net.endpoints i).writeBuffer = [] ∨
      (final.net.endpoints i).started = true ∧ ∃ reserved rest,
        (final.net.endpoints i).sent ++ (final.net.endpoints i).writeBuffer =
          Handshake.serialize ⟨reserved, setup.torrent.infoHash, startup.myPeerId⟩ ++ rest) ∧
    ∀ c ∈ (startup.announced setup).1.watch.contacts, c.round.request =
      { infoHash := setup.torrent.infoHash, peerId := startup.myPeerId, port := Session.listenPort,
        downloaded := 0, uploaded := 0, left := Session.left setup.torrent, event := .started } := by
  obtain ⟨peers, told, named⟩ := runs.named
  have nodup : peers.Nodup := told ▸ FirstSeen.nodup_insertAll List.nodup_nil _
  have address {i : Nat} (bound : i < peers.length) : (final.net.endpoints i).address = peers[i] :=
    (named i).1.trans (List.getD_eq_getElem _ _ bound)
  refine ⟨fun address' => ?_, fun i j first second same => ?_, fun i => ?_,
    fun c => request_of_announced⟩
  · rw [FirstSeen.insertAll_nil] at told
    rw [← List.mem_eraseDups, ← told, List.mem_iff_getElem]
    constructor
    · rintro ⟨i, started, rfl⟩
      have bound := (named i).2.2.mp started
      exact ⟨i, bound, (address bound).symm⟩
    · rintro ⟨i, bound, rfl⟩
      exact ⟨i, (named i).2.2.mpr bound, address bound⟩
  · have bound := (named i).2.2.mp first
    have bound' := (named j).2.2.mp second
    rw [address bound, address bound'] at same
    exact nodup.getElem_inj_iff.mp same
  · obtain ⟨pipeRead, regular⟩ := runs.client.regular
    rcases runs.client.speaking.said i with ⟨bufs, -, bytes⟩ | ⟨sent, writeBuffer, -⟩
    · cases started : (final.net.endpoints i).started with
      | true =>
        refine .inr ⟨rfl, (final.net.endpoints i).reserved, bufs.flatten, ?_⟩
        rw [bytes, Endpoint.handshake, regular.hash i, (named i).2.1]
      | false =>
        have fresh := regular.agree.unstarted i started
        left
        rw [fresh.sent, fresh.writeBuffer]
        rfl
    · left
      rw [sent, writeBuffer]
      rfl

end

/-! ## Two tiers -/

def tracked : Setup :=
  { Session.oneByte with torrent := { Session.oneByte.torrent with announceList := twoTiers } }

/-- Both tiers reply, with a peer that they have in common. The second peer refuses. -/
def answered : Startup where
  myPeerId := .replicate 20 2
  now := 0
  around := allReply
  pipeRead := 3
  files _ := []
  meets i := (if i = 1 then .refused else .opened (9 + i), .replicate 8 0)

theorem dialled_exactly_answered : ∃ start history final, answered.Runs tracked start history final ∧
    (final.net.endpoints 2).sent.length = Handshake.handshakeSize ∧
    (∀ address, (∃ i, (final.net.endpoints i).started = true ∧
        (final.net.endpoints i).address = address) ↔
      address ∈ [⟨9, 9⟩, ⟨0, 1⟩, ⟨9, 9⟩, ⟨1, 0⟩]) ∧
    ∀ i j, (final.net.endpoints i).started = true → (final.net.endpoints j).started = true →
      (final.net.endpoints i).address = (final.net.endpoints j).address → i = j := by
  obtain ⟨start, history, final, runs, sent⟩ : ∃ start history final,
      answered.Runs tracked start history final ∧
        (final.net.endpoints 2).sent.length = Handshake.handshakeSize := by
    refine ⟨_, _, _, ⟨⟨_, rfl, rfl⟩, @run_of_replay _ _ (Client.step tracked) _
      [.pass (.asStored _) Client.ready (Client.hearing [])] _ _ _ _ .start rfl, ?_⟩, rfl⟩
    exact fun none_ => nomatch none_
  exact ⟨start, history, final, runs, sent, (dialled_exactly runs).1, (dialled_exactly runs).2.1⟩

end Startup

end K0Torrent
