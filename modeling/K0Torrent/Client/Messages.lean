import K0Torrent.Client.Connections
import K0Torrent.Peer.Disconnecting
import K0Torrent.Session.Invariant

/-! The session in the client.

What a callback does to the session is a run of it, one message after the other. What its
wire has seen of a connection is what that connection has delivered and queued.
-/

set_option autoImplicit false

namespace K0Torrent

namespace Session

variable {ι : Type} [DecidableEq ι]

/-- What has come over a connection, and what was to go. -/
def inbound (i : ι) : Wire ι → Option PeerMessage
  | .received j msg => if j = i then some msg else none
  | .queued .. | .closed _ => none

def outbound (i : ι) : Wire ι → Option PeerMessage
  | .queued j msg => if j = i then some msg else none
  | .received .. | .closed _ => none

section
variable (wire : List (Wire ι)) (i j : ι) (msg : PeerMessage)

@[simp] theorem filterMap_inbound_received :
    (.received j msg :: wire).filterMap (inbound i) =
      if j = i then msg :: wire.filterMap (inbound i) else wire.filterMap (inbound i) := by
  by_cases here : j = i <;> simp [inbound, here]

@[simp] theorem filterMap_outbound_queued :
    (.queued j msg :: wire).filterMap (outbound i) =
      if j = i then msg :: wire.filterMap (outbound i) else wire.filterMap (outbound i) := by
  by_cases here : j = i <;> simp [outbound, here]

@[simp] theorem filterMap_inbound_queued :
    (.queued j msg :: wire).filterMap (inbound i) = wire.filterMap (inbound i) :=
  List.filterMap_cons_none rfl

@[simp] theorem filterMap_outbound_received :
    (.received j msg :: wire).filterMap (outbound i) = wire.filterMap (outbound i) :=
  List.filterMap_cons_none rfl

@[simp] theorem filterMap_inbound_closed :
    (.closed j :: wire).filterMap (inbound i) = wire.filterMap (inbound i) :=
  List.filterMap_cons_none rfl

@[simp] theorem filterMap_outbound_closed :
    (.closed j :: wire).filterMap (outbound i) = wire.filterMap (outbound i) :=
  List.filterMap_cons_none rfl

end

theorem state_onPeerMessage (setup : Setup) (order : IterationOrder) (results : List SliceResult)
    (session : Session ι) (i j : ι) (msg : PeerMessage) :
    ((onPeerMessage setup order results session i msg).connections j).state =
      (session.connections j).state := by
  have handles := onPeerMessage_handles setup order results session i msg
  generalize onPeerMessage setup order results session i msg = next at handles
  cases handles with
  | noted => exact state_setPeer ..
  | greeted =>
    rw [connections_queueMessage]
    exact state_setPeer ..
  | unchoked =>
    rw [connections_requestNextBlocks]
    exact state_setPeer ..
  | delivered => rw [connections_requestNextBlocks]

end Session

/-- The socket takes bytes, or nothing happens. -/
theorem Network.handleWrite_self {ι : Type} [DecidableEq ι] (net : Network ι) (i : ι)
    (send : SendResult) : (net.handleWrite i send).1.endpoints i = net.endpoints i ∨
      ∃ count, (net.handleWrite i send).1.endpoints i = (net.endpoints i).took count := by
  unfold Network.handleWrite
  split
  · exact .inl rfl
  · split
    · exact .inl rfl
    · cases send with
      | failed => exact .inl rfl
      | accepted count =>
        refine .inr ⟨count, ?_⟩
        dsimp only
        split
        · rw [Network.endpoints_modify, Network.endpoints_update_self]
        · rw [Network.endpoints_update_self]

namespace Client

open Machine

variable {ι : Type} [DecidableEq ι]

/-- The session that is in the client. -/
structure Shows (client : Client ι) (session : Session ι) : Prop where
  state : ∀ i, (session.connections i).state = (client.net.endpoints i).state
  peer : ∀ i, session.peer i = client.peers i
  pieces : session.pieces = client.pieces
  disk : session.disk = client.disk
  delivered : ∀ i, (client.net.endpoints i).connection.delivered =
    (session.wire.filterMap (Session.inbound i)).reverse
  queued : ∀ i, (client.net.endpoints i).queued =
    (session.wire.filterMap (Session.outbound i)).reverse

/-- And no call of the loop is going to fail. -/
structure Follows (client : Client ι) (session : Session ι) : Prop where
  agree : Network.Agree client.net
  shows_ : Shows client session

/-! ## Single calls -/

section
variable {client after : Client ι} {session : Session ι} {i : ι} {thrown : Option Thrown}

/-- What the session does not see of a connection. -/
theorem Shows.of_endpoints (shows_ : Shows client session) {net : Network ι}
    (same : ∀ j, (net.endpoints j).state = (client.net.endpoints j).state ∧
      (net.endpoints j).connection.delivered = (client.net.endpoints j).connection.delivered ∧
      (net.endpoints j).queued = (client.net.endpoints j).queued) :
    Shows { client with net } session where
  state j := (shows_.state j).trans (same j).1.symm
  peer := shows_.peer
  pieces := shows_.pieces
  disk := shows_.disk
  delivered j := (same j).2.1.trans (shows_.delivered j)
  queued j := (same j).2.2.trans (shows_.queued j)

theorem Shows.setConnection (shows_ : Shows client session) {connection : PeerConnection}
    (state : connection.state = (client.net.endpoints i).state)
    (delivered : connection.delivered = (client.net.endpoints i).connection.delivered) :
    Shows (client.setConnection i connection) session := by
  apply shows_.of_endpoints
  intro j
  by_cases here : j = i
  · subst here
    simpa [Endpoint.state] using ⟨state, delivered⟩
  · rw [Network.endpoints_setConnection_of_ne here]
    exact ⟨rfl, rfl, rfl⟩

theorem Follows.setConnection (follows : Follows client session) {connection : PeerConnection}
    (state : connection.state = (client.net.endpoints i).state)
    (hash : connection.infoHash = (client.net.endpoints i).connection.infoHash)
    (delivered : connection.delivered = (client.net.endpoints i).connection.delivered) :
    Follows (client.setConnection i connection) session where
  agree := follows.agree.setConnection (by rw [state]) hash
  shows_ := follows.shows_.setConnection state delivered

/-- The frame has been taken off the buffer. -/
theorem Follows.consume (follows : Follows client session) (count : Nat) :
    Follows (client.setConnection i { (client.net.endpoints i).connection with
      readBuffer := (client.net.endpoints i).connection.readBuffer.drop count }) session :=
  follows.setConnection rfl rfl rfl

theorem Follows.receive (follows : Follows client session) (bytes : Bytes) :
    Follows (client.receive i bytes) session :=
  ⟨follows.agree, follows.shows_.state, follows.shows_.peer, follows.shows_.pieces,
    follows.shows_.disk, follows.shows_.delivered, follows.shows_.queued⟩

theorem Follows.setPeer (follows : Follows client session) (peer : Peer) :
    Follows (client.setPeer i peer) (session.setPeer i peer) where
  agree := follows.agree
  shows_.state j := (Session.state_setPeer ..).trans (follows.shows_.state j)
  shows_.peer j := by
    change _ = Function.update client.peers i peer j
    rw [Session.peer_setPeer, Function.update_apply, follows.shows_.peer]
  shows_.pieces := follows.shows_.pieces
  shows_.disk := follows.shows_.disk
  shows_.delivered := follows.shows_.delivered
  shows_.queued := follows.shows_.queued

theorem Follows.setPieces (follows : Follows client session) (pieces : PieceManager) :
    Follows { client with pieces } { session with pieces } :=
  ⟨follows.agree, follows.shows_.state, follows.shows_.peer, rfl, follows.shows_.disk,
    follows.shows_.delivered, follows.shows_.queued⟩

theorem Follows.store (follows : Follows client session) (disk : Disk) (pieces : PieceManager) :
    Follows { client with disk, pieces } { session with disk, pieces } :=
  ⟨follows.agree, follows.shows_.state, follows.shows_.peer, rfl, rfl, follows.shows_.delivered,
    follows.shows_.queued⟩

/-- The message that is about to be handled has come in. -/
theorem Follows.record (follows : Follows client session) (msg : PeerMessage) :
    Follows (client.setConnection i { (client.net.endpoints i).connection with
      delivered := (client.net.endpoints i).connection.delivered ++ [msg] })
      (session.record i msg) where
  agree := follows.agree.setConnection Iff.rfl rfl
  shows_ := by
    have others {j : ι} (apart : j ≠ i) := @Network.endpoints_setConnection_of_ne ι _ client.net i j
      apart { (client.net.endpoints i).connection with
        delivered := (client.net.endpoints i).connection.delivered ++ [msg] }
    refine ⟨fun j => ?_, follows.shows_.peer, follows.shows_.pieces, follows.shows_.disk,
      fun j => ?_, fun j => ?_⟩
    · by_cases here : j = i
      · subst here
        simpa [Endpoint.state, Session.record] using follows.shows_.state j
      · rw [net_setConnection, others here]
        exact follows.shows_.state j
    · by_cases here : j = i
      · subst here
        simp [Session.record, follows.shows_.delivered j]
      · have apart : i ≠ j := fun same => here same.symm
        rw [net_setConnection, others here]
        simpa [Session.record, apart] using follows.shows_.delivered j
    · by_cases here : j = i
      · subst here
        simpa [Session.record] using follows.shows_.queued j
      · rw [net_setConnection, others here]
        simpa [Session.record] using follows.shows_.queued j

theorem Follows.queueMessage (follows : Follows client session) {msg : PeerMessage}
    (queued : client.queueMessage i msg = some (after, thrown)) :
    thrown = none ∧ Follows after (session.queueMessage i msg) := by
  obtain ⟨⟨net, thrown'⟩, ran, same⟩ := Option.map_eq_some_iff.mp queued
  cases same
  obtain ⟨agree, returned⟩ := follows.agree.queueMessage ran
  refine ⟨returned, agree, ?_⟩
  unfold Network.queueMessage at ran
  by_cases connected : (client.net.endpoints i).state = .connected
  · rw [if_neg (not_not_intro connected)] at ran
    have heard : (session.connections i).state = .connected :=
      (follows.shows_.state i).trans connected
    split at ran
    · cases ran
    · rename_i buf serialized
      have endpoints := congrArg (fun called => called.1.endpoints) (Option.some.inj ran)
      dsimp only at endpoints
      rw [Network.endpoints_modify] at endpoints
      have wire := Session.wire_queueMessage session i msg
      rw [if_pos heard] at wire
      refine ⟨fun j => ?_, fun j => ?_, ?_, ?_, fun j => ?_, fun j => ?_⟩
      · rw [Session.connections_queueMessage, follows.shows_.state, ← endpoints]
        by_cases here : j = i
        · subst here
          simp [Endpoint.queue, Endpoint.state]
        · rw [Network.endpoints_update_of_ne here]
      · rw [Session.peer_queueMessage]
        exact follows.shows_.peer j
      · rw [Session.pieces_queueMessage]
        exact follows.shows_.pieces
      · rw [Session.disk_queueMessage]
        exact follows.shows_.disk
      · rw [wire, ← endpoints]
        by_cases here : j = i
        · subst here
          simpa [Endpoint.queue] using follows.shows_.delivered j
        · rw [Network.endpoints_update_of_ne here]
          simpa using follows.shows_.delivered j
      · rw [wire, ← endpoints]
        by_cases here : j = i
        · subst here
          simp [Endpoint.queue, follows.shows_.queued j]
        · have apart : i ≠ j := fun same => here same.symm
          rw [Network.endpoints_update_of_ne here]
          simpa [apart] using follows.shows_.queued j
  · rw [if_pos connected] at ran
    cases ran
    have silent : (session.connections i).state ≠ .connected := by
      rw [follows.shows_.state]
      exact connected
    rw [Session.queueMessage, if_pos silent]
    exact follows.shows_

/-! ## One message -/

theorem Follows.requestBlocks {order : IterationOrder} {left : Nat} :
    ∀ {client : Client ι} {session : Session ι}, Follows client session →
      requestBlocks order i left client = some (after, thrown) →
        thrown = none ∧ Follows after (Session.requestBlocks order i left session) := by
  induction left with
  | zero =>
    intro client session follows ran
    cases ran
    exact ⟨rfl, follows⟩
  | succ left ih =>
    intro client session follows ran
    rw [Session.requestBlocks, follows.shows_.pieces, follows.shows_.peer]
    simp only [Client.requestBlocks] at ran
    dsimp only
    cases created : (PieceManager.createNextRequest order client.pieces (client.peers i)).2 with
    | none =>
      simp only [created] at ran
      cases ran
      exact ⟨rfl, follows.setPieces _⟩
    | some request =>
      simp only [created] at ran
      dsimp only
      have issued := follows.setPieces
        (PieceManager.createNextRequest order client.pieces (client.peers i)).1
      rcases andThen_cases ran with ⟨t, threw, rfl⟩ | ⟨middle, queued, rest⟩
      · cases (issued.queueMessage threw).1
      · exact ih (issued.queueMessage queued).2 rest

theorem Follows.requestNextBlocks {order : IterationOrder} (follows : Follows client session)
    (ran : requestNextBlocks order client i = some (after, thrown)) :
    thrown = none ∧ Follows after (Session.requestNextBlocks order session i) := by
  unfold Client.requestNextBlocks at ran
  unfold Session.requestNextBlocks
  rw [follows.shows_.peer]
  split at ran
  · rename_i choked
    cases ran
    rw [if_pos choked]
    exact ⟨rfl, follows⟩
  · rename_i unchoked
    rw [if_neg unchoked]
    exact follows.requestBlocks ran

/-- The handler of the client is that of the session. -/
theorem Follows.onPeerMessage {setup : Setup} {order : IterationOrder}
    {results : List SliceResult} {msg : PeerMessage} (follows : Follows client session)
    (handled : onPeerMessage setup order results client i msg = some (after, thrown)) :
    thrown = none ∧ Follows after (Session.onPeerMessage setup order results session i msg) := by
  obtain ⟨id, payload⟩ := msg
  unfold Client.onPeerMessage at handled
  unfold Session.onPeerMessage
  rw [follows.shows_.peer]
  cases id with
  | choke =>
    cases handled
    exact ⟨rfl, follows.setPeer _⟩
  | unchoke => exact (follows.setPeer _).requestNextBlocks handled
  | interested =>
    cases handled
    exact ⟨rfl, follows.setPeer _⟩
  | notInterested =>
    cases handled
    exact ⟨rfl, follows.setPeer _⟩
  | havePiece =>
    dsimp only at handled ⊢
    split at handled
    · rename_i whole
      rw [if_pos whole]
      split at handled
      · rename_i known
        rw [if_pos known]
        cases handled
        exact ⟨rfl, follows.setPeer _⟩
      · rename_i first
        rw [if_neg first]
        exact (follows.setPeer _).queueMessage handled
    · rename_i other
      rw [if_neg other]
      cases handled
      exact ⟨rfl, follows⟩
  | bitfield => exact (follows.setPeer _).queueMessage handled
  | piece =>
    dsimp only at handled ⊢
    split at handled
    · rename_i short
      rw [if_pos short]
      cases handled
      exact ⟨rfl, follows⟩
    · rename_i long
      rw [if_neg long, follows.shows_.disk, follows.shows_.pieces]
      exact (follows.store _ _).requestNextBlocks handled
  | request | cancel | unnamed raw above =>
    cases handled
    exact ⟨rfl, follows⟩

end

/-! ## The callback -/

/-- What the callbacks of a pass do to the session. -/
inductive Prompted (around : Nat → Surroundings) : K0Torrent.Event ι → Prop where
  | handshake {i : ι} : Prompted around (.handshake i)
  | message {i : ι} {msg : PeerMessage} {k calls : Nat} :
      Prompted around (.message i msg ((around k).orders calls) ((around k).results calls))
  | disconnect {i : ι} : Prompted around (.disconnect i)

section
variable {setup : Setup} {client after : Client ι} {session : Session ι} {i : ι}
  {around : Nat → Surroundings} {thrown : Option Thrown}

/-- The client has gone on, and the session with it. -/
def Advances (setup : Setup) (around : Nat → Surroundings) (session : Session ι)
    (after : Client ι) : Prop :=
  ∃ next, ReachesBy (Prompted around) (Session.step setup) session next ∧ Follows after next

theorem Follows.advances (follows : Follows client session) :
    Advances setup around session client :=
  ⟨session, .refl session, follows⟩

theorem Follows.handleMessages {k rounds : Nat} :
    ∀ {calls : Nat} {client : Client ι} {session : Session ι}, Follows client session →
      (client.net.endpoints i).state = .connected →
      handleMessages setup i (around k) rounds calls client = some (after, thrown) →
        thrown = none ∧ Advances setup around session after := by
  induction rounds with
  | zero =>
    intro calls client session _ _ handled
    cases handled
  | succ rounds ih =>
    intro calls client session follows connected handled
    rw [Client.handleMessages] at handled
    dsimp only at handled
    split at handled
    · cases handled
    · rename_i result parsed
      split at handled
      · cases handled
        exact ⟨rfl, follows.advances⟩
      · cases keepAlive : result.isKeepAlive with
        | true =>
          simp only [keepAlive, if_true, andThen] at handled
          apply ih (follows.consume _) _ handled
          simpa [Endpoint.state] using connected
        | false =>
          simp only [keepAlive, Bool.false_eq_true, if_false] at handled
          have recorded := @Follows.record ι _ client session i follows result.message
          have open_ : (session.connections i).state = .connected :=
            (follows.shows_.state i).trans connected
          rcases andThen_cases handled with ⟨t, threw, rfl⟩ | ⟨middle, returned, rest⟩
          · cases (recorded.onPeerMessage threw).1
          · have next := (recorded.onPeerMessage returned).2
            have taken : Session.step setup session (.message i result.message
                ((around k).orders calls) ((around k).results calls)) =
                some (Session.onPeerMessage setup ((around k).orders calls)
                  ((around k).results calls) (session.record i result.message) i
                  result.message) := by
              rw [Session.step, if_pos open_]
              rfl
            have still : (middle.net.endpoints i).state = .connected := by
              rw [← next.shows_.state, Session.state_onPeerMessage]
              exact open_
            obtain ⟨returned, last, reaches, follows⟩ := ih (next.consume _)
              (by simpa [Endpoint.state] using still) rest
            exact ⟨returned, last, .head .message taken reaches, follows⟩

theorem Follows.closes (follows : Follows client session) (i : ι) :
    ∃ next, ReachesBy (fun e => ∃ j, e = .disconnect j) (Session.step setup) session next ∧
      Follows (client.disconnect i) next := by
  by_cases dead : (client.net.endpoints i).state = .disconnected
  · have same : client.disconnect i = client := by
      simp only [Client.disconnect, Network.disconnect, if_pos dead]
    rw [same]
    exact ⟨session, .refl session, follows⟩
  · have open_ : (session.connections i).state ≠ .disconnected := by
      rw [follows.shows_.state]
      exact dead
    have taken : Session.step setup session (.disconnect i) =
        some { session.setState i .disconnected with wire := .closed i :: session.wire } := by
      rw [Session.step, if_neg open_]
    refine ⟨_, .single ⟨i, rfl⟩ taken, follows.agree.disconnect, fun j => ?_, fun j => ?_,
      follows.shows_.pieces, follows.shows_.disk, fun j => ?_, fun j => ?_⟩
    · refine (Session.state_setState ..).trans ?_
      by_cases here : j = i
      · subst here
        rw [if_pos rfl]
        exact (Network.state_disconnect ..).symm
      · rw [if_neg here, net_disconnect, Network.endpoints_disconnect here]
        exact follows.shows_.state j
    · exact (Session.peer_setState ..).trans (follows.shows_.peer j)
    · rw [net_disconnect, (Network.keeps_disconnect client.net i j).delivered]
      simpa using follows.shows_.delivered j
    · rw [net_disconnect]
      rcases eq_or_ne j i with rfl | here
      · rcases Network.disconnect_self client.net j with same | ⟨fd, same⟩
        · simpa [same] using follows.shows_.queued j
        · simpa [same] using follows.shows_.queued j
      · rw [Network.endpoints_disconnect here]
        simpa using follows.shows_.queued j

theorem Follows.disconnect (follows : Follows client session) :
    Advances setup around session (client.disconnect i) := by
  obtain ⟨next, reaches, follows⟩ := follows.closes i
  refine ⟨next, reaches.mono ?_, follows⟩
  rintro _ ⟨j, rfl⟩
  exact .disconnect

/-- The handshake has been accepted. -/
theorem Follows.shake (follows : Follows client session) {connection : PeerConnection}
    (sent : (client.net.endpoints i).state = .handshakeSent) (state : connection.state = .connected)
    (hash : connection.infoHash = (client.net.endpoints i).connection.infoHash)
    (delivered : connection.delivered = (client.net.endpoints i).connection.delivered) :
    Session.step setup session (.handshake i) = some (session.setState i .connected) ∧
      Follows (client.setConnection i connection) (session.setState i .connected) := by
  have waits : (session.connections i).state = .handshakeSent :=
    (follows.shows_.state i).trans sent
  have alive : connection.state ≠ .disconnected := fun dead => by cases state.symm.trans dead
  have before : (client.net.endpoints i).state ≠ .disconnected := fun dead => by
    cases sent.symm.trans dead
  refine ⟨by rw [Session.step, if_pos waits], follows.agree.setConnection
    (iff_of_false alive before) hash, fun j => ?_, fun j => ?_, follows.shows_.pieces,
    follows.shows_.disk, fun j => ?_, fun j => ?_⟩
  · refine (Session.state_setState ..).trans ?_
    by_cases here : j = i
    · subst here
      simp [Endpoint.state, state]
    · rw [if_neg here, net_setConnection, Network.endpoints_setConnection_of_ne here]
      exact follows.shows_.state j
  · exact (Session.peer_setState ..).trans (follows.shows_.peer j)
  · refine Eq.trans ?_ (follows.shows_.delivered j)
    by_cases here : j = i
    · subst here
      simpa using delivered
    · rw [net_setConnection, Network.endpoints_setConnection_of_ne here]
  · refine Eq.trans ?_ (follows.shows_.queued j)
    by_cases here : j = i
    · subst here
      simp
    · rw [net_setConnection, Network.endpoints_setConnection_of_ne here]

theorem Advances.caught {called : Called ι} (returned : called.2 = none)
    (advances : Advances setup around session called.1) :
    Advances setup around session (caught i called) := by
  obtain ⟨client, _ | t⟩ := called
  · exact advances
  · cases returned

/-- What has been read is in the buffer. -/
theorem Follows.fill (follows : Follows client session) (bytes : Bytes) :
    Follows ((client.receive i bytes).setConnection i { (client.net.endpoints i).connection with
      readBuffer := (client.net.endpoints i).connection.readBuffer ++ bytes }) session :=
  (follows.receive bytes).setConnection rfl rfl rfl

theorem Follows.handleRead {k : Nat} (follows : Follows client session)
    (alive : (client.net.endpoints i).state ≠ .disconnected)
    (read : client.handleRead setup i (around k) = some after) :
    Advances setup around session after := by
  unfold Client.handleRead at read
  rw [if_neg (follows.agree.fd_ne alive)] at read
  split at read
  · cases read
    exact follows.disconnect
  · rename_i bytes recv
    dsimp only at read
    by_cases none_ : bytes = []
    · rw [if_pos none_] at read
      cases read
      exact follows.advances
    rw [if_neg none_] at read
    have filled := @Follows.fill ι _ client session i follows bytes
    cases state : (client.net.endpoints i).state with
    | disconnected => exact absurd state alive
    | connected =>
      have here : (client.net.endpoints i).connection.state = .connected := state
      rw [if_neg fun same => by cases here.symm.trans same] at read
      dsimp only at read
      rw [if_pos ⟨rfl, here⟩] at read
      obtain ⟨called, handled, rfl⟩ := Option.map_eq_some_iff.mp read
      obtain ⟨returned, advances⟩ := filled.handleMessages (by simpa [Endpoint.state] using here)
        handled
      exact advances.caught returned
    | handshakeSent =>
      have here : (client.net.endpoints i).connection.state = .handshakeSent := state
      rw [if_pos here] at read
      rcases PeerConnection.processHandshake_cases { (client.net.endpoints i).connection with
          readBuffer := (client.net.endpoints i).connection.readBuffer ++ bytes } with
        ⟨-, processed⟩ | ⟨-, ⟨-, waits⟩ | ⟨-, error, failed⟩⟩
      · rw [processed] at read
        dsimp only at read
        rw [if_pos ⟨rfl, rfl⟩] at read
        obtain ⟨called, handled, rfl⟩ := Option.map_eq_some_iff.mp read
        obtain ⟨taken, shaken⟩ := @Follows.shake ι _ setup _ session i (follows.receive bytes)
          (PeerConnection.shaken { (client.net.endpoints i).connection with
            readBuffer := (client.net.endpoints i).connection.readBuffer ++ bytes }) state rfl rfl rfl
        obtain ⟨returned, next, reaches, last⟩ := shaken.handleMessages
          (by simp [Endpoint.state, PeerConnection.shaken]) handled
        exact Advances.caught returned ⟨next, .head .handshake taken reaches, last⟩
      · rw [waits] at read
        dsimp only at read
        rw [if_neg fun both => absurd both.1 Bool.false_ne_true] at read
        cases read
        exact filled.advances
      · rw [failed] at read
        cases read
        exact filled.disconnect

theorem Follows.handleWrite (follows : Follows client session) (send : SendResult) :
    Follows (client.handleWrite i send).1 session := by
  refine ⟨follows.agree.handleWrite send, follows.shows_.of_endpoints fun j => ?_⟩
  by_cases here : j = i
  · subst here
    rcases Network.handleWrite_self client.net j send with same | ⟨count, took⟩
    · rw [same]
      exact ⟨rfl, rfl, rfl⟩
    · rw [took]
      exact ⟨rfl, rfl, rfl⟩
  · rw [(Network.endpoints_handleWrite send).2.2 j here]
    exact ⟨rfl, rfl, rfl⟩

theorem Follows.onSocketEvent {events k : Nat} (follows : Follows client session)
    (alive : (client.net.endpoints i).state ≠ .disconnected)
    (ran : client.onSocketEvent setup i events (around k) = some after) :
    Advances setup around session after := by
  have read {client : Client ι} (follows : Follows client session)
      (alive : (client.net.endpoints i).state ≠ .disconnected)
      (rest : (if hasEvent events pollIn then client.handleRead setup i (around k)
        else some client) = some after) : Advances setup around session after := by
    split at rest
    · exact follows.handleRead alive rest
    · cases rest
      exact follows.advances
  unfold Client.onSocketEvent at ran
  by_cases writable : hasEvent events pollOut = true
  · rw [if_pos writable] at ran
    have written := @Follows.handleWrite ι _ client session i follows (around k).send
    rcases called : client.handleWrite i (around k).send with ⟨middle, _ | t⟩
    · rw [called] at ran written
      apply read written _ ran
      rwa [← written.shows_.state, follows.shows_.state]
    · rw [called] at ran written
      cases ran
      cases t with
      | standard text => exact written.disconnect
      | other => exact written.advances
  · rw [if_neg writable] at ran
    exact read follows alive ran

theorem Follows.dispatch {pfds : List PollFd} :
    ∀ {k ready : Nat} {client : Client ι} {session : Session ι}, Follows client session →
      dispatch setup around k pfds ready client = some after →
        Advances setup around session after := by
  induction pfds with
  | nil =>
    intro k ready client session follows ran
    cases ran
    exact follows.advances
  | cons pfd pfds ih =>
    intro k ready client session follows ran
    rw [Client.dispatch] at ran
    split at ran
    · cases ran
      exact follows.advances
    · split at ran
      · exact ih follows ran
      · split at ran
        · exact ih follows ran
        · rename_i entry found
          split at ran
          · cases ran
          · rename_i middle called
            have alive := (follows.agree.registered pfd.fd entry found).1
            obtain ⟨next, reaches, follows⟩ := follows.onSocketEvent alive called
            obtain ⟨last, further, follows⟩ := ih follows ran
            exact ⟨last, reaches.trans further, follows⟩

end

end Client

end K0Torrent
