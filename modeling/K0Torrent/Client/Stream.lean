import K0Torrent.Client.Serving
import K0Torrent.Library.Incremental
import K0Torrent.Peer.Framing

/-! What a client makes of the bytes that arrive on a connection.

A read may bring any part of the stream, and other connections are served in between. What the
session is told of comes to the frames of the whole stream behind a handshake.
-/

set_option autoImplicit false

namespace K0Torrent

open Machine Incremental

/-! ## The parser on a buffer that grows -/

/-- One round of the loop over the messages. -/
def nextMessage (buffer : Bytes) : Option (List PeerMessage × Bytes) :=
  match parsePeerMessage buffer with
  | .error _ => none
  | .ok result =>
    if result.complete then
      some (if result.isKeepAlive then [] else [result.message], buffer.drop result.consumedBytes)
    else none

/-- A frame that is there is not read differently when more has come. -/
theorem parsePeerMessage_append {buffer : Bytes} {result : ParseResult}
    (parsed : parsePeerMessage buffer = .ok result) (complete : result.complete = true)
    (more : Bytes) :
    parsePeerMessage (buffer ++ more) = .ok result ∧ result.consumedBytes ≤ buffer.length := by
  by_cases short : buffer.length < 4
  · simp only [parsePeerMessage, if_pos short, pure, Except.pure] at parsed
    cases parsed
    cases complete
  · obtain ⟨b0, b1, b2, b3, rest, rfl⟩ := exists_prefix buffer (Nat.not_lt.mp short)
    simp only [List.cons_append, List.length_cons]
    rw [parsePeerMessage_prefixed] at parsed ⊢
    generalize readU32 b0 b1 b2 b3 = length at parsed ⊢
    by_cases alive : length = 0
    · rw [if_pos alive] at parsed ⊢
      cases parsed
      exact ⟨rfl, Nat.le_add_left 4 rest.length⟩
    · rw [if_neg alive] at parsed ⊢
      by_cases waits : rest.length + 4 < (4 + length) % 2 ^ 32
      · rw [if_pos waits] at parsed
        cases parsed
        cases complete
      · rw [if_neg waits] at parsed
        have enough : ¬ (rest ++ more).length + 4 < (4 + length) % 2 ^ 32 := by
          rw [List.length_append]
          omega
        rw [if_neg enough]
        cases rest with
        | nil => cases parsed
        | cons id body =>
          dsimp only at parsed
          rw [List.cons_append]
          dsimp only
          by_cases inside : length ≤ (id :: body).length
          · rw [if_pos inside] at parsed
            cases parsed
            have inside' : length - 1 ≤ body.length := by
              rw [List.length_cons] at inside
              omega
            have inside'' : length ≤ (id :: (body ++ more)).length := by
              rw [List.length_cons, List.length_append]
              omega
            rw [if_pos inside'', List.take_append_of_le_length inside']
            refine ⟨rfl, ?_⟩
            simp only [List.length_cons] at waits ⊢
            omega
          · rw [if_neg inside] at parsed
            cases parsed

theorem stable_nextMessage : Stable nextMessage := by
  intro buffer items rest more taken
  unfold nextMessage at taken
  split at taken
  · cases taken
  · rename_i result parsed
    split at taken
    · rename_i complete
      cases taken
      obtain ⟨again, within⟩ := parsePeerMessage_append parsed complete more
      simp only [nextMessage, again, complete, if_true, List.drop_append_of_le_length within]
    · cases taken

theorem nextMessage_eq_some {buffer rest : Bytes} {items : List PeerMessage} :
    nextMessage buffer = some (items, rest) ↔ ∃ result, parsePeerMessage buffer = .ok result ∧
      result.complete = true ∧ (if result.isKeepAlive then [] else [result.message]) = items ∧
      buffer.drop result.consumedBytes = rest := by
  unfold nextMessage
  cases parsed : parsePeerMessage buffer with
  | error fault => simp
  | ok result =>
    by_cases complete : result.complete = true
    · simp [complete]
    · simp [complete]

/-- A round that consumes nothing would be repeated for ever. -/
theorem length_rest {buffer rest left : Bytes} {items later : List PeerMessage}
    (taken : nextMessage buffer = some (items, rest)) (emptied : Emptied nextMessage rest later left) :
    rest.length < buffer.length := by
  obtain ⟨result, parsed, complete, -, same⟩ := nextMessage_eq_some.mp taken
  have within := (parsePeerMessage_append parsed complete []).2
  have some_ : result.consumedBytes ≠ 0 := by
    intro zero
    rw [zero, List.drop_zero] at same
    subst same
    exact emptied.progress taken
  rw [← same, List.length_drop]
  omega

/-- The loop takes enough rounds. -/
theorem messagesIn_of_drains {buffer left : Bytes} {items : List PeerMessage}
    (emptied : Emptied nextMessage buffer items left) : ∀ {rounds : Nat}, buffer.length < rounds →
      messagesIn rounds buffer = items := by
  induction emptied with
  | @done left blocked =>
    intro rounds enough
    obtain ⟨rounds, rfl⟩ := Nat.exists_eq_add_of_lt enough
    unfold nextMessage at blocked
    rw [messagesIn]
    cases parsed : parsePeerMessage left with
    | error fault => rfl
    | ok result =>
      simp only [parsed] at blocked ⊢
      by_cases complete : result.complete = true
      · rw [if_pos complete] at blocked
        cases blocked
      · exact if_pos complete
  | more taken emptied ih =>
    intro rounds enough
    have shorter := length_rest taken emptied
    obtain ⟨result, parsed, complete, rfl, rfl⟩ := nextMessage_eq_some.mp taken
    obtain ⟨n, rfl⟩ : ∃ n, rounds = n + 1 := ⟨rounds - 1, by omega⟩
    rw [messagesIn, parsed]
    dsimp only
    rw [if_neg (not_not_intro complete), ih (by omega)]

namespace Client

variable {ι : Type} [DecidableEq ι]

section
variable {setup : Setup} {client after : Client ι} {i : ι} {thrown : Option Thrown}

theorem returns_onPeerMessage {order : IterationOrder} {results : List SliceResult}
    {msg : PeerMessage} (agree : Network.Agree client.net)
    (handled : onPeerMessage setup order results client i msg = some (after, thrown)) :
    thrown = none ∧ Network.Agree after.net := by
  obtain ⟨actions, ran⟩ := acts_onPeerMessage handled
  exact ⟨Network.throws_runActions agree ran, agree.runActions ran⟩

theorem agree_consume (agree : Network.Agree client.net) (count : Nat) :
    Network.Agree (client.setConnection i { (client.net.endpoints i).connection with
      readBuffer := (client.net.endpoints i).connection.readBuffer.drop count }).net :=
  agree.setConnection Iff.rfl rfl

/-- The handler does not touch what has been read. -/
theorem keeps_reading (i : ι) (connection : PeerConnection) (arrived : ι → Bytes) :
    HandlerKeeps i fun client =>
      (client.net.endpoints i).connection = connection ∧ client.arrived = arrived where
  peer _ _ same := same
  store _ _ _ same := same
  queued client after msg thrown same queued := by
    obtain ⟨called, ran, same'⟩ := Option.map_eq_some_iff.mp queued
    cases same'
    unfold Network.queueMessage at ran
    split at ran
    · cases ran
      exact same
    · split at ran
      · cases ran
      · cases ran
        refine ⟨?_, same.2⟩
        dsimp only
        rw [Network.endpoints_modify, Network.endpoints_update_self]
        exact same.1

theorem reading_onPeerMessage {order : IterationOrder} {results : List SliceResult}
    {msg : PeerMessage}
    (handled : onPeerMessage setup order results client i msg = some (after, thrown)) :
    (after.net.endpoints i).connection = (client.net.endpoints i).connection ∧
      after.arrived = client.arrived :=
  (keeps_reading i _ client.arrived).onPeerMessage ⟨rfl, rfl⟩ handled

/-- The loop over the messages takes off what is there. -/
theorem drains_handleMessages {around : Surroundings} {rounds : Nat} :
    ∀ {calls : Nat} {client : Client ι}, Network.Agree client.net →
      handleMessages setup i around rounds calls client = some (after, thrown) →
        thrown = none ∧ after.arrived = client.arrived ∧
          (after.net.endpoints i).state = (client.net.endpoints i).state ∧
          ∃ items, (after.net.endpoints i).connection.delivered =
              (client.net.endpoints i).connection.delivered ++ items ∧
            Emptied nextMessage (client.net.endpoints i).connection.readBuffer items
              (after.net.endpoints i).connection.readBuffer ∧
            ∃ result, parsePeerMessage (after.net.endpoints i).connection.readBuffer = .ok result := by
  induction rounds with
  | zero =>
    intro calls client agree handled
    cases handled
  | succ rounds ih =>
    intro calls client agree handled
    rw [handleMessages] at handled
    dsimp only at handled
    cases parsed : parsePeerMessage (client.net.endpoints i).connection.readBuffer with
    | error fault =>
      rw [parsed] at handled
      cases handled
    | ok result =>
      rw [parsed] at handled
      dsimp only at handled
      by_cases complete : result.complete = true
      · rw [if_neg (not_not_intro complete)] at handled
        have taken : nextMessage (client.net.endpoints i).connection.readBuffer =
            some (if result.isKeepAlive then [] else [result.message],
              (client.net.endpoints i).connection.readBuffer.drop result.consumedBytes) := by
          simp [nextMessage, parsed, complete]
        cases keepAlive : result.isKeepAlive with
        | true =>
          simp only [keepAlive, if_true, andThen] at handled taken
          obtain ⟨returned, arrived, state, items, delivered, emptied, ended⟩ :=
            ih (agree_consume agree _) handled
          simp only [net_setConnection, Network.endpoints_setConnection_self] at delivered emptied state
          exact ⟨returned, arrived, state, items, delivered, .more taken emptied, ended⟩
        | false =>
          simp only [keepAlive, Bool.false_eq_true, if_false] at handled taken
          have recorded : Network.Agree (client.setConnection i { (client.net.endpoints i).connection with
              delivered := (client.net.endpoints i).connection.delivered ++ [result.message] }).net :=
            agree.setConnection Iff.rfl rfl
          rcases andThen_cases handled with ⟨t, threw, rfl⟩ | ⟨middle, called, rest⟩
          · cases (returns_onPeerMessage recorded threw).1
          · obtain ⟨connection, received⟩ := reading_onPeerMessage called
            rw [net_setConnection, Network.endpoints_setConnection_self] at connection
            have agree' := (returns_onPeerMessage recorded called).2
            obtain ⟨returned, arrived, state, items, delivered, emptied, ended⟩ :=
              ih (agree_consume agree' _) rest
            simp only [net_setConnection, Network.endpoints_setConnection_self, Endpoint.state,
              connection] at delivered emptied state
            refine ⟨returned, arrived.trans received, state, result.message :: items, ?_,
              .more taken emptied, ended⟩
            rw [delivered, List.append_assoc]
            rfl
      · rw [if_pos complete] at handled
        have blocked : nextMessage (client.net.endpoints i).connection.readBuffer = none := by
          simp [nextMessage, parsed, complete]
        cases handled
        exact ⟨rfl, rfl, rfl, [], (List.append_nil _).symm, .done blocked, result, parsed⟩

end

/-- What a connection has made of the bytes that have arrived for it. -/
inductive Heard (infoHash : Digest) (arrived : Bytes) (connection : PeerConnection) : Prop where
  | waiting (short : arrived.length < Handshake.handshakeSize)
      (state : connection.state ≠ .connected) (readBuffer : connection.readBuffer = arrived)
      (delivered : connection.delivered = [])
  | refused (long : Handshake.handshakeSize ≤ arrived.length) (stranger : ¬ Greets infoHash arrived)
      (state : connection.state = .disconnected) (delivered : connection.delivered = [])
  | greeted (greets : Greets infoHash arrived) (state : connection.state ≠ .handshakeSent)
      (emptied : Emptied nextMessage (arrived.drop Handshake.handshakeSize) connection.delivered
        connection.readBuffer)

theorem Heard.disconnect {infoHash : Digest} {arrived : Bytes} {connection : PeerConnection}
    (heard : Heard infoHash arrived connection) : Heard infoHash arrived connection.disconnect := by
  cases heard with
  | waiting short state readBuffer delivered =>
    exact .waiting short (fun same => by cases same) readBuffer delivered
  | refused long stranger state delivered => exact .refused long stranger rfl delivered
  | greeted greets state emptied => exact .greeted greets (fun same => by cases same) emptied

def HeardAt (infoHash : Digest) (i : ι) (client : Client ι) : Prop :=
  Heard infoHash (client.arrived i) (client.net.endpoints i).connection

section
variable {setup : Setup} {pipeRead : Int} {client after : Client ι} {i : ι} {infoHash : Digest}

theorem HeardAt.disconnect {j : ι} (heard : HeardAt infoHash j client) (i : ι) :
    HeardAt infoHash j (client.disconnect i) := by
  unfold HeardAt
  by_cases here : j = i
  · subst here
    rcases Network.disconnect_self client.net j with same | ⟨fd, same⟩
    · rw [net_disconnect, same]
      exact heard
    · rw [net_disconnect, same]
      exact Heard.disconnect heard
  · rw [net_disconnect, Network.endpoints_disconnect here]
    exact heard

/-- From a connection that has got through its handshake, in this read or before. -/
theorem HeardAt.handleMessages {around : Surroundings} {rounds calls : Nat} {called : Called ι}
    {before : List PeerMessage} (agree : Network.Agree client.net)
    (greets : Greets infoHash (client.arrived i))
    (connected : (client.net.endpoints i).state = .connected)
    (delivered : (client.net.endpoints i).connection.delivered = before)
    (earlier : ∀ items left, Emptied nextMessage (client.net.endpoints i).connection.readBuffer items left →
      Emptied nextMessage ((client.arrived i).drop Handshake.handshakeSize) (before ++ items) left)
    (handled : handleMessages setup i around rounds calls client = some called) :
    HeardAt infoHash i (caught i called) := by
  obtain ⟨after, thrown⟩ := called
  obtain ⟨rfl, arrived, state, items, later, emptied, -⟩ := drains_handleMessages agree handled
  have same : caught i (after, none) = after := rfl
  rw [same, HeardAt, arrived]
  apply Heard.greeted greets
  · intro sent
    cases (state.trans connected).symm.trans sent
  · rw [later, delivered]
    exact earlier items _ emptied

theorem HeardAt.handleRead {around : Surroundings} (heard : HeardAt infoHash i client)
    (agree : Network.Agree client.net) (alive : (client.net.endpoints i).state ≠ .disconnected)
    (hash : (client.net.endpoints i).connection.infoHash = infoHash)
    (read : client.handleRead setup i around = some after) : HeardAt infoHash i after := by
  unfold Client.handleRead at read
  rw [if_neg (agree.fd_ne alive)] at read
  split at read
  · cases read
    exact heard.disconnect i
  · rename_i bytes recv
    dsimp only at read
    by_cases none_ : bytes = []
    · rw [if_pos none_] at read
      cases read
      exact heard
    rw [if_neg none_] at read
    have arrived : (client.receive i bytes).arrived i = client.arrived i ++ bytes :=
      Function.update_self ..
    cases state : (client.net.endpoints i).state with
    | disconnected => exact absurd state alive
    | connected =>
      have here : (client.net.endpoints i).connection.state = .connected := state
      rw [if_neg fun same => by cases here.symm.trans same] at read
      dsimp only at read
      rw [if_pos ⟨rfl, here⟩] at read
      obtain ⟨called, handled, rfl⟩ := Option.map_eq_some_iff.mp read
      cases heard with
      | waiting short state => exact absurd here state
      | refused long stranger state => cases here.symm.trans state
      | greeted greets state' emptied =>
        refine HeardAt.handleMessages ?_ ?_ ?_ rfl ?_ handled
        · exact agree.setConnection Iff.rfl rfl
        · change Greets infoHash ((client.receive i bytes).arrived i)
          rw [arrived]
          exact (greets_append greets.1 bytes).mpr greets
        · simpa [Endpoint.state] using here
        · intro items left later
          change Emptied nextMessage (((client.receive i bytes).arrived i).drop _) _ _
          rw [arrived, List.drop_append_of_le_length greets.1]
          simp only [net_setConnection, net_receive, Network.endpoints_setConnection_self] at later ⊢
          exact emptied.append stable_nextMessage later
    | handshakeSent =>
      have here : (client.net.endpoints i).connection.state = .handshakeSent := state
      rw [if_pos here] at read
      cases heard with
      | refused long stranger state => cases here.symm.trans state
      | greeted greets state => exact absurd here state
      | waiting short state' readBuffer delivered =>
        have filled : (client.net.endpoints i).connection.readBuffer ++ bytes =
            (client.receive i bytes).arrived i := by rw [readBuffer, arrived]
        rcases PeerConnection.processHandshake_cases { (client.net.endpoints i).connection with
            readBuffer := (client.net.endpoints i).connection.readBuffer ++ bytes } with
          ⟨greets, processed⟩ | ⟨stranger, ⟨short', waits⟩ | ⟨long, error, failed⟩⟩
        · dsimp only at greets
          rw [hash, filled] at greets
          rw [processed] at read
          dsimp only at read
          rw [if_pos ⟨rfl, rfl⟩] at read
          obtain ⟨called, handled, rfl⟩ := Option.map_eq_some_iff.mp read
          refine HeardAt.handleMessages ?_ ?_ ?_ (?_ : _ = []) ?_ handled
          · refine agree.setConnection (iff_of_false ?_ alive) rfl
            exact fun same => by cases same
          · exact greets
          · simp [Endpoint.state, PeerConnection.shaken]
          · simpa [PeerConnection.shaken] using delivered
          · intro items left later
            simpa [PeerConnection.shaken, filled] using later
        · dsimp only at short'
          rw [filled] at short'
          rw [waits] at read
          dsimp only at read
          rw [if_neg fun both => absurd both.1 Bool.false_ne_true] at read
          cases read
          refine .waiting short' ?_ ?_ ?_
          · simpa using state'
          · simpa using filled
          · simpa using delivered
        · dsimp only at stranger long
          rw [hash, filled] at stranger
          rw [filled] at long
          rw [failed] at read
          cases read
          refine .refused long stranger (Network.state_disconnect _ i) ?_
          rw [net_disconnect, (Network.keeps_disconnect _ i i).delivered]
          simpa using delivered

theorem HeardAt.onSocketEvent {events : Nat} {around : Surroundings}
    (heard : HeardAt infoHash i client) (agree : Network.Agree client.net)
    (alive : (client.net.endpoints i).state ≠ .disconnected)
    (hash : (client.net.endpoints i).connection.infoHash = infoHash)
    (ran : client.onSocketEvent setup i events around = some after) : HeardAt infoHash i after := by
  unfold Client.onSocketEvent at ran
  by_cases writable : hasEvent events pollOut = true
  · obtain ⟨connection, -, -⟩ := @Network.endpoints_handleWrite ι client.net i _ around.send
    have written : HeardAt infoHash i (client.handleWrite i around.send).1 := by
      unfold HeardAt Client.handleWrite
      rw [connection]
      exact heard
    have agree' : Network.Agree (client.handleWrite i around.send).1.net :=
      agree.handleWrite around.send
    have same : ((client.handleWrite i around.send).1.net.endpoints i).connection =
        (client.net.endpoints i).connection := connection
    rw [if_pos writable] at ran
    rcases called : client.handleWrite i around.send with ⟨middle, _ | t⟩
    · rw [called] at ran written agree' same
      dsimp only at ran
      split at ran
      · apply written.handleRead agree' _ _ ran
        · rwa [Endpoint.state, same]
        · rwa [same]
      · cases ran
        exact written
    · rw [called] at ran written
      cases ran
      cases t with
      | standard text => exact written.disconnect i
      | other => exact written
  · rw [if_neg writable] at ran
    dsimp only at ran
    split at ran
    · exact heard.handleRead agree alive hash ran
    · cases ran
      exact heard

/-- Of every connection. -/
structure Listening (setup : Setup) (pipeRead : Int) (client : Client ι) : Prop where
  regular : Regular setup pipeRead client
  heard : ∀ i, HeardAt setup.torrent.infoHash i client

theorem Listening.called (listening : Listening setup pipeRead client) {fd : Int}
    {entry : EventLoop.Entry ι} {events : Nat} {around : Surroundings}
    (found : client.net.loop.lookup fd = some entry)
    (ran : client.onSocketEvent setup entry.cb events around = some after) :
    Listening setup pipeRead after := by
  refine ⟨listening.regular.called found ran, fun j => ?_⟩
  by_cases here : j = entry.cb
  · subst here
    exact (listening.heard _).onSocketEvent listening.regular.agree
      (listening.regular.agree.registered fd entry found).1 (listening.regular.hash _) ran
  · have within := (keeps_within entry.cb client).onSocketEvent (.refl _ client) ran
    rw [HeardAt, within.arrived j here, within.endpoint j here]
    exact listening.heard j

theorem Listening.stop (listening : Listening setup pipeRead client) :
    Listening setup pipeRead client.stop where
  regular := listening.regular.stop
  heard j := by
    have heard := @disconnects_keep ι _ (HeardAt setup.torrent.infoHash j)
      (fun client i heard => heard.disconnect i) client.connections client (listening.heard j)
    exact heard

omit [DecidableEq ι] in
theorem Waiting.heard (waiting : Waiting setup client) (i : ι) : HeardAt infoHash i client := by
  unfold HeardAt
  rw [waiting.arrived i]
  exact .waiting (by decide) (waiting.unheard i).waits (waiting.unheard i).readBuffer
    (waiting.unheard i).delivered

end

section
variable {setup : Setup} {start final : Client ι} {history : List (Transition (Client ι) (Event ι))}

theorem Runs.listening (runs : Runs setup start history final) :
    ∃ pipeRead, Listening setup pipeRead final := by
  obtain ⟨pipeRead, regular⟩ := runs.1.regular
  refine ⟨pipeRead, run_keeps runs.2 ⟨regular, runs.1.waiting.heard⟩ ?_ ?_ ?_⟩
  · exact fun client order revents listening =>
      ⟨listening.regular.polled order revents, listening.heard⟩
  · exact fun client after fd entry events around listening found ran => listening.called found ran
  · exact fun client listening => listening.stop

/-- However the bytes of a connection are cut and whatever is done in between, its messages are
those of the whole stream behind a handshake for the torrent, and none without one. -/
theorem delivered_eq (runs : Runs setup start history final) (i : ι) :
    (final.net.endpoints i).connection.delivered =
        (if Greets setup.torrent.infoHash (final.arrived i) then
          messagesIn (((final.arrived i).drop Handshake.handshakeSize).length + 1)
            ((final.arrived i).drop Handshake.handshakeSize)
        else []) ∧
      ((final.net.endpoints i).state = .connected → Greets setup.torrent.infoHash (final.arrived i)) ∧
      ((final.net.endpoints i).state = .handshakeSent →
        (final.arrived i).length < Handshake.handshakeSize) := by
  obtain ⟨pipeRead, listening⟩ := runs.listening
  cases listening.heard i with
  | waiting short state readBuffer delivered =>
    rw [if_neg fun greets => absurd greets.1 (Nat.not_le.mpr short)]
    exact ⟨delivered, fun connected => absurd connected state, fun _ => short⟩
  | refused long stranger state delivered =>
    rw [if_neg stranger]
    exact ⟨delivered, (fun connected => by cases state.symm.trans connected),
      fun sent => by cases state.symm.trans sent⟩
  | greeted greets state emptied =>
    rw [if_pos greets]
    exact ⟨(messagesIn_of_drains emptied (Nat.lt_succ_self _)).symm, fun _ => greets,
      fun sent => absurd sent state⟩

/-- The handshake and an `Unchoke`, a few bytes at a time. -/
theorem delivered_eq_dialled : ∃ history client, Runs Session.oneByte dialled history client ∧
    client.arrived () = itsHandshake ++ [0, 0, 0, 1, 1] ∧
    (client.net.endpoints ()).connection.delivered = [⟨.unchoke, []⟩] := by
  obtain ⟨history, client, runs, arrived, connected⟩ : ∃ history client,
      Runs Session.oneByte dialled history client ∧
        client.arrived () = itsHandshake ++ [0, 0, 0, 1, 1] ∧
        (client.net.endpoints ()).state = .connected :=
    ⟨_, _, runs_of_replay [hears (itsHandshake.take 30), hears (itsHandshake.drop 30 ++ [0, 0]),
      hears [0], hears [1, 1]] rfl, rfl, rfl⟩
  obtain ⟨delivered, greets, -⟩ := delivered_eq runs ()
  refine ⟨history, client, runs, arrived, ?_⟩
  rw [delivered, if_pos (greets connected), arrived]
  rfl

end

end Client

end K0Torrent
