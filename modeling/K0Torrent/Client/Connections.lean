import K0Torrent.Client.Client
import K0Torrent.Library.Simulation
import K0Torrent.Peer.Agreement
import K0Torrent.Session.Transitions

/-! The connections and the session, each as a layer of the client.

Seen from the connections, the session is a message handler like any other. Seen from the
session, what the callbacks read comes as messages, one after the other.
-/

set_option autoImplicit false

namespace K0Torrent.Client

open Machine

variable {ι : Type} [DecidableEq ι]

/-! ## The connections -/

section
variable {client after : Client ι} {i : ι} {thrown : Option Thrown}

omit [DecidableEq ι] in
theorem andThen_cases {called : Option (Called ι)} {rest : Client ι → Option (Called ι)}
    (ran : andThen called rest = some (after, thrown)) :
    (∃ t, called = some (after, some t) ∧ thrown = some t) ∨
      ∃ middle, called = some (middle, none) ∧ rest middle = some (after, thrown) := by
  unfold andThen at ran
  split at ran
  · cases ran
  · cases ran
    exact .inl ⟨_, rfl, rfl⟩
  · exact .inr ⟨_, rfl, ran⟩

theorem net_queueMessage {msg : PeerMessage} (queued : client.queueMessage i msg = some (after, thrown)) :
    client.net.queueMessage i msg = some (after.net, thrown) := by
  obtain ⟨called, ran, same⟩ := Option.map_eq_some_iff.mp queued
  cases same
  exact ran

/-- These actions make the one network of the other. -/
def Acts (net after : Network ι) (thrown : Option Thrown) : Prop :=
  ∃ actions, Network.runActions none actions net = some (after, thrown)

theorem acts_nothing (net : Network ι) : Acts net net none := ⟨[], rfl⟩

theorem acts_queueMessage {msg : PeerMessage}
    (queued : client.queueMessage i msg = some (after, thrown)) :
    Acts client.net after.net thrown := by
  refine ⟨[.queueMessage i msg], ?_⟩
  cases thrown <;> simp [Network.runActions, Network.Action.run, net_queueMessage queued]

theorem Acts.behind {msg : PeerMessage} {middle : Client ι}
    (queued : client.queueMessage i msg = some (middle, none))
    (acts : Acts middle.net after.net thrown) : Acts client.net after.net thrown := by
  obtain ⟨actions, ran⟩ := acts
  refine ⟨.queueMessage i msg :: actions, ?_⟩
  simp [Network.runActions, Network.Action.run, net_queueMessage queued, ran]

theorem acts_requestBlocks {order : IterationOrder} {left : Nat} : ∀ {client : Client ι},
    requestBlocks order i left client = some (after, thrown) →
      Acts client.net after.net thrown := by
  induction left with
  | zero =>
    intro client ran
    cases ran
    exact acts_nothing _
  | succ left ih =>
    intro client ran
    simp only [requestBlocks] at ran
    split at ran
    · cases ran
      exact acts_nothing _
    · -- Only the piece manager has changed before the request is queued.
      rcases andThen_cases ran with ⟨t, threw, rfl⟩ | ⟨middle, queued, rest⟩
      · have acts := acts_queueMessage threw
        exact acts
      · have acts := (ih rest).behind queued
        exact acts

theorem acts_requestNextBlocks {order : IterationOrder}
    (ran : requestNextBlocks order client i = some (after, thrown)) :
    Acts client.net after.net thrown := by
  unfold requestNextBlocks at ran
  split at ran
  · cases ran
    exact acts_nothing _
  · exact acts_requestBlocks ran

/-- A call of the session is a call of some message handler. -/
theorem acts_onPeerMessage {setup : Setup} {order : IterationOrder} {results : List SliceResult}
    {msg : PeerMessage} (handled : onPeerMessage setup order results client i msg = some (after, thrown)) :
    Acts client.net after.net thrown := by
  unfold onPeerMessage at handled
  dsimp only at handled
  split at handled
  case h_2 =>
    have acts := acts_requestNextBlocks handled
    exact acts
  case h_5 =>
    split at handled
    · split at handled
      · cases handled
        exact acts_nothing _
      · have acts := acts_queueMessage handled
        exact acts
    · cases handled
      exact acts_nothing _
  case h_6 =>
    have acts := acts_queueMessage handled
    exact acts
  case h_7 =>
    split at handled
    · cases handled
      exact acts_nothing _
    · have acts := acts_requestNextBlocks handled
      exact acts
  all_goals
    cases handled
    exact acts_nothing _

/-- Calls that come earlier do not matter. -/
theorem handleMessages_congr {handler handler' : Nat → Network.Handling ι} {rounds : Nat} :
    ∀ {calls : Nat} {net : Network ι}, (∀ k, calls ≤ k → handler k = handler' k) →
      Network.handleMessages i handler rounds calls net =
        Network.handleMessages i handler' rounds calls net := by
  induction rounds with
  | zero =>
    intro calls net same
    rfl
  | succ rounds ih =>
    intro calls net same
    have later (alive : Bool) (next : Network ι) :
        Network.handleMessages i handler rounds (if alive then calls else calls + 1) next =
          Network.handleMessages i handler' rounds (if alive then calls else calls + 1) next := by
      apply ih
      intro k after
      apply same
      split at after
      · exact after
      · omega
    simp only [Network.handleMessages, same calls (Nat.le_refl calls), later]

theorem net_handleMessages {setup : Setup} {around : Surroundings} {rounds : Nat} :
    ∀ {calls : Nat} {client : Client ι},
      handleMessages setup i around rounds calls client = some (after, thrown) →
        ∃ handler, Network.handleMessages i handler rounds calls client.net =
          some (after.net, thrown) := by
  induction rounds with
  | zero =>
    intro calls client handled
    cases handled
  | succ rounds ih =>
    intro calls client handled
    rw [handleMessages] at handled
    dsimp only at handled
    cases parsed : parsePeerMessage (client.net.endpoints i).connection.readBuffer with
    | error fault =>
      rw [parsed] at handled
      cases handled
    | ok result =>
      rw [parsed] at handled
      dsimp only at handled
      by_cases complete : result.complete = true
      · rw [if_neg (not_not_intro complete)] at handled
        cases keepAlive : result.isKeepAlive with
        | true =>
          simp only [keepAlive, if_true, andThen] at handled
          obtain ⟨handler, ran⟩ := ih handled
          refine ⟨handler, ?_⟩
          simp only [Network.handleMessages, parsed, complete, keepAlive, not_true_eq_false, if_false,
            if_true]
          exact ran
        | false =>
          simp only [keepAlive, Bool.false_eq_true, if_false] at handled
          rcases andThen_cases handled with ⟨t, threw, rfl⟩ | ⟨middle, returned, rest⟩
          · obtain ⟨actions, ran⟩ := acts_onPeerMessage threw
            rw [net_setConnection] at ran
            refine ⟨fun _ => ⟨actions, none⟩, ?_⟩
            simp only [Network.handleMessages, parsed, complete, keepAlive, not_true_eq_false,
              if_false, Bool.false_eq_true, Network.Handling.run, ran]
          · obtain ⟨actions, ran⟩ := acts_onPeerMessage returned
            rw [net_setConnection] at ran
            obtain ⟨handler, later⟩ := ih rest
            -- This call does what the session has done, and the later ones are as before.
            refine ⟨Function.update handler calls ⟨actions, none⟩, ?_⟩
            simp only [Network.handleMessages, parsed, complete, keepAlive, not_true_eq_false,
              if_false, Bool.false_eq_true, Network.Handling.run, Function.update_self, ran]
            rw [net_setConnection] at later
            rw [← later]
            apply handleMessages_congr
            intro k behind
            exact Function.update_of_ne (by omega) _ _
      · rw [if_pos complete] at handled
        cases handled
        refine ⟨fun _ => {}, ?_⟩
        simp [Network.handleMessages, parsed, complete]

theorem net_caught (called : Called ι) :
    (caught i called).net = Network.caught i (called.1.net, called.2) := by
  obtain ⟨client, _ | _ | _⟩ := called
  · rfl
  · rfl
  · rfl

theorem net_handleRead {setup : Setup} {around : Surroundings}
    (read : client.handleRead setup i around = some after) :
    ∃ handler, client.net.handleRead i around.recv handler = some after.net := by
  unfold handleRead at read
  unfold Network.handleRead
  by_cases closed : (client.net.endpoints i).fd = -1
  · rw [if_pos closed] at read
    cases read
    exact ⟨fun _ => {}, if_pos closed⟩
  simp only [if_neg closed] at read ⊢
  cases recv : around.recv with
  | failed =>
    rw [recv] at read
    cases read
    exact ⟨fun _ => {}, rfl⟩
  | data bytes =>
    simp only [recv] at read ⊢
    by_cases none_ : bytes = []
    · rw [if_pos none_] at read
      cases read
      exact ⟨fun _ => {}, if_pos none_⟩
    simp only [if_neg none_] at read ⊢
    let filled : PeerConnection :=
      { (client.net.endpoints i).connection with
        readBuffer := (client.net.endpoints i).connection.readBuffer ++ bytes }
    rcases shaken : (if filled.state = .handshakeSent then filled.processHandshake
      else .ok (filled, true)) with error | ⟨connection, ready⟩
    · simp only [filled] at shaken
      simp only [shaken] at read ⊢
      cases read
      exact ⟨fun _ => {}, rfl⟩
    · simp only [filled] at shaken
      simp only [shaken] at read ⊢
      split at read
      · rename_i going
        obtain ⟨called, handled, rfl⟩ := Option.map_eq_some_iff.mp read
        obtain ⟨handler, ran⟩ := net_handleMessages handled
        rw [net_setConnection, net_receive] at ran
        refine ⟨handler, ?_⟩
        rw [if_pos going, ran, net_caught]
        rfl
      · rename_i waits
        cases read
        exact ⟨fun _ => {}, if_neg waits⟩

theorem net_onSocketEvent {setup : Setup} {events : Nat} {around : Surroundings}
    (ran : client.onSocketEvent setup i events around = some after) :
    ∃ handler, client.net.onSocketEvent i events around.send around.recv handler =
      some after.net := by
  unfold onSocketEvent at ran
  unfold Network.onSocketEvent
  by_cases writable : hasEvent events pollOut = true
  · simp only [if_pos writable, handleWrite] at ran ⊢
    rcases written : client.net.handleWrite i around.send with ⟨net, _ | t⟩
    · simp only [written] at ran ⊢
      split at ran
      · rename_i readable
        obtain ⟨handler, read⟩ := net_handleRead ran
        exact ⟨handler, (if_pos readable).trans read⟩
      · rename_i silent
        cases ran
        exact ⟨fun _ => {}, if_neg silent⟩
    · simp only [written] at ran ⊢
      cases ran
      rw [net_caught]
      exact ⟨fun _ => {}, rfl⟩
  · simp only [if_neg writable] at ran ⊢
    split at ran
    · rename_i readable
      obtain ⟨handler, read⟩ := net_handleRead ran
      exact ⟨handler, (if_pos readable).trans read⟩
    · rename_i silent
      cases ran
      exact ⟨fun _ => {}, if_neg silent⟩

theorem net_dispatch {setup : Setup} {around : Nat → Surroundings} {pfds : List PollFd} :
    ∀ {k ready : Nat} {client : Client ι}, dispatch setup around k pfds ready client = some after →
      Reaches Network.step client.net after.net := by
  induction pfds with
  | nil =>
    intro k ready client ran
    cases ran
    exact .refl _
  | cons pfd pfds ih =>
    intro k ready client ran
    rw [dispatch] at ran
    split at ran
    · cases ran
      exact .refl _
    · split at ran
      · exact ih ran
      · split at ran
        · exact ih ran
        · rename_i entry found
          split at ran
          · cases ran
          · rename_i middle called
            obtain ⟨handler, event⟩ := net_onSocketEvent called
            have taken : Network.step client.net (.socket pfd.fd (widenShort pfd.revents)
                (around k).send (around k).recv handler) = some middle.net := by
              simp only [Network.step, found, event]
            exact .head taken (ih ran)

/-- A pass is one event for the connections, and then one for each callback. -/
theorem net_runOnce {setup : Setup} {order : EventLoop.EntryOrder ι} {revents : Nat → Nat}
    {around : Nat → Surroundings} (ran : client.runOnce setup order revents around = some after) :
    Reaches Network.step client.net after.net := by
  have taken : Network.step client.net (.poll order _) = some (client.polled order revents).net := rfl
  rcases runOnce_cases ran with rfl | ⟨rest, ready, dispatched⟩
  · exact .single taken
  · exact .head taken (net_dispatch dispatched)

theorem reaches_disconnects (connections : List ι) : ∀ net : Network ι,
    Reaches Network.step net (connections.foldl Network.disconnect net) := by
  induction connections with
  | nil => exact .refl
  | cons i connections ih =>
    intro net
    have taken : Network.step net (.call (.disconnect i)) = some (net.disconnect i) := rfl
    exact .head taken (ih _)

theorem net_simulates (setup : Setup) : Simulates (step setup) Network.step (fun _ _ => True)
    fun (client : Client ι) net => client.net = net := by
  rintro client - e next rfl taken
  cases e with
  | pass order revents around => exact ⟨_, (net_runOnce taken).by_any, rfl⟩
  | stop =>
    cases taken
    exact ⟨_, (reaches_disconnects _ _).by_any, rfl⟩

theorem net_fetchPeers {attempts : List (ι × ConnectOutcome × Vector UInt8 8)} :
    ∀ {client : Client ι}, fetchPeers attempts client = some after →
      Reaches Network.step client.net after.net := by
  induction attempts with
  | nil =>
    intro client fetched
    cases fetched
    exact .refl _
  | cons attempt attempts ih =>
    intro client fetched
    obtain ⟨i, outcome, reserved⟩ := attempt
    rw [fetchPeers] at fetched
    split at fetched
    · cases fetched
    · rename_i net started
      have taken : Network.step client.net (.call (.start i outcome reserved)) = some net := by
        simp [Network.step, Network.Action.run, started]
      exact .head taken (ih fetched)

/-- The connections of a client are those of a run of the network. -/
theorem net_of_runs {setup : Setup} {start : Client ι} {history : List (Transition (Client ι) (Event ι))}
    (runs : Runs setup start history after) : ∃ myPeerId, ∃ addresses : ι → PeerAddress,
      ∃ pipeRead, Reaches Network.step
        (Network.new (fun i => (addresses i, setup.torrent.infoHash, myPeerId)) pipeRead) after.net := by
  obtain ⟨⟨myPeerId, addresses, pipeRead, files, attempts, fetched⟩, run⟩ := runs
  obtain ⟨net, calls, reached, rfl, -⟩ := (net_simulates setup).run rfl run
  exact ⟨_, _, _, (net_fetchPeers fetched).trans ⟨calls, reached⟩⟩

end

end K0Torrent.Client
