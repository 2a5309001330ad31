import K0Torrent.Peer.Network

/-! The receiving side of a connection in the network.

With a message handler that does nothing, what a read does to the connection is what it does
to the receiving side alone.
-/

set_option autoImplicit false

namespace K0Torrent.Network

variable {ι : Type}

def quiet (_ : Nat) : Handling ι := {}

variable [DecidableEq ι] {net : Network ι} {i : ι}

theorem connection_setConnection (connection : PeerConnection) :
    ((net.setConnection i connection).endpoints i).connection = connection := by
  rw [endpoints_setConnection_self]

theorem run_quiet (calls : Nat) : (quiet calls).run net = some (net, none) := rfl

theorem handleMessages_quiet (rounds : Nat) : ∀ {calls : Nat} {net : Network ι}
    {first last : PeerConnection}, (net.endpoints i).connection = first →
    first.handleMessages rounds = .value last →
      handleMessages i quiet rounds calls net = some (net.setConnection i last, none) := by
  induction rounds with
  | zero =>
    intro calls net first last _ handled
    cases handled
  | succ rounds ih =>
    intro calls net first last at_ handled
    subst at_
    rw [PeerConnection.handleMessages] at handled
    rw [Network.handleMessages]
    cases parsed : parsePeerMessage (net.endpoints i).connection.readBuffer with
    | error fault =>
      simp only [parsed] at handled
      cases handled
    | ok result =>
      simp only [parsed] at handled ⊢
      by_cases complete : result.complete = true
      · rw [if_pos complete] at handled
        rw [if_neg (not_not_intro complete)]
        cases keepAlive : result.isKeepAlive with
        | true =>
          rw [keepAlive, if_pos rfl] at handled
          simp only [if_true]
          rw [ih (connection_setConnection _) handled, setConnection_setConnection]
        | false =>
          rw [keepAlive, if_neg Bool.false_ne_true] at handled
          simp only [Bool.false_eq_true, if_false, run_quiet, connection_setConnection,
            setConnection_setConnection]
          rw [ih (connection_setConnection _) handled, setConnection_setConnection]
      · rw [if_neg complete] at handled
        rw [if_pos complete]
        cases handled
        rw [setConnection_self]

/-- One read. A connection that is given up closes its socket as well. -/
theorem handleRead_quiet {data : Bytes} {connection : PeerConnection}
    (open_ : (net.endpoints i).fd ≠ -1)
    (read : (net.endpoints i).connection.handleRead data = .value connection) :
    ∃ after, net.handleRead i (.data data) quiet = some after ∧
      (after.endpoints i).connection = connection := by
  unfold PeerConnection.handleRead at read
  unfold Network.handleRead
  rw [if_neg open_]
  dsimp only
  by_cases none_ : data = []
  · rw [if_pos none_] at read ⊢
    cases read
    exact ⟨net, rfl, rfl⟩
  · rw [if_neg none_] at read ⊢
    dsimp only at read
    rcases shaken : (if (net.endpoints i).connection.state = .handshakeSent then
        PeerConnection.processHandshake { (net.endpoints i).connection with
          readBuffer := (net.endpoints i).connection.readBuffer ++ data }
      else .ok ({ (net.endpoints i).connection with
          readBuffer := (net.endpoints i).connection.readBuffer ++ data }, true))
      with error | ⟨connection', ready⟩
    · rw [shaken] at read
      cases read
      have alive : (net.endpoints i).connection.state ≠ .disconnected := by
        intro dead
        rw [dead, if_neg (fun same => by cases same)] at shaken
        cases shaken
      refine ⟨_, rfl, ?_⟩
      simp [setConnection, update, Network.disconnect, Endpoint.state, alive, open_]
    · rw [shaken] at read
      cases ready with
      | false =>
        cases read
        exact ⟨_, rfl, connection_setConnection _⟩
      | true =>
        dsimp only at read ⊢
        by_cases connected : connection'.state = .connected
        · rw [if_pos connected] at read
          rw [if_pos ⟨rfl, connected⟩, handleMessages_quiet _ (connection_setConnection _) read,
            setConnection_setConnection]
          exact ⟨_, rfl, connection_setConnection _⟩
        · rw [if_neg connected] at read
          rw [if_neg fun both => connected both.2]
          cases read
          exact ⟨_, rfl, connection_setConnection _⟩

end K0Torrent.Network
