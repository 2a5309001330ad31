import K0Torrent.Peer.Codec
import K0Torrent.Peer.Coherence

/-! Which messages the handler still gets once it has called `disconnect` (`handle_read`).

The loop over the messages looks at the state before its first round and never again. A step
of the network is one call of a connection's callback, with all the calls of the handler that
it makes; they are counted by what has been delivered.
-/

set_option autoImplicit false

namespace K0Torrent

/-! ## The batch of one read -/

/-- The messages that the loop takes from a buffer, in that many rounds. -/
def messagesIn : Nat → Bytes → List PeerMessage
  | 0, _ => []
  | rounds + 1, buffer =>
    match parsePeerMessage buffer with
    | .error _ => []
    | .ok result =>
      if ¬ result.complete then []
      else
        (if result.isKeepAlive then [] else [result.message]) ++
          messagesIn rounds (buffer.drop result.consumedBytes)

namespace Endpoint

/-- `handle_write` throws. -/
def writeFails (endpoint : Endpoint) (send : SendResult) : Bool :=
  match send with
  | .accepted _ => false
  | .failed => endpoint.writeBuffer != []

/-- The bytes that the loop over the messages begins with, in a call of `handle_read`. -/
def arriving (endpoint : Endpoint) (recv : RecvResult) : Bytes :=
  match recv with
  | .failed => []
  | .data bytes =>
    let buffer := endpoint.connection.readBuffer ++ bytes
    if bytes = [] then []
    else
      match endpoint.state with
      | .disconnected => []
      | .handshakeSent =>
        -- What comes behind the handshake is taken in the same call.
        if Greets endpoint.connection.infoHash buffer then buffer.drop Handshake.handshakeSize else []
      | .connected => buffer

/-- And in a call of the callback. -/
def batch (endpoint : Endpoint) (events : Nat) (send : SendResult) (recv : RecvResult) : Bytes :=
  -- The exception of `handle_write` passes over the read.
  if hasEvent events pollOut ∧ endpoint.writeFails send then []
  else if hasEvent events pollIn then endpoint.arriving recv
  else []

def messages (endpoint : Endpoint) (events : Nat) (send : SendResult) (recv : RecvResult) :
    List PeerMessage :=
  let batch := endpoint.batch events send recv
  messagesIn (batch.length + 1) batch

/-- A call of `disconnect` has returned since the start. -/
def GivenUp (endpoint : Endpoint) : Prop :=
  endpoint.started = true ∧ endpoint.state = .disconnected

/-- Nothing is received for it or handed over, and it is not brought back. -/
structure Keeps (before after : Endpoint) : Prop where
  readBuffer : after.connection.readBuffer = before.connection.readBuffer
  delivered : after.connection.delivered = before.connection.delivered
  started : before.started = true → after.started = true
  givenUp : before.GivenUp → after.GivenUp

theorem Keeps.refl (endpoint : Endpoint) : endpoint.Keeps endpoint :=
  ⟨rfl, rfl, id, id⟩

theorem Keeps.trans {a b c : Endpoint} (first : a.Keeps b) (second : b.Keeps c) :
    a.Keeps c where
  readBuffer := second.readBuffer.trans first.readBuffer
  delivered := second.delivered.trans first.delivered
  started started := second.started (first.started started)
  givenUp gone := second.givenUp (first.givenUp gone)

end Endpoint

namespace Network

open Machine

variable {ι : Type}

/-! ## What is asked of a run -/

/-- Call number `k` of the handler calls `disconnect` for the connection. -/
def Event.disconnects (i : ι) (k : Nat) : Event ι → Prop
  | .socket _ _ _ _ handler => .disconnect i ∈ (handler k).actions
  | _ => False

/-- The messages that the connection's handler is called with in a step, one a call. -/
def calls (i : ι) (x : Transition (Network ι) (Event ι)) : List PeerMessage :=
  (x.after.endpoints i).connection.delivered.drop (x.before.endpoints i).connection.delivered.length

/-- The handler is not called again, neither in the same step nor in a later one. -/
structure NotAgain (i : ι) (history : List (Transition (Network ι) (Event ι))) : Prop where
  within : ∀ x ∈ history, ∀ k, x.event.disconnects i k → (calls i x).length ≤ k + 1
  remains : ∀ x ∈ history, ∀ k < (calls i x).length, x.event.disconnects i k →
    (x.after.endpoints i).GivenUp
  later : ∀ future x past, history = future ++ x :: past → (x.after.endpoints i).GivenUp →
    ∀ y ∈ future, calls i y = []

/-- Every call of the handler that calls `disconnect` for its connection, and is reached and
returns, has got the last message of the batch. -/
def DisconnectsLast (i : ι) (net : Network ι) : Event ι → Prop
  | .socket fd events send recv handler =>
    (net.loop.lookup fd).map EventLoop.Entry.cb = some i →
      ∀ k, (∀ j ≤ k, (handler j).throws = none) → .disconnect i ∈ (handler k).actions →
        ((net.endpoints i).messages events send recv).length ≤ k + 1
  | _ => True

/-! ## What others can do to a connection -/

section
variable {net after : Network ι} {i j : ι} {thrown : Option Thrown}

theorem endpoints_modify (events : Nat) : (net.modify i events).1.endpoints = net.endpoints := by
  unfold Network.modify
  split
  · rfl
  · rfl

variable [DecidableEq ι]

theorem keeps_update {endpoint : Endpoint} (keeps : (net.endpoints i).Keeps endpoint) (j : ι) :
    (net.endpoints j).Keeps ((net.update i endpoint).endpoints j) := by
  by_cases here : j = i
  · subst here
    simpa using keeps
  · rw [endpoints_update_of_ne here]
    exact .refl _

theorem endpoints_disconnect (other : j ≠ i) : (net.disconnect i).endpoints j = net.endpoints j := by
  unfold Network.disconnect
  dsimp only
  split
  · rfl
  · split
    · simp [other]
    · simp [update, other]

theorem endpoints_register (other : j ≠ i) : (net.register i).endpoints j = net.endpoints j := by
  unfold Network.register
  split
  · simp [update, other]
  · exact endpoints_disconnect other

/-- But for its state and its socket. -/
theorem disconnect_self (net : Network ι) (i : ι) :
    (net.disconnect i).endpoints i = net.endpoints i ∨ ∃ fd, (net.disconnect i).endpoints i =
      { net.endpoints i with connection := (net.endpoints i).connection.disconnect, fd } := by
  unfold Network.disconnect
  dsimp only
  split
  · exact .inl rfl
  · split
    · exact .inr ⟨-1, by simp⟩
    · exact .inr ⟨(net.endpoints i).fd, by simp [update]⟩

theorem keeps_disconnect (net : Network ι) (i j : ι) :
    (net.endpoints j).Keeps ((net.disconnect i).endpoints j) := by
  by_cases here : j = i
  · subst here
    rcases disconnect_self net j with same | ⟨fd, same⟩
    · rw [same]
      exact .refl _
    · rw [same]
      exact ⟨rfl, rfl, id, fun gone => ⟨gone.1, rfl⟩⟩
  · rw [endpoints_disconnect here]
    exact .refl _

theorem givenUp_disconnect (started : (net.endpoints i).started = true) :
    ((net.disconnect i).endpoints i).GivenUp :=
  ⟨(keeps_disconnect net i i).started started, state_disconnect net i⟩

/-- What has been received and handed over is not looked at. -/
theorem register_self (net : Network ι) (i : ι) :
    ((net.register i).endpoints i).connection.readBuffer = (net.endpoints i).connection.readBuffer ∧
      ((net.register i).endpoints i).connection.delivered = (net.endpoints i).connection.delivered ∧
      ((net.endpoints i).started = true → ((net.register i).endpoints i).started = true) := by
  unfold Network.register
  split
  · simp [Endpoint.greet]
  · rename_i error failed
    have keeps := keeps_disconnect { net with raised := error :: net.raised } i i
    exact ⟨keeps.readBuffer, keeps.delivered, keeps.started⟩

/-- Starting a connection that has not been started. -/
structure Begun (net : Network ι) (k : ι) (begun : Network ι) : Prop where
  first : (net.endpoints k).started ≠ true
  others : ∀ j, j ≠ k → begun.endpoints j = net.endpoints j
  connection : (begun.endpoints k).connection = (net.endpoints k).connection
  started : (begun.endpoints k).started = true

theorem Begun.register {k : ι} (begun : Begun net k after) (j : ι) :
    (net.endpoints j).Keeps ((after.register k).endpoints j) := by
  by_cases here : j = k
  · subst here
    obtain ⟨readBuffer, delivered, started⟩ := register_self after j
    rw [begun.connection] at readBuffer delivered
    exact ⟨readBuffer, delivered, fun _ => started begun.started,
      fun gone => absurd gone.1 begun.first⟩
  · rw [endpoints_register here, begun.others j here]
    exact .refl _

theorem Begun.disconnect {k : ι} (begun : Begun net k after) (j : ι) :
    (net.endpoints j).Keeps ((after.disconnect k).endpoints j) := by
  by_cases here : j = k
  · subst here
    have keeps := keeps_disconnect after j j
    refine ⟨keeps.readBuffer.trans ?_, keeps.delivered.trans ?_, fun _ => keeps.started begun.started,
      fun gone => absurd gone.1 begun.first⟩
    · rw [begun.connection]
    · rw [begun.connection]
  · rw [endpoints_disconnect here, begun.others j here]
    exact .refl _

theorem keeps_start {k : ι} {outcome : ConnectOutcome} {reserved : Vector UInt8 8}
    (started : net.start k outcome reserved = some after) (j : ι) :
    (net.endpoints j).Keeps (after.endpoints j) := by
  unfold Network.start at started
  dsimp only at started
  split at started
  · cases started
  · rename_i first
    split at started
    · cases started
      have begun : Begun net k (net.update k { net.endpoints k with started := true, reserved }) :=
        ⟨first, fun j other => endpoints_update_of_ne other _, by simp, by simp⟩
      split
      · exact begun.register j
      · exact begun.disconnect j
    · split at started
      · cases started
        apply Begun.register
        exact ⟨first, fun j other => endpoints_update_of_ne other _, by simp, by simp⟩
      · cases started

theorem keeps_run {action : Action ι} (ran : action.run net = some (after, thrown)) (j : ι) :
    (net.endpoints j).Keeps (after.endpoints j) := by
  cases action with
  | start k outcome reserved =>
    obtain ⟨after', started, same⟩ := Option.map_eq_some_iff.mp ran
    cases same
    exact keeps_start started j
  | queueMessage k msg =>
    change net.queueMessage k msg = _ at ran
    unfold Network.queueMessage at ran
    split at ran
    · cases ran
      exact .refl _
    · rename_i connected
      split at ran
      · cases ran
      · have queued := congrArg Prod.fst (Option.some.inj ran)
        dsimp only at queued
        rw [← queued, endpoints_modify]
        apply keeps_update
        refine ⟨rfl, rfl, id, fun gone => absurd gone.2 fun dead => connected ?_⟩
        rw [dead]
        exact fun same => by cases same
  | disconnect k =>
    cases ran
    exact keeps_disconnect net k j

/-! ## One call of the handler -/

section
variable {throws : Option Thrown} {actions : List (Action ι)}

theorem keeps_runActions (ran : runActions throws actions net = some (after, thrown)) (j : ι) :
    (net.endpoints j).Keeps (after.endpoints j) := by
  induction actions generalizing net with
  | nil =>
    cases ran
    exact .refl _
  | cons action rest ih =>
    rw [runActions] at ran
    split at ran
    · cases ran
    · rename_i threw
      cases ran
      exact keeps_run threw j
    · rename_i returned
      exact (keeps_run returned j).trans (ih ran)

/-- No action of the handler throws by itself. -/
theorem throws_runActions (agree : Agree net)
    (ran : runActions throws actions net = some (after, thrown)) : thrown = throws := by
  induction actions generalizing net with
  | nil =>
    cases ran
    rfl
  | cons action rest ih =>
    rw [runActions] at ran
    split at ran
    · cases ran
    · rename_i threw
      cases (agree.run threw).2
    · rename_i returned
      exact ih (agree.run returned).1 ran

theorem givenUp_of_disconnects (agree : Agree net) (started : (net.endpoints i).started = true)
    (disconnects : .disconnect i ∈ actions)
    (ran : runActions throws actions net = some (after, thrown)) : (after.endpoints i).GivenUp := by
  induction actions generalizing net with
  | nil => cases disconnects
  | cons action rest ih =>
    rw [runActions] at ran
    split at ran
    · cases ran
    · rename_i threw
      cases (agree.run threw).2
    · rename_i returned
      rcases List.mem_cons.mp disconnects with rfl | further
      · cases returned
        exact (keeps_runActions ran i).givenUp (givenUp_disconnect started)
      · exact ih (agree.run returned).1 ((keeps_run returned i).started started) further ran

end

/-! ## The loop over the messages -/

def deliver (net : Network ι) (i : ι) (msg : PeerMessage) : Network ι :=
  let connection := (net.endpoints i).connection
  net.setConnection i { connection with delivered := connection.delivered ++ [msg] }

def consume (net : Network ι) (i : ι) (count : Nat) : Network ι :=
  let connection := (net.endpoints i).connection
  net.setConnection i { connection with readBuffer := connection.readBuffer.drop count }

variable {handler : Nat → Handling ι}

/-- How a loop that returns begins. -/
theorem handleMessages_succ {rounds calls : Nat}
    (handled : handleMessages i handler (rounds + 1) calls net = some (after, thrown)) :
    ∃ result, parsePeerMessage (net.endpoints i).connection.readBuffer = .ok result ∧
      (result.complete = false ∧ after = net ∨
        result.complete = true ∧ result.isKeepAlive = true ∧
          handleMessages i handler rounds calls (net.consume i result.consumedBytes) =
            some (after, thrown) ∨
        result.complete = true ∧ result.isKeepAlive = false ∧ ∃ middle threw,
          (handler calls).run (net.deliver i result.message) = some (middle, threw) ∧
            (threw ≠ none ∧ after = middle ∨
              threw = none ∧ handleMessages i handler rounds (calls + 1)
                (middle.consume i result.consumedBytes) = some (after, thrown))) := by
  rw [handleMessages] at handled
  split at handled
  · cases handled
  · rename_i result parsed
    refine ⟨result, parsed, ?_⟩
    by_cases complete : result.complete = true
    · rw [if_neg (not_not_intro complete)] at handled
      cases keepAlive : result.isKeepAlive with
      | true =>
        simp only [keepAlive, if_true] at handled
        exact .inr (.inl ⟨complete, rfl, handled⟩)
      | false =>
        simp only [keepAlive, Bool.false_eq_true, if_false] at handled
        refine .inr (.inr ⟨complete, rfl, ?_⟩)
        split at handled
        · cases handled
        · rename_i middle threw ran
          cases handled
          exact ⟨_, _, ran, .inl ⟨by simp, rfl⟩⟩
        · rename_i middle ran
          exact ⟨_, _, ran, .inr ⟨rfl, handled⟩⟩
    · rw [if_pos complete] at handled
      cases handled
      exact .inl ⟨Bool.eq_false_iff.mpr complete, rfl⟩

theorem givenUp_setConnection {connection : PeerConnection}
    (state : connection.state = (net.endpoints i).state) (gone : (net.endpoints j).GivenUp) :
    ((net.setConnection i connection).endpoints j).GivenUp := by
  by_cases here : j = i
  · subst here
    simpa [Endpoint.GivenUp, Endpoint.state, state] using gone
  · rwa [endpoints_setConnection_of_ne here]

theorem givenUp_handleMessages {rounds : Nat} : ∀ {calls : Nat} {net : Network ι},
    (net.endpoints j).GivenUp → handleMessages i handler rounds calls net = some (after, thrown) →
      (after.endpoints j).GivenUp := by
  induction rounds with
  | zero =>
    intro calls net _ handled
    cases handled
  | succ rounds ih =>
    intro calls net gone handled
    obtain ⟨result, -, ⟨-, rfl⟩ | ⟨-, -, rest⟩ | ⟨-, -, middle, threw, ran, last⟩⟩ :=
      handleMessages_succ handled
    · exact gone
    · apply ih _ rest
      exact givenUp_setConnection rfl gone
    · have gone' := (keeps_runActions ran j).givenUp (givenUp_setConnection rfl gone)
      rcases last with ⟨-, rfl⟩ | ⟨-, rest⟩
      · exact gone'
      · apply ih _ rest
        exact givenUp_setConnection rfl gone'

/-- Other connections see no more of the loop than what the handler does. -/
theorem keeps_handleMessages {rounds : Nat} (other : j ≠ i) : ∀ {calls : Nat} {net : Network ι},
    handleMessages i handler rounds calls net = some (after, thrown) →
      (net.endpoints j).Keeps (after.endpoints j) := by
  induction rounds with
  | zero =>
    intro calls net handled
    cases handled
  | succ rounds ih =>
    intro calls net handled
    obtain ⟨result, -, ⟨-, rfl⟩ | ⟨-, -, rest⟩ | ⟨-, -, middle, threw, ran, last⟩⟩ :=
      handleMessages_succ handled
    · exact .refl _
    · have keeps := ih rest
      rwa [consume, endpoints_setConnection_of_ne other] at keeps
    · have keeps := keeps_runActions ran j
      rw [deliver, endpoints_setConnection_of_ne other] at keeps
      rcases last with ⟨-, rfl⟩ | ⟨-, rest⟩
      · exact keeps
      · have later := ih rest
        rw [consume, endpoints_setConnection_of_ne other] at later
        exact keeps.trans later

/-- The messages that a handler gets before it throws. -/
def taken (handler : Nat → Handling ι) : Nat → List PeerMessage → List PeerMessage
  | _, [] => []
  | calls, msg :: rest =>
    msg :: if (handler calls).throws = none then taken handler (calls + 1) rest else []

theorem delivered_handleMessages {rounds : Nat} : ∀ {calls : Nat} {net : Network ι}, Agree net →
    handleMessages i handler rounds calls net = some (after, thrown) →
      (after.endpoints i).connection.delivered = (net.endpoints i).connection.delivered ++
        taken handler calls (messagesIn rounds (net.endpoints i).connection.readBuffer) := by
  induction rounds with
  | zero =>
    intro calls net _ handled
    cases handled
  | succ rounds ih =>
    intro calls net agree handled
    obtain ⟨result, parsed, step⟩ := handleMessages_succ handled
    rw [messagesIn, parsed]
    rcases step with ⟨complete, rfl⟩ | ⟨complete, keepAlive, rest⟩ |
      ⟨complete, keepAlive, middle, threw, ran, last⟩
    · simp [complete, taken]
    · have agree' : Agree (net.consume i result.consumedBytes) := agree.setConnection Iff.rfl rfl
      have later := ih agree' rest
      simpa [complete, keepAlive, consume] using later
    · have agree' : Agree (net.deliver i result.message) := agree.setConnection Iff.rfl rfl
      have middle' : Agree middle := agree'.runActions ran
      have keeps := keeps_runActions ran i
      have delivered := keeps.delivered
      have readBuffer := keeps.readBuffer
      have throws := throws_runActions agree' ran
      simp only [deliver, endpoints_setConnection_self] at delivered readBuffer
      rcases last with ⟨threw', rfl⟩ | ⟨returned, rest⟩
      · rw [throws] at threw'
        simp [complete, keepAlive, taken, delivered, threw']
      · rw [throws] at returned
        have agree'' : Agree (middle.consume i result.consumedBytes) :=
          middle'.setConnection Iff.rfl rfl
        have later := ih agree'' rest
        simp only [consume, endpoints_setConnection_self, delivered, readBuffer] at later
        simp [complete, keepAlive, taken, returned, later]

theorem givenUp_of_taken {rounds : Nat} : ∀ {calls k : Nat} {net : Network ι}, Agree net →
    (net.endpoints i).started = true →
    handleMessages i handler rounds calls net = some (after, thrown) →
    k < (taken handler calls (messagesIn rounds (net.endpoints i).connection.readBuffer)).length →
    .disconnect i ∈ (handler (calls + k)).actions → (after.endpoints i).GivenUp := by
  induction rounds with
  | zero =>
    intro calls k net _ _ handled
    cases handled
  | succ rounds ih =>
    intro calls k net agree started handled reached disconnects
    obtain ⟨result, parsed, step⟩ := handleMessages_succ handled
    rw [messagesIn, parsed] at reached
    rcases step with ⟨complete, rfl⟩ | ⟨complete, keepAlive, rest⟩ |
      ⟨complete, keepAlive, middle, threw, ran, last⟩
    · simp [complete, taken] at reached
    · apply ih _ _ rest _ disconnects
      · exact agree.setConnection Iff.rfl rfl
      · simpa [consume] using started
      · simpa [complete, keepAlive, consume] using reached
    · have agree' : Agree (net.deliver i result.message) := agree.setConnection Iff.rfl rfl
      have started' : ((net.deliver i result.message).endpoints i).started = true := by
        simpa [deliver] using started
      have keeps := keeps_runActions ran i
      have throws := throws_runActions agree' ran
      cases k with
      | zero =>
        -- It is this call, and the rounds behind it do not bring the connection back.
        have gone := givenUp_of_disconnects agree' started' disconnects ran
        rcases last with ⟨-, rfl⟩ | ⟨-, rest⟩
        · exact gone
        · apply givenUp_handleMessages _ rest
          exact givenUp_setConnection rfl gone
      | succ k =>
        have shifted : calls + (k + 1) = calls + 1 + k := by omega
        rw [shifted] at disconnects
        have readBuffer := keeps.readBuffer
        simp only [deliver, endpoints_setConnection_self] at readBuffer
        rcases last with ⟨threw', rfl⟩ | ⟨returned, rest⟩
        · rw [throws] at threw'
          simp [complete, keepAlive, taken, threw'] at reached
        · rw [throws] at returned
          apply ih _ _ rest _ disconnects
          · exact (agree'.runActions ran).setConnection Iff.rfl rfl
          · simpa [consume] using keeps.started started'
          · simpa [complete, keepAlive, taken, returned, consume, readBuffer] using reached

/-! ## The callback -/

theorem endpoints_handleWrite (send : SendResult) :
    ((net.handleWrite i send).1.endpoints i).connection = (net.endpoints i).connection ∧
      ((net.handleWrite i send).1.endpoints i).started = (net.endpoints i).started ∧
      ∀ j, j ≠ i → (net.handleWrite i send).1.endpoints j = net.endpoints j := by
  have took (count : Nat) : ((net.update i ((net.endpoints i).took count)).endpoints i).connection =
        (net.endpoints i).connection ∧
      ((net.update i ((net.endpoints i).took count)).endpoints i).started =
        (net.endpoints i).started ∧
      ∀ j, j ≠ i → (net.update i ((net.endpoints i).took count)).endpoints j = net.endpoints j := by
    refine ⟨?_, ?_, fun j other => endpoints_update_of_ne other _⟩
    · simp [Endpoint.took]
    · simp [Endpoint.took]
  unfold Network.handleWrite
  split
  · simp
  · split
    · simp
    · cases send with
      | failed => simp
      | accepted count =>
        dsimp only
        split
        · rw [endpoints_modify]
          exact took count
        · exact took count

theorem handleWrite_returns (agree : Agree net) (alive : (net.endpoints i).state ≠ .disconnected)
    (send : SendResult) :
    (net.handleWrite i send).2 = none ↔ (net.endpoints i).writeFails send = false := by
  unfold Network.handleWrite
  by_cases empty : (net.endpoints i).writeBuffer = []
  · rw [if_pos empty]
    cases send <;> simp [Endpoint.writeFails, empty]
  · rw [if_neg empty, if_neg (agree.fd_ne alive)]
    cases send with
    | failed => simp [Endpoint.writeFails, empty]
    | accepted count =>
      have intact := (agree.intact i alive).took count
      dsimp only
      split
      · rename_i done
        have mask : ((net.endpoints i).took count).mask = pollIn := by
          simp only [endpoints_update_self] at done
          exact if_pos done
        obtain ⟨after, modified, -⟩ :=
          agree.modify alive intact alive rfl (agree.started alive) mask
        rw [modified]
        simp [Endpoint.writeFails]
      · simp [Endpoint.writeFails]

/-- A step in which the connection's handler has got these messages, up to where it throws. -/
structure Handled (i : ι) (handler : Nat → Handling ι) (messages : List PeerMessage)
    (net after : Network ι) : Prop where
  delivered : (after.endpoints i).connection.delivered =
    (net.endpoints i).connection.delivered ++ taken handler 0 messages
  givenUp : ∀ k < (taken handler 0 messages).length, .disconnect i ∈ (handler k).actions →
    (after.endpoints i).GivenUp
  others : ∀ j, j ≠ i → (net.endpoints j).Keeps (after.endpoints j)

theorem keeps_caught (net : Network ι) (thrown : Option Thrown) (j : ι) :
    (net.endpoints j).Keeps ((caught i (net, thrown)).endpoints j) := by
  rcases thrown with _ | _ | _
  · exact .refl _
  · exact keeps_disconnect net i j
  · exact .refl _

omit [DecidableEq ι] in
theorem handled_nothing
    (delivered : (after.endpoints i).connection.delivered = (net.endpoints i).connection.delivered)
    (others : ∀ j, j ≠ i → (net.endpoints j).Keeps (after.endpoints j)) :
    Handled i handler (messagesIn 1 []) net after where
  delivered := delivered.trans (List.append_nil _).symm
  givenUp k reached := absurd reached (Nat.not_lt_zero k)
  others := others

theorem handled_handleMessages (connection : PeerConnection) {middle : Network ι}
    (agree : Agree (net.setConnection i connection)) (started : (net.endpoints i).started = true)
    (delivered : connection.delivered = (net.endpoints i).connection.delivered)
    (handled : handleMessages i handler (connection.readBuffer.length + 1) 0
      (net.setConnection i connection) = some (middle, thrown)) :
    Handled i handler (messagesIn (connection.readBuffer.length + 1) connection.readBuffer) net
      (caught i (middle, thrown)) := by
  have keeps := @keeps_caught ι i _ middle thrown
  have here : ((net.setConnection i connection).endpoints i).connection = connection := by
    simp
  have started' : ((net.setConnection i connection).endpoints i).started = true := by
    simpa using started
  constructor
  · rw [(keeps i).delivered, delivered_handleMessages agree handled, here, delivered]
  · intro k reached disconnects
    apply (keeps i).givenUp
    apply givenUp_of_taken agree started' handled
    · rwa [here]
    · rwa [Nat.zero_add]
  · intro j other
    have first := keeps_handleMessages other handled
    rw [endpoints_setConnection_of_ne other] at first
    exact first.trans (keeps j)

theorem handled_handleRead {recv : RecvResult} (agree : Agree net)
    (alive : (net.endpoints i).state ≠ .disconnected)
    (read : net.handleRead i recv handler = some after) :
    Handled i handler (messagesIn (((net.endpoints i).arriving recv).length + 1)
      ((net.endpoints i).arriving recv)) net after := by
  unfold Network.handleRead at read
  rw [if_neg (agree.fd_ne alive)] at read
  cases recv with
  | failed =>
    cases read
    exact handled_nothing (keeps_disconnect net i i).delivered fun j _ => keeps_disconnect net i j
  | data bytes =>
    dsimp only at read
    by_cases none_ : bytes = []
    · rw [if_pos none_] at read
      cases read
      simp only [Endpoint.arriving, if_pos none_]
      exact handled_nothing rfl fun j _ => .refl _
    · rw [if_neg none_] at read
      simp only [Endpoint.arriving, if_neg none_]
      have still (connection : PeerConnection) (state : connection.state ≠ .disconnected)
          (hash : connection.infoHash = (net.endpoints i).connection.infoHash) :
          Agree (net.setConnection i connection) :=
        agree.setConnection (iff_of_false state alive) hash
      cases state : (net.endpoints i).state with
      | disconnected => exact absurd state alive
      | connected =>
        have here : (net.endpoints i).connection.state = .connected := state
        simp only [here, reduceCtorEq, if_false, and_self, if_true] at read
        obtain ⟨⟨middle, thrown⟩, handled, rfl⟩ := Option.map_eq_some_iff.mp read
        apply handled_handleMessages _ _ (agree.started alive) _ handled
        · exact still _ (fun same => by cases same) rfl
        · rfl
      | handshakeSent =>
        have here : (net.endpoints i).connection.state = .handshakeSent := state
        rw [if_pos here] at read
        rcases PeerConnection.processHandshake_cases { (net.endpoints i).connection with
            readBuffer := (net.endpoints i).connection.readBuffer ++ bytes } with
          ⟨greets, processed⟩ | ⟨stranger, ⟨-, waits⟩ | ⟨-, error, failed⟩⟩
        · rw [processed] at read
          dsimp only at greets read ⊢
          rw [if_pos ⟨rfl, rfl⟩] at read
          rw [if_pos greets]
          obtain ⟨⟨middle, thrown⟩, handled, rfl⟩ := Option.map_eq_some_iff.mp read
          apply handled_handleMessages _ _ (agree.started alive) _ handled
          · exact still _ (fun same => by cases same) rfl
          · rfl
        -- Fewer than 68 bytes: they are kept.
        · rw [waits] at read
          dsimp only at stranger read ⊢
          rw [if_neg fun both => absurd both.1 Bool.false_ne_true] at read
          rw [if_neg stranger]
          cases read
          apply handled_nothing
          · simp
          · intro j other
            rw [endpoints_setConnection_of_ne other]
            exact .refl _
        -- A handshake that is refused: the callback catches what is thrown and disconnects.
        · rw [failed] at read
          dsimp only at stranger read ⊢
          rw [if_neg stranger]
          cases read
          have keeps := @keeps_disconnect ι _ (net.setConnection i
            { (net.endpoints i).connection with
              readBuffer := (net.endpoints i).connection.readBuffer ++ bytes }) i
          apply handled_nothing
          · rw [(keeps i).delivered]
            simp
          · intro j other
            have kept := keeps j
            rwa [endpoints_setConnection_of_ne other] at kept

theorem Handled.behind_write {send : SendResult} {messages : List PeerMessage}
    (handled : Handled i handler messages (net.handleWrite i send).1 after) :
    Handled i handler messages net after := by
  obtain ⟨connection, -, others⟩ := @endpoints_handleWrite ι net i _ send
  constructor
  · rw [handled.delivered, connection]
  · exact handled.givenUp
  · intro j other
    have keeps := handled.others j other
    rwa [others j other] at keeps

theorem handled_onSocketEvent {events : Nat} {send : SendResult} {recv : RecvResult}
    (agree : Agree net) (alive : (net.endpoints i).state ≠ .disconnected)
    (ran : net.onSocketEvent i events send recv handler = some after) :
    Handled i handler ((net.endpoints i).messages events send recv) net after := by
  unfold Endpoint.messages Endpoint.batch
  dsimp only
  -- From the state in which it reads on.
  have read {net : Network ι} (agree : Agree net) (alive : (net.endpoints i).state ≠ .disconnected)
      (rest : (if hasEvent events pollIn then net.handleRead i recv handler else some net) =
        some after) :
      Handled i handler (messagesIn ((if hasEvent events pollIn then (net.endpoints i).arriving recv
        else []).length + 1) (if hasEvent events pollIn then (net.endpoints i).arriving recv else []))
        net after := by
    split at rest
    · rename_i readable
      rw [if_pos readable]
      exact handled_handleRead agree alive rest
    · rename_i silent
      rw [if_neg silent]
      cases rest
      exact handled_nothing rfl fun j _ => .refl _
  unfold Network.onSocketEvent at ran
  by_cases writable : hasEvent events pollOut = true
  · rw [if_pos writable] at ran
    have returns := handleWrite_returns agree alive send
    obtain ⟨connection, -, -⟩ := @endpoints_handleWrite ι net i _ send
    have written := @Agree.handleWrite ι net agree i _ send
    cases threw : (net.handleWrite i send).2 with
    | none =>
      have writes := returns.mp threw
      have whole : net.handleWrite i send = ((net.handleWrite i send).1, none) := Prod.ext rfl threw
      have same : ((net.handleWrite i send).1.endpoints i).arriving recv =
          (net.endpoints i).arriving recv := by
        simp only [Endpoint.arriving, Endpoint.state, connection]
      rw [whole] at ran
      rw [if_neg (by simp [writes]), ← same]
      apply Handled.behind_write
      apply read written _ ran
      rwa [Endpoint.state, connection]
    | some thrown =>
      have fails : (net.endpoints i).writeFails send = true := by
        by_contra writes
        rw [returns.mpr (Bool.eq_false_iff.mpr writes)] at threw
        cases threw
      have whole : net.handleWrite i send = ((net.handleWrite i send).1, some thrown) :=
        Prod.ext rfl threw
      rw [whole] at ran
      rw [if_pos ⟨writable, fails⟩]
      cases ran
      have keeps := @keeps_caught ι i _ (net.handleWrite i send).1 (some thrown)
      apply Handled.behind_write
      exact handled_nothing (keeps i).delivered fun j _ => keeps j
  · rw [if_neg writable] at ran
    rw [if_neg fun both => writable both.1]
    exact read agree alive ran

end

/-! ## Steps and runs -/

section
variable {s t : Network ι} {e : Event ι} {i : ι}

/-- The callback that is called is the connection's own. -/
def Event.Own (i : ι) (net : Network ι) : Event ι → Prop
  | .socket fd .. => (net.loop.lookup fd).map EventLoop.Entry.cb = some i
  | _ => False

theorem calls_of_keeps (keeps : (s.endpoints i).Keeps (t.endpoints i)) : calls i ⟨s, e, t⟩ = [] := by
  rw [calls, keeps.delivered]
  exact List.drop_length ..

theorem calls_of_handled {handler : Nat → Handling ι} {messages : List PeerMessage}
    (handled : Handled i handler messages s t) : calls i ⟨s, e, t⟩ = taken handler 0 messages := by
  rw [calls, handled.delivered]
  exact List.drop_left ..

/-- The calls are as many as the messages, unless one throws. -/
theorem length_taken_le_iff {handler : Nat → Handling ι} {messages : List PeerMessage} :
    ∀ {calls k : Nat}, (taken handler calls messages).length ≤ k + 1 ↔
      ((∀ j ≤ k, (handler (calls + j)).throws = none) → messages.length ≤ k + 1) := by
  induction messages with
  | nil => simp [taken]
  | cons msg rest ih =>
    intro calls k
    by_cases returns : (handler calls).throws = none
    · cases k with
      | zero =>
        cases rest <;> simp [taken, returns]
      | succ k =>
        have shift : (∀ j ≤ k + 1, (handler (calls + j)).throws = none) ↔
            ∀ j ≤ k, (handler (calls + 1 + j)).throws = none := by
          constructor
          · intro all j bound
            rw [Nat.add_assoc, Nat.add_comm 1]
            exact all (j + 1) (Nat.succ_le_succ bound)
          · intro all j bound
            cases j with
            | zero => exact returns
            | succ j =>
              rw [Nat.add_comm j, ← Nat.add_assoc]
              exact all j (Nat.le_of_succ_le_succ bound)
        rw [shift]
        simpa [taken, returns] using @ih (calls + 1) k
    · have stops : ¬ ∀ j ≤ k, (handler (calls + j)).throws = none :=
        fun all => returns (all 0 (Nat.zero_le k))
      simp [taken, returns, stops]

variable [DecidableEq ι]

theorem keeps_step (agree : Agree s) (taken : step s e = some t) (foreign : ¬ e.Own i s) :
    (s.endpoints i).Keeps (t.endpoints i) := by
  cases e with
  | call action =>
    obtain ⟨⟨after, thrown⟩, ran, rfl⟩ := Option.map_eq_some_iff.mp taken
    exact keeps_run ran i
  | poll order revents =>
    cases taken
    exact .refl _
  | socket fd events send recv handler =>
    rw [step] at taken
    split at taken
    · cases taken
    · rename_i entry found
      apply (handled_onSocketEvent agree (agree.registered fd entry found).1 taken).others
      rintro rfl
      exact foreign (by rw [Event.Own, found]; rfl)

theorem handled_step (agree : Agree s) (taken : step s e = some t) (own : e.Own i s) :
    (s.endpoints i).state ≠ .disconnected ∧ ∃ fd events send recv handler,
      e = .socket fd events send recv handler ∧
        Handled i handler ((s.endpoints i).messages events send recv) s t := by
  cases e with
  | call action => cases own
  | poll order revents => cases own
  | socket fd events send recv handler =>
    obtain ⟨entry, found, rfl⟩ := Option.map_eq_some_iff.mp own
    have alive := (agree.registered fd entry found).1
    simp only [step, found] at taken
    exact ⟨alive, fd, events, send, recv, handler, rfl, handled_onSocketEvent agree alive taken⟩

/-- One step: no call follows one that disconnects exactly if that one has the last message. -/
theorem within_iff (agree : Agree s) (taken : step s e = some t) :
    (∀ k, e.disconnects i k → (calls i ⟨s, e, t⟩).length ≤ k + 1) ↔ DisconnectsLast i s e := by
  by_cases own : e.Own i s
  · obtain ⟨-, fd, events, send, recv, handler, rfl, handled⟩ := handled_step agree taken own
    rw [calls_of_handled handled]
    simp only [length_taken_le_iff, Nat.zero_add]
    exact ⟨fun all _ k returns disconnects => all k disconnects returns,
      fun last k disconnects returns => last own k returns disconnects⟩
  · rw [calls_of_keeps (keeps_step agree taken own)]
    refine iff_of_true (fun k _ => Nat.zero_le _) ?_
    cases e with
    | call action => trivial
    | poll order revents => trivial
    | socket fd events send recv handler => exact fun here => absurd here own

variable {identities : ι → PeerAddress × Digest × Digest} {pipeRead : Int}
  {history : List (Transition (Network ι) (Event ι))} {net : Network ι}

/-- A connection that has been given up gets no messages any more. -/
theorem quiet_of_run (run : Run step (new identities pipeRead) history net) :
    ∀ future x past, history = future ++ x :: past → (x.after.endpoints i).GivenUp →
      (∀ y ∈ future, calls i y = []) ∧ (net.endpoints i).GivenUp := by
  induction run with
  | start =>
    intro future x past split
    simp at split
  | @next history s t e rest taken ih =>
    intro future x past split gone
    cases future with
    | nil =>
      cases split
      exact ⟨List.forall_mem_nil _, gone⟩
    | cons y future =>
      cases split
      obtain ⟨quiet, still⟩ := ih future x past rfl gone
      have agree := agree_of_run rest
      have foreign : ¬ e.Own i s := fun own => (handled_step agree taken own).1 still.2
      have keeps := keeps_step agree taken foreign
      exact ⟨List.forall_mem_cons.mpr ⟨calls_of_keeps keeps, quiet⟩, keeps.givenUp still⟩

theorem givenUp_step (agree : Agree s) (taken : step s e = some t) {k : Nat}
    (reached : k < (calls i ⟨s, e, t⟩).length) (disconnects : e.disconnects i k) :
    (t.endpoints i).GivenUp := by
  by_cases own : e.Own i s
  · obtain ⟨-, fd, events, send, recv, handler, rfl, handled⟩ := handled_step agree taken own
    rw [calls_of_handled handled] at reached
    exact handled.givenUp k reached disconnects
  · rw [calls_of_keeps (keeps_step agree taken own)] at reached
    cases reached

/-- In a whole run. -/
theorem notAgain_iff (run : Run step (new identities pipeRead) history net) (i : ι) :
    NotAgain i history ↔ ∀ x ∈ history, DisconnectsLast i x.before x.event := by
  have agreed (x) (member : x ∈ history) :
      Agree x.before ∧ step x.before x.event = some x.after := by
    obtain ⟨⟨earlier, rest⟩, taken⟩ := run.of_mem member
    exact ⟨agree_of_run rest, taken⟩
  constructor
  · intro notAgain x member
    exact (within_iff (agreed x member).1 (agreed x member).2).mp (notAgain.within x member)
  · intro last
    constructor
    · intro x member
      exact (within_iff (agreed x member).1 (agreed x member).2).mpr (last x member)
    · intro x member k reached disconnects
      exact givenUp_step (agreed x member).1 (agreed x member).2 reached disconnects
    · intro future x past split gone
      exact (quiet_of_run run future x past split gone).1

end

/-! ## A handler that disconnects at the first message -/

/-- The peer sends its handshake and a `Choke`, and more behind them in the same bytes. -/
def parting (more : Bytes) : List (Event Unit) :=
  let handshake : Handshake := ⟨.replicate 8 0, .replicate 20 0, .replicate 20 7⟩
  [.call (.start () (.opened 9) (.replicate 8 0)),
    .socket 9 pollIn (.accepted 0) (.data (handshake.serialize ++ ([0, 0, 0, 1, 0] ++ more)))
      fun calls => { actions := if calls = 0 then [.disconnect ()] else [] }]

/-- Nothing is behind it. -/
theorem notAgain_parting : ∃ history net, Run step (new oneIdentity 3) history net ∧
    (net.endpoints ()).connection.delivered = [⟨.choke, []⟩] ∧ NotAgain () history := by
  have run := @run_of_replay _ _ step (new oneIdentity 3) (parting []) _ _ [] _ .start rfl
  refine ⟨_, _, run, rfl, (notAgain_iff run ()).mpr ?_⟩
  intro x member
  rcases List.mem_cons.mp member with rfl | first
  · intro own k returns disconnects
    exact Nat.le_add_left 1 k
  · cases List.mem_singleton.mp first
    trivial

/-- An `Unchoke` is behind it, and is handed over. -/
theorem parting_again : ∃ history net, Run step (new oneIdentity 3) history net ∧
    (net.endpoints ()).connection.delivered = [⟨.choke, []⟩, ⟨.unchoke, []⟩] ∧
    ¬ NotAgain () history := by
  have run := @run_of_replay _ _ step (new oneIdentity 3) (parting [0, 0, 0, 1, 1]) _ _ [] _
    .start rfl
  refine ⟨_, _, run, rfl, fun notAgain => ?_⟩
  have few := notAgain.within _ (List.mem_cons_self ..) 0 (List.mem_singleton_self _)
  exact absurd few (by decide)

end Network

end K0Torrent
