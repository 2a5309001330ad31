import K0Torrent.Client.Connections
import K0Torrent.Net.PollSet
import K0Torrent.Peer.Disconnecting

/-! What a callback is made of, and what it leaves alone.

The handler and the callback of a connection do a few things over and over, to that connection
only. What each of them keeps, the callback keeps.
-/

set_option autoImplicit false

namespace K0Torrent.Client

open EventLoop

variable {ι : Type} [DecidableEq ι]

/-- Kept by whatever the message handler does for a connection. -/
structure HandlerKeeps (i : ι) (Holds : Client ι → Prop) : Prop where
  peer : ∀ client peer, Holds client → Holds (client.setPeer i peer)
  store : ∀ client disk pieces, Holds client → Holds { client with disk, pieces }
  queued : ∀ client after msg thrown, Holds client →
    client.queueMessage i msg = some (after, thrown) → Holds after

/-- And by whatever else the callback does. -/
structure CallbackKeeps (i : ι) (Holds : Client ι → Prop) : Prop extends HandlerKeeps i Holds where
  connection : ∀ client (connection : PeerConnection),
    (connection.state = .disconnected ↔ (client.net.endpoints i).state = .disconnected) →
      connection.infoHash = (client.net.endpoints i).connection.infoHash → Holds client →
        Holds (client.setConnection i connection)
  receive : ∀ client bytes, Holds client → Holds (client.receive i bytes)
  disconnect : ∀ client, Holds client → Holds (client.disconnect i)
  write : ∀ client send, Holds client → Holds (client.handleWrite i send).1

section
variable {setup : Setup} {client after : Client ι} {i : ι} {thrown : Option Thrown}
  {Holds : Client ι → Prop}

theorem HandlerKeeps.requestBlocks (keeps : HandlerKeeps i Holds) {order : IterationOrder}
    {left : Nat} : ∀ {client : Client ι}, Holds client →
      requestBlocks order i left client = some (after, thrown) → Holds after := by
  induction left with
  | zero =>
    intro client holds ran
    cases ran
    exact holds
  | succ left ih =>
    intro client holds ran
    simp only [Client.requestBlocks] at ran
    split at ran
    · cases ran
      exact keeps.store client _ _ holds
    · have stored := keeps.store client client.disk
        (PieceManager.createNextRequest order client.pieces (client.peers i)).1 holds
      rcases andThen_cases ran with ⟨t, threw, rfl⟩ | ⟨middle, queued, rest⟩
      · exact keeps.queued _ _ _ _ stored threw
      · exact ih (keeps.queued _ _ _ _ stored queued) rest

theorem HandlerKeeps.requestNextBlocks (keeps : HandlerKeeps i Holds) {order : IterationOrder}
    (holds : Holds client) (ran : requestNextBlocks order client i = some (after, thrown)) :
    Holds after := by
  unfold Client.requestNextBlocks at ran
  split at ran
  · cases ran
    exact holds
  · exact keeps.requestBlocks holds ran

theorem HandlerKeeps.onPeerMessage (keeps : HandlerKeeps i Holds) {order : IterationOrder}
    {results : List SliceResult} {msg : PeerMessage} (holds : Holds client)
    (handled : onPeerMessage setup order results client i msg = some (after, thrown)) :
    Holds after := by
  have noted (peer : Peer) := keeps.peer client peer holds
  unfold Client.onPeerMessage at handled
  dsimp only at handled
  split at handled
  case h_2 => exact keeps.requestNextBlocks (noted _) handled
  case h_5 =>
    split at handled
    · split at handled
      · cases handled
        exact noted _
      · exact keeps.queued _ _ _ _ (noted _) handled
    · cases handled
      exact holds
  case h_6 => exact keeps.queued _ _ _ _ (noted _) handled
  case h_7 =>
    split at handled
    · cases handled
      exact holds
    · exact keeps.requestNextBlocks (keeps.store client _ _ holds) handled
  case h_8 | h_9 | h_10 =>
    cases handled
    exact holds
  all_goals
    cases handled
    exact noted _

theorem CallbackKeeps.handleMessages (keeps : CallbackKeeps i Holds) {around : Surroundings}
    {rounds : Nat} : ∀ {calls : Nat} {client : Client ι}, Holds client →
      handleMessages setup i around rounds calls client = some (after, thrown) → Holds after := by
  induction rounds with
  | zero =>
    intro calls client holds handled
    cases handled
  | succ rounds ih =>
    intro calls client holds handled
    rw [Client.handleMessages] at handled
    dsimp only at handled
    split at handled
    · cases handled
    · rename_i result parsed
      split at handled
      · cases handled
        exact holds
      · have recorded := keeps.connection client { (client.net.endpoints i).connection with
          delivered := (client.net.endpoints i).connection.delivered ++ [result.message] } .rfl rfl holds
        have consumed {middle : Client ι} (holds : Holds middle) := keeps.connection middle
          { (middle.net.endpoints i).connection with
            readBuffer := (middle.net.endpoints i).connection.readBuffer.drop result.consumedBytes }
          .rfl rfl holds
        rcases andThen_cases handled with ⟨t, threw, rfl⟩ | ⟨middle, returned, rest⟩
        · split at threw
          · cases threw
          · exact keeps.onPeerMessage recorded threw
        · split at returned
          · cases returned
            exact ih (consumed holds) rest
          · exact ih (consumed (keeps.onPeerMessage recorded returned)) rest

theorem CallbackKeeps.caught (keeps : CallbackKeeps i Holds) {called : Called ι}
    (holds : Holds called.1) : Holds (caught i called) := by
  obtain ⟨client, _ | _ | _⟩ := called
  · exact holds
  · exact keeps.disconnect client holds
  · exact holds

theorem CallbackKeeps.handleRead (keeps : CallbackKeeps i Holds) {around : Surroundings}
    (holds : Holds client) (read : client.handleRead setup i around = some after) : Holds after := by
  unfold Client.handleRead at read
  split at read
  · cases read
    exact keeps.disconnect client holds
  · split at read
    · cases read
      exact keeps.disconnect client holds
    · rename_i bytes recv
      dsimp only at read
      split at read
      · cases read
        exact holds
      · have received := keeps.receive client bytes holds
        split at read
        · cases read
          exact keeps.disconnect _ (keeps.connection _ _ .rfl rfl received)
        · rename_i connection ready shaken
          obtain ⟨state, hash⟩ : (connection.state = .disconnected ↔
              (client.net.endpoints i).state = .disconnected) ∧
              connection.infoHash = (client.net.endpoints i).connection.infoHash := by
            split at shaken
            · rename_i sent
              obtain ⟨alive, same⟩ := @Network.processHandshake_ok
                { (client.net.endpoints i).connection with
                  readBuffer := (client.net.endpoints i).connection.readBuffer ++ bytes } _ _ sent
                shaken
              refine ⟨iff_of_false alive fun dead => ?_, same⟩
              cases sent.symm.trans dead
            · cases shaken
              exact ⟨.rfl, rfl⟩
          have filled := keeps.connection (client.receive i bytes) connection state hash received
          split at read
          · obtain ⟨called, handled, rfl⟩ := Option.map_eq_some_iff.mp read
            exact keeps.caught (keeps.handleMessages filled handled)
          · cases read
            exact filled

theorem CallbackKeeps.onSocketEvent (keeps : CallbackKeeps i Holds) {events : Nat}
    {around : Surroundings} (holds : Holds client)
    (ran : client.onSocketEvent setup i events around = some after) : Holds after := by
  have written : Holds (if hasEvent events pollOut then client.handleWrite i around.send
      else (client, none)).1 := by
    split
    · exact keeps.write client around.send holds
    · exact holds
  unfold Client.onSocketEvent at ran
  split at ran
  · rename_i middle t called
    rw [called] at written
    cases ran
    exact keeps.caught written
  · rename_i middle called
    rw [called] at written
    split at ran
    · exact keeps.handleRead written ran
    · cases ran
      exact written

end

/-! ## What it leaves alone -/

/-- Nothing of any other connection has changed, nor the registration of another socket. -/
structure Within (i : ι) (before after : Client ι) : Prop where
  fd : (after.net.endpoints i).fd = (before.net.endpoints i).fd ∨ (after.net.endpoints i).fd = -1
  hash : (after.net.endpoints i).connection.infoHash = (before.net.endpoints i).connection.infoHash
  endpoint : ∀ j, j ≠ i → after.net.endpoints j = before.net.endpoints j
  peer : ∀ j, j ≠ i → after.peers j = before.peers j
  arrived : ∀ j, j ≠ i → after.arrived j = before.arrived j
  lookup : ∀ fd, 0 ≤ fd → fd ≠ (before.net.endpoints i).fd →
    after.net.loop.lookup fd = before.net.loop.lookup fd
  connections : after.connections = before.connections
  unread : after.unread = before.unread

section
variable {before client after : Client ι} {i : ι}

omit [DecidableEq ι] in
theorem Within.refl (i : ι) (client : Client ι) : Within i client client where
  fd := .inl rfl
  hash := rfl
  endpoint _ _ := rfl
  peer _ _ := rfl
  arrived _ _ := rfl
  lookup _ _ _ := rfl
  connections := rfl
  unread := rfl

omit [DecidableEq ι] in
/-- A socket that the connection has now is the one that it had. -/
theorem Within.ne_fd (within : Within i before client) {fd : Int} (positive : 0 ≤ fd)
    (other : fd ≠ (before.net.endpoints i).fd) : fd ≠ (client.net.endpoints i).fd := by
  rcases within.fd with same | closed
  · rwa [same]
  · rw [closed]
    omega

theorem Within.update (within : Within i before client) {endpoint : Endpoint}
    (fd : endpoint.fd = (client.net.endpoints i).fd ∨ endpoint.fd = -1)
    (hash : endpoint.connection.infoHash = (client.net.endpoints i).connection.infoHash)
    {loop : EventLoop ι} (lookup : ∀ fd, 0 ≤ fd → fd ≠ (client.net.endpoints i).fd →
      loop.lookup fd = client.net.loop.lookup fd) {opened : Finset Int} {raised : List LoopError} :
    Within i before { client with
      net := ⟨Function.update client.net.endpoints i endpoint, loop, opened, raised⟩ } where
  fd := by
    simp only [Function.update_self]
    rcases fd with same | closed
    · rw [same]
      exact within.fd
    · exact .inr closed
  hash := by
    simp only [Function.update_self]
    exact hash.trans within.hash
  endpoint j other := by
    simp only [Function.update_of_ne other]
    exact within.endpoint j other
  peer := within.peer
  arrived := within.arrived
  lookup fd positive other :=
    (lookup fd positive (within.ne_fd positive other)).trans (within.lookup fd positive other)
  connections := within.connections
  unread := within.unread

theorem Within.modify (within : Within i before client) {endpoint : Endpoint}
    (fd : endpoint.fd = (client.net.endpoints i).fd)
    (hash : endpoint.connection.infoHash = (client.net.endpoints i).connection.infoHash)
    (events : Nat) :
    Within i before { client with net := ((client.net.update i endpoint).modify i events).1 } := by
  unfold Network.modify
  split
  · rename_i loop modified
    refine within.update (.inl fd) hash fun other positive apart => ?_
    rw [Network.endpoints_update_self, fd] at modified
    obtain ⟨entry, found, -⟩ := modify_ok_iff.mp modified
    rw [lookup_modify found modified, if_neg apart]
    rfl
  · exact within.update (.inl fd) hash fun _ _ _ => rfl

theorem keeps_within (i : ι) (before : Client ι) : CallbackKeeps i (Within i before) where
  peer client peer within := by
    refine ⟨within.fd, within.hash, within.endpoint, fun j other => ?_, within.arrived,
      within.lookup, within.connections, within.unread⟩
    exact (Function.update_of_ne other ..).trans (within.peer j other)
  store client disk pieces within := ⟨within.fd, within.hash, within.endpoint, within.peer,
    within.arrived, within.lookup, within.connections, within.unread⟩
  queued client after msg thrown within queued := by
    obtain ⟨called, ran, same⟩ := Option.map_eq_some_iff.mp queued
    cases same
    unfold Network.queueMessage at ran
    split at ran
    · cases ran
      exact within
    · split at ran
      · cases ran
      · rename_i buf serialized
        cases ran
        exact @Within.modify ι _ before client i within ((client.net.endpoints i).queue msg buf) rfl
          rfl _
  connection client connection state hash within := by
    have updated := @Within.update ι _ before client i within
      { client.net.endpoints i with connection } (.inl rfl) hash client.net.loop (fun _ _ _ => rfl)
      client.net.opened client.net.raised
    exact updated
  receive client bytes within := by
    refine ⟨within.fd, within.hash, within.endpoint, within.peer, fun j other => ?_, within.lookup,
      within.connections, within.unread⟩
    exact (Function.update_of_ne other ..).trans (within.arrived j other)
  disconnect client within := by
    unfold Client.disconnect Network.disconnect
    dsimp only
    split
    · exact within
    · split
      · apply within.update
        · exact .inr rfl
        · rfl
        · intro other positive apart
          rw [lookup_remove, if_neg apart]
      · apply within.update
        · exact .inl rfl
        · rfl
        · exact fun _ _ _ => rfl
  write client send within := by
    have took (count : Nat) := @Within.update ι _ before client i within
      ((client.net.endpoints i).took count) (.inl rfl) rfl client.net.loop (fun _ _ _ => rfl)
      client.net.opened client.net.raised
    unfold Client.handleWrite Network.handleWrite
    split
    · exact within
    · split
      · exact within
      · cases send with
        | failed => exact within
        | accepted count =>
          dsimp only
          split
          · exact @Within.modify ι _ before client i within ((client.net.endpoints i).took count) rfl
              rfl _
          · exact took count

omit [DecidableEq ι] in
theorem synced_modify {pipeRead : Int} {net : Network ι} {events : Nat}
    (synced : ∃ masks, PollSet.Synced pipeRead masks net.loop) :
    ∃ masks, PollSet.Synced pipeRead masks (net.modify i events).1.loop := by
  obtain ⟨masks, synced⟩ := synced
  unfold Network.modify
  split
  · rename_i loop modified
    exact ⟨_, synced.modify modified⟩
  · exact ⟨masks, synced⟩

/-- The array for `poll` stays in step with the registrations. -/
theorem keeps_synced (i : ι) (pipeRead : Int) :
    CallbackKeeps i fun client => ∃ masks, PollSet.Synced pipeRead masks client.net.loop where
  peer _ _ synced := synced
  store _ _ _ synced := synced
  queued client after msg thrown synced queued := by
    obtain ⟨called, ran, same⟩ := Option.map_eq_some_iff.mp queued
    cases same
    unfold Network.queueMessage at ran
    split at ran
    · cases ran
      exact synced
    · split at ran
      · cases ran
      · cases ran
        exact synced_modify synced
  connection _ _ _ _ synced := synced
  receive _ _ synced := synced
  disconnect client synced := by
    obtain ⟨masks, synced⟩ := synced
    unfold Client.disconnect Network.disconnect
    dsimp only
    split
    · exact ⟨masks, synced⟩
    · split
      · exact ⟨_, synced.remove _⟩
      · exact ⟨masks, synced⟩
  write client send synced := by
    unfold Client.handleWrite Network.handleWrite
    split
    · exact synced
    · split
      · exact synced
      · cases send with
        | failed => exact synced
        | accepted count =>
          dsimp only
          split
          · exact synced_modify synced
          · exact synced

end

end K0Torrent.Client
