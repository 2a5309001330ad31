import K0Torrent.Client.Peering

/-! When a pass of the loop returns.

Everything a callback does comes to an end and stays inside its buffers, but for the frames
whose length wraps: there the parser reads outside, or the loop never ends.
-/

set_option autoImplicit false

namespace K0Torrent

open Machine Incremental

/-- The loop over the messages ends in these bytes, and inside them. -/
def Readable (batch : Bytes) : Prop :=
  ∃ items left, Emptied nextMessage batch items left ∧ ∃ result, parsePeerMessage left = .ok result

theorem readable_nil : Readable [] := ⟨[], [], .done rfl, _, rfl⟩

theorem readable_of_taken {batch rest : Bytes} {items : List PeerMessage}
    (taken : nextMessage batch = some (items, rest)) : Readable batch ↔ Readable rest := by
  constructor
  · rintro ⟨all_, left, emptied, ended⟩
    cases emptied with
    | done blocked => cases blocked.symm.trans taken
    | more taken' emptied =>
      cases taken'.symm.trans taken
      exact ⟨_, left, emptied, ended⟩
  · rintro ⟨later, left, emptied, ended⟩
    exact ⟨_, left, .more taken emptied, ended⟩

/-- The start of a frame whose length does not wrap. -/
def Begun (tail : Bytes) : Prop :=
  tail.length < 4 ∨ frameLength tail < 2 ^ 32 - 4 ∧ tail.length < 4 + frameLength tail

theorem parse_wrapped {buffer : Bytes} (enough : 4 ≤ buffer.length)
    (wrapped : 2 ^ 32 - 4 ≤ frameLength buffer) (small : buffer.length < 2 ^ 32) :
    ∃ fault, parsePeerMessage buffer = .error fault := by
  obtain ⟨b0, b1, b2, b3, rest, rfl⟩ := exists_prefix buffer enough
  rw [frameLength_cons] at wrapped
  have bound := readU32_lt b0 b1 b2 b3
  simp only [List.length_cons] at small
  rw [parsePeerMessage_prefixed, if_neg (by omega), if_neg (by omega)]
  cases rest with
  | nil => exact ⟨_, rfl⟩
  | cons id body =>
    dsimp only
    rw [if_neg (by omega)]
    exact ⟨_, rfl⟩

theorem begun_iff {buffer : Bytes} (small : buffer.length < 2 ^ 32) :
    Begun buffer ↔ ∃ result, parsePeerMessage buffer = .ok result ∧ result.complete ≠ true := by
  by_cases short : buffer.length < 4
  · refine iff_of_true (.inl short) ⟨{}, ?_, Bool.false_ne_true⟩
    simp [parsePeerMessage, short, pure, Except.pure]
  · have enough := Nat.not_lt.mp short
    by_cases unwrapped : frameLength buffer < 2 ^ 32 - 4
    · obtain ⟨result, parsed, complete, -, -⟩ := exactFraming_of_unwrapped buffer enough unwrapped
      constructor
      · rintro (few | ⟨-, waits⟩)
        · exact absurd few short
        · exact ⟨result, parsed, fun whole => absurd (complete.mp whole).2 (Nat.not_le.mpr waits)⟩
      · rintro ⟨result', parsed', waits⟩
        cases parsed.symm.trans parsed'
        exact .inr ⟨unwrapped, Nat.not_le.mp fun whole => waits (complete.mpr ⟨enough, whole⟩)⟩
    · obtain ⟨fault, failed⟩ := parse_wrapped enough (Nat.not_lt.mp unwrapped) small
      refine iff_of_false ?_ ?_
      · rintro (few | ⟨less, -⟩)
        · exact short few
        · exact unwrapped less
      · rintro ⟨result, parsed, -⟩
        cases failed.symm.trans parsed

/-- What is taken off a buffer of a usual size is a frame. -/
theorem frame_of_taken {buffer rest : Bytes} {items : List PeerMessage}
    (small : buffer.length < 2 ^ 32) (taken : nextMessage buffer = some (items, rest)) :
    ∃ frame : Frame, buffer = frame.bytes ++ rest := by
  obtain ⟨result, parsed, complete, -, same⟩ := nextMessage_eq_some.mp taken
  have enough : 4 ≤ buffer.length := by
    by_contra few
    simp only [parsePeerMessage, if_pos (Nat.not_le.mp few), pure, Except.pure] at parsed
    cases parsed
    cases complete
  have unwrapped : frameLength buffer < 2 ^ 32 - 4 := by
    by_contra wrapped
    obtain ⟨fault, failed⟩ := parse_wrapped enough (Nat.not_lt.mp wrapped) small
    cases failed.symm.trans parsed
  obtain ⟨result', parsed', -, -, exact_⟩ := exactFraming_of_unwrapped buffer enough unwrapped
  cases parsed.symm.trans parsed'
  obtain ⟨consumed, -, -, written⟩ := exact_ complete
  rw [consumed] at same written
  have split_ : buffer = buffer.take (4 + frameLength buffer) ++ rest := by
    rw [← same, List.take_append_drop]
  by_cases alive : frameLength buffer = 0
  · refine ⟨.keepAlive, split_.trans (congrArg (· ++ rest) ?_)⟩
    rw [alive]
    obtain ⟨b0, b1, b2, b3, later, rfl⟩ := exists_prefix buffer enough
    rw [frameLength_cons] at alive
    have zeros := writeU32_readU32 b0 b1 b2 b3
    rw [alive] at zeros
    exact zeros.symm
  · have serialized := written alive
    have short : result.message.payload.length < 2 ^ 32 - 5 := by
      unfold PeerMessage.serialize at serialized
      dsimp only at serialized
      split at serialized
      · cases serialized
      · have bound := Nat.mod_lt (4 + (1 + result.message.payload.length % 2 ^ 32) % 2 ^ 32)
          (show 0 < 2 ^ 32 by decide)
        omega
    refine ⟨.message result.message short, split_.trans (congrArg (· ++ rest) ?_)⟩
    exact (Except.ok.inj ((Frame.serialize_eq (.message result.message short)).symm.trans
      serialized)).symm

/-- Whole frames, and the start of one more. -/
theorem readable_iff {batch : Bytes} (small : batch.length < 2 ^ 32) : Readable batch ↔
    ∃ frames tail, batch = Frames.bytes Frame.bytes frames ++ tail ∧ Begun tail := by
  constructor
  · rintro ⟨items, left, emptied, result, parsed⟩
    induction emptied with
    | done blocked =>
      refine ⟨[], _, rfl, (begun_iff small).mpr ⟨result, parsed, fun complete => ?_⟩⟩
      simp [nextMessage, parsed, complete] at blocked
    | more taken emptied ih =>
      have shorter := length_rest taken emptied
      obtain ⟨frame, rfl⟩ := frame_of_taken small taken
      obtain ⟨frames, tail, rfl, begun⟩ := ih (by omega) parsed
      refine ⟨frame :: frames, tail, ?_, begun⟩
      rw [Frames.bytes_cons, List.append_assoc]
  · rintro ⟨frames, tail, rfl, begun⟩
    induction frames with
    | nil =>
      obtain ⟨result, parsed, waits⟩ := (begun_iff small).mp begun
      exact ⟨[], tail, .done (by simp [nextMessage, parsed, waits]), result, parsed⟩
    | cons frame frames ih =>
      rw [Frames.bytes_cons, List.append_assoc] at small ⊢
      rw [readable_of_taken (nextMessage_frame frame _)]
      apply ih
      rw [List.length_append] at small
      omega

namespace Client

variable {ι : Type} [DecidableEq ι]

section
variable {setup : Setup} {client : Client ι} {i : ι}

/-! ## The handler always returns -/

theorem queueMessage_returns (msg : PeerMessage) (short : msg.payload.length < 2 ^ 32 - 5) :
    (client.queueMessage i msg).isSome := by
  unfold Client.queueMessage Network.queueMessage
  rw [Option.isSome_map]
  split
  · rfl
  · rw [msg.serialize_eq short]
    rfl

omit [DecidableEq ι] in
theorem andThen_returns {called : Option (Called ι)} {rest : Client ι → Option (Called ι)}
    (returns : called.isSome) (later : ∀ after, (rest after).isSome) :
    (andThen called rest).isSome := by
  obtain ⟨⟨after, _ | t⟩, rfl⟩ := Option.isSome_iff_exists.mp returns
  · exact later after
  · rfl

theorem length_request (request : BlockRequest) : request.message.payload.length = 12 := rfl

theorem requestBlocks_returns (order : IterationOrder) (left : Nat) : ∀ client : Client ι,
    (requestBlocks order i left client).isSome := by
  induction left with
  | zero =>
    intro client
    rfl
  | succ left ih =>
    intro client
    simp only [Client.requestBlocks]
    split
    · rfl
    · rename_i request created
      apply andThen_returns _ ih
      apply queueMessage_returns
      rw [length_request]
      decide

theorem requestNextBlocks_returns (order : IterationOrder) (client : Client ι) :
    (requestNextBlocks order client i).isSome := by
  unfold Client.requestNextBlocks
  split
  · rfl
  · exact requestBlocks_returns order 5 client

theorem onPeerMessage_returns (order : IterationOrder) (results : List SliceResult)
    (client : Client ι) (msg : PeerMessage) :
    (onPeerMessage setup order results client i msg).isSome := by
  have greets (client : Client ι) : (client.queueMessage i Session.interested).isSome :=
    queueMessage_returns _ (by decide)
  unfold Client.onPeerMessage
  dsimp only
  split
  case h_2 => exact requestNextBlocks_returns order _
  case h_5 =>
    split
    · split
      · rfl
      · exact greets _
    · rfl
  case h_6 => exact greets _
  case h_7 =>
    split
    · rfl
    · exact requestNextBlocks_returns order _
  all_goals rfl

/-! ## The callback -/

theorem handleMessages_returns_iff {around : Surroundings} {rounds : Nat} :
    ∀ {calls : Nat} {client : Client ι}, Network.Agree client.net →
      (client.net.endpoints i).connection.readBuffer.length < rounds →
        ((handleMessages setup i around rounds calls client).isSome ↔
          Readable (client.net.endpoints i).connection.readBuffer) := by
  intro calls client agree enough
  constructor
  · intro returns
    obtain ⟨⟨after, thrown⟩, handled⟩ := Option.isSome_iff_exists.mp returns
    obtain ⟨-, -, -, items, -, emptied, ended⟩ := drains_handleMessages agree handled
    exact ⟨items, _, emptied, ended⟩
  · rintro ⟨items, left, emptied, result, parsed⟩
    generalize buffer : (client.net.endpoints i).connection.readBuffer = bytes at emptied enough
    induction emptied generalizing rounds calls client with
    | done blocked =>
      obtain ⟨n, rfl⟩ : ∃ n, rounds = n + 1 := ⟨rounds - 1, by omega⟩
      have waits : result.complete ≠ true := by
        intro complete
        simp [nextMessage, parsed, complete] at blocked
      rw [handleMessages, buffer, parsed]
      dsimp only
      rw [if_pos waits]
      rfl
    | @more bytes rest left items later taken emptied ih =>
      have shorter := length_rest taken emptied
      obtain ⟨n, rfl⟩ : ∃ n, rounds = n + 1 := ⟨rounds - 1, by omega⟩
      obtain ⟨result', parsed', complete, -, same⟩ := nextMessage_eq_some.mp taken
      rw [handleMessages, buffer, parsed']
      dsimp only
      rw [if_neg (not_not_intro complete)]
      -- Behind the handler the buffer is as it was.
      have consumed {middle : Client ι} (agree : Network.Agree middle.net)
          (kept : (middle.net.endpoints i).connection.readBuffer = bytes) (calls : Nat) :
          (handleMessages setup i around n calls (middle.setConnection i
            { (middle.net.endpoints i).connection with
              readBuffer := (middle.net.endpoints i).connection.readBuffer.drop
                result'.consumedBytes })).isSome := by
        refine ih (agree_consume agree _) parsed ?_ (by omega)
        rw [net_setConnection, Network.endpoints_setConnection_self]
        dsimp only
        rw [kept, same]
      cases keepAlive : result'.isKeepAlive with
      | true => exact consumed agree buffer _
      | false =>
        have recorded : Network.Agree (client.setConnection i { (client.net.endpoints i).connection with
            delivered := (client.net.endpoints i).connection.delivered ++ [result'.message] }).net :=
          agree.setConnection Iff.rfl rfl
        obtain ⟨⟨middle, thrown⟩, handled⟩ := Option.isSome_iff_exists.mp
          (onPeerMessage_returns (around.orders calls) (around.results calls)
            (client.setConnection i { (client.net.endpoints i).connection with
              delivered := (client.net.endpoints i).connection.delivered ++ [result'.message] })
            result'.message)
        obtain ⟨rfl, agree'⟩ := returns_onPeerMessage recorded handled
        obtain ⟨connection, -⟩ := reading_onPeerMessage handled
        rw [net_setConnection, Network.endpoints_setConnection_self] at connection
        simp only [Bool.false_eq_true, if_false, buffer] at handled ⊢
        rw [handled]
        apply consumed agree'
        rw [connection]
        exact buffer

theorem handleRead_returns_iff {around : Surroundings} (agree : Network.Agree client.net)
    (alive : (client.net.endpoints i).state ≠ .disconnected) :
    (client.handleRead setup i around).isSome ↔
      Readable ((client.net.endpoints i).arriving around.recv) := by
  have nothing {returned : Option (Client ι)} (some_ : returned.isSome) :
      returned.isSome ↔ Readable [] := iff_of_true some_ readable_nil
  -- From the state behind the handshake.
  have loop (connection : PeerConnection) (bytes : Bytes) (state : connection.state = .connected)
      (hash : connection.infoHash = (client.net.endpoints i).connection.infoHash) :
      ((handleMessages setup i around (connection.readBuffer.length + 1) 0
        ((client.receive i bytes).setConnection i connection)).map (caught i)).isSome ↔
          Readable connection.readBuffer := by
    have agree' : Network.Agree ((client.receive i bytes).setConnection i connection).net := by
      refine agree.setConnection (iff_of_false (fun dead => ?_) alive) hash
      cases state.symm.trans dead
    have returns := @handleMessages_returns_iff ι _ setup i around (connection.readBuffer.length + 1)
      0 _ agree' (by simp)
    rw [Option.isSome_map, returns, net_setConnection, Network.endpoints_setConnection_self]
  unfold Client.handleRead Endpoint.arriving
  rw [if_neg (agree.fd_ne alive)]
  cases recv : around.recv with
  | failed => exact nothing rfl
  | data bytes =>
    dsimp only
    by_cases none_ : bytes = []
    · rw [if_pos none_, if_pos none_]
      exact nothing rfl
    rw [if_neg none_, if_neg none_]
    cases state : (client.net.endpoints i).state with
    | disconnected => exact absurd state alive
    | connected =>
      have here : (client.net.endpoints i).connection.state = .connected := state
      rw [if_neg fun same => by cases here.symm.trans same]
      dsimp only
      rw [if_pos ⟨rfl, here⟩]
      exact loop _ bytes here rfl
    | handshakeSent =>
      have here : (client.net.endpoints i).connection.state = .handshakeSent := state
      rw [if_pos here]
      dsimp only
      rcases PeerConnection.processHandshake_cases { (client.net.endpoints i).connection with
          readBuffer := (client.net.endpoints i).connection.readBuffer ++ bytes } with
        ⟨greets, processed⟩ | ⟨stranger, ⟨-, waits⟩ | ⟨-, error, failed⟩⟩
      · dsimp only at greets
        rw [processed, if_pos greets]
        dsimp only
        rw [if_pos ⟨rfl, rfl⟩]
        exact loop _ bytes rfl rfl
      · dsimp only at stranger
        rw [waits, if_neg stranger]
        dsimp only
        rw [if_neg fun both => absurd both.1 Bool.false_ne_true]
        exact nothing rfl
      · dsimp only at stranger
        rw [failed, if_neg stranger]
        exact nothing rfl

theorem onSocketEvent_returns_iff {events : Nat} {around : Surroundings}
    (agree : Network.Agree client.net) (alive : (client.net.endpoints i).state ≠ .disconnected) :
    (client.onSocketEvent setup i events around).isSome ↔
      Readable ((client.net.endpoints i).batch events around.send around.recv) := by
  have read {client : Client ι} (agree : Network.Agree client.net)
      (alive : (client.net.endpoints i).state ≠ .disconnected) :
      ((if hasEvent events pollIn then client.handleRead setup i around else some client).isSome ↔
        Readable (if hasEvent events pollIn then (client.net.endpoints i).arriving around.recv
          else [])) := by
    by_cases readable : hasEvent events pollIn = true
    · rw [if_pos readable, if_pos readable]
      exact handleRead_returns_iff agree alive
    · rw [if_neg readable, if_neg readable]
      exact iff_of_true rfl readable_nil
  unfold Client.onSocketEvent Endpoint.batch
  by_cases writable : hasEvent events pollOut = true
  · have returns := Network.handleWrite_returns agree alive around.send
    obtain ⟨connection, -, -⟩ := @Network.endpoints_handleWrite ι client.net i _ around.send
    have agree' : Network.Agree (client.handleWrite i around.send).1.net :=
      agree.handleWrite around.send
    have same : ((client.handleWrite i around.send).1.net.endpoints i).connection =
        (client.net.endpoints i).connection := connection
    have threw : (client.handleWrite i around.send).2 = (client.net.handleWrite i around.send).2 := rfl
    rw [if_pos writable]
    rcases called : client.handleWrite i around.send with ⟨middle, _ | t⟩
    · rw [called] at agree' same threw
      have writes := returns.mp threw.symm
      have unchanged : (middle.net.endpoints i).arriving around.recv =
          (client.net.endpoints i).arriving around.recv := by
        dsimp only at same
        simp only [Endpoint.arriving, Endpoint.state, same]
      rw [if_neg (by simp [writes]), ← unchanged]
      apply read agree'
      rwa [Endpoint.state, same]
    · rw [called] at threw
      have fails : (client.net.endpoints i).writeFails around.send = true := by
        by_contra writes
        rw [returns.mpr (Bool.eq_false_iff.mpr writes)] at threw
        cases threw
      rw [if_pos ⟨writable, fails⟩]
      exact iff_of_true rfl readable_nil
  · rw [if_neg writable, if_neg fun both => writable both.1]
    exact read agree alive

/-! ## A pass -/

variable {pipeRead : Int}

/-- What one callback does makes no difference to whether another one returns. -/
theorem Regular.serves_iff {around : Nat → Surroundings} {dues : List (Due ι)} :
    ∀ {client : Client ι}, Regular setup pipeRead client → (dues.map Due.connection).Nodup →
      (∀ due ∈ dues, (client.net.endpoints due.connection).state ≠ .disconnected) →
        ((dues.foldlM (serve setup around) client).isSome ↔
          ∀ due ∈ dues, Readable ((client.net.endpoints due.connection).batch
            (widenShort due.revents) (around due.index).send (around due.index).recv)) := by
  induction dues with
  | nil =>
    intro client regular once alive
    exact iff_of_true rfl (List.forall_mem_nil _)
  | cons due dues ih =>
    intro client regular once alive
    obtain ⟨apart, once⟩ := List.nodup_cons.mp once
    obtain ⟨first, rest⟩ := List.forall_mem_cons.mp alive
    have returns := @onSocketEvent_returns_iff ι _ setup client due.connection
      (widenShort due.revents) (around due.index) regular.agree first
    rw [List.foldlM_cons, List.forall_mem_cons, ← returns]
    cases called : serve setup around client due with
    | none =>
      unfold serve at called
      rw [called]
      simp
    | some after =>
      unfold serve at called
      obtain ⟨-, -, found⟩ := regular.agree.live due.connection first
      have regular' := regular.called found called
      have within := (keeps_within due.connection client).onSocketEvent (.refl _ client) called
      have same {later : Due ι} (member : later ∈ dues) :
          after.net.endpoints later.connection = client.net.endpoints later.connection := by
        apply within.endpoint
        intro same
        exact apart (same ▸ List.mem_map_of_mem member)
      have others : ∀ later ∈ dues,
          (after.net.endpoints later.connection).state ≠ .disconnected := by
        intro later member
        rw [same member]
        exact rest later member
      rw [called]
      refine Iff.trans (ih regular' once others) ?_
      simp only [Option.isSome_some, true_and]
      constructor
      · intro readable later member
        rw [← same member]
        exact readable later member
      · intro readable later member
        rw [same member]
        exact readable later member

variable {start : Client ι} {history : List (Transition (Client ι) (Event ι))}

/-- A pass returns just if the client has not been stopped, and each of the reads that the pass
makes leaves whole frames in the buffer and the start of one more, none of them with a length
that wraps. -/
theorem runOnce_returns_iff (runs : Runs setup start history client) (order : EventLoop.EntryOrder ι)
    (revents : Nat → Nat) (around : Nat → Surroundings)
    (small : ∀ due ∈ (client.polled order revents).dues,
      ((client.net.endpoints due.connection).batch (widenShort due.revents)
        (around due.index).send (around due.index).recv).length < 2 ^ 32) :
    (client.runOnce setup order revents around).isSome ↔
      (∀ x ∈ history, x.event ≠ .stop) ∧
      ∀ due ∈ (client.polled order revents).dues, ∃ frames tail,
        (client.net.endpoints due.connection).batch (widenShort due.revents)
          (around due.index).send (around due.index).recv = Frames.bytes Frame.bytes frames ++ tail ∧
        Begun tail := by
  obtain ⟨pipeRead, regular⟩ := runs.regular
  have polled := regular.polled order revents
  obtain ⟨masks, mirrors, -⟩ := regular.mirrors order revents
  have alive (due : Due ι) (member : due ∈ (client.polled order revents).dues) :=
    ((polled.mem_dues due).mp member).1
  have serves := @Regular.serves_iff ι _ setup pipeRead around _ _ polled
    (polled.nodup_dues mirrors.once) alive
  rw [regular.runOnce_eq, ← runs.unread]
  split
  · rename_i empty
    rw [serves, and_iff_right empty]
    exact forall₂_congr fun due member => readable_iff (small due member)
  · rename_i woken
    exact iff_of_false Bool.false_ne_true fun both => woken both.1

end

/-- A length that wraps. -/
def wrapping : Bytes := [0xFF, 0xFF, 0xFF, 0xFC]

/-- The peer has only to send four bytes. -/
theorem runOnce_returns_iff_dialled : ∃ history client, Runs Session.oneByte dialled history client ∧
    ¬ (client.runOnce Session.oneByte (.asStored _) ready (hearing wrapping)).isSome := by
  obtain ⟨history, client, runs, dues, batch⟩ : ∃ history client,
      Runs Session.oneByte dialled history client ∧
        (client.polled (.asStored _) ready).dues = [⟨1, (), 5⟩] ∧
        (client.net.endpoints ()).batch (widenShort 5) (.accepted 1000) (.data wrapping) = wrapping :=
    ⟨_, _, runs_of_replay [hears itsHandshake] rfl, rfl, rfl⟩
  have small : ∀ due ∈ (client.polled (.asStored _) ready).dues,
      ((client.net.endpoints due.connection).batch (widenShort due.revents)
        (hearing wrapping due.index).send (hearing wrapping due.index).recv).length < 2 ^ 32 := by
    rw [dues]
    exact List.forall_mem_singleton.mpr (by rw [hearing, batch]; decide)
  refine ⟨history, client, runs, fun returns => ?_⟩
  have readable := ((runOnce_returns_iff runs _ _ _ small).mp returns).2
  rw [dues, List.forall_mem_singleton, hearing, batch] at readable
  obtain ⟨items, left, emptied, result, parsed⟩ := (readable_iff (by decide)).mpr readable
  obtain ⟨-, rfl⟩ := emptied.unique (.done rfl)
  cases parsed

end Client

end K0Torrent
