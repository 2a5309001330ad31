import K0Torrent.Client.Outgoing

/-! How much a client sends.

What makes a client send most is an `Unchoke`: five bytes, for five requests of seventeen. So
nobody gets more than seventeen times what it has sent, and the handshake.
-/

set_option autoImplicit false

namespace K0Torrent

open Machine Incremental

/-- The bytes of the frame that carries the message. -/
def PeerMessage.frameSize (msg : PeerMessage) : Nat := 5 + msg.payload.length

def volume (msgs : List PeerMessage) : Nat := (msgs.map PeerMessage.frameSize).sum

@[simp] theorem volume_nil : volume [] = 0 := rfl

@[simp] theorem volume_cons (msg : PeerMessage) (msgs : List PeerMessage) :
    volume (msg :: msgs) = msg.frameSize + volume msgs := rfl

theorem volume_append (front back : List PeerMessage) :
    volume (front ++ back) = volume front + volume back := by
  rw [volume, List.map_append, List.sum_append]
  rfl

theorem volume_reverse (msgs : List PeerMessage) : volume msgs.reverse = volume msgs := by
  rw [volume, List.map_reverse, List.sum_reverse]
  rfl

theorem frameSize_interested : Session.interested.frameSize = 5 := rfl

/-! ## Frames -/

theorem length_serialize {msg : PeerMessage} {buf : Bytes} (serialized : msg.serialize = .ok buf) :
    buf.length = msg.frameSize := by
  unfold PeerMessage.serialize at serialized
  dsimp only at serialized
  split at serialized
  · cases serialized
  · cases serialized
    rw [List.length_append, length_writeU32, List.length_cons, PeerMessage.frameSize]
    omega

theorem length_flatten_serialized {msgs : List PeerMessage} :
    ∀ {bufs : List Bytes}, msgs.map PeerMessage.serialize = bufs.map .ok →
      bufs.flatten.length = volume msgs := by
  induction msgs with
  | nil =>
    intro bufs serialized
    cases bufs with
    | nil => rfl
    | cons buf bufs => cases serialized
  | cons msg msgs ih =>
    intro bufs serialized
    cases bufs with
    | nil => cases serialized
    | cons buf bufs =>
      obtain ⟨first, later⟩ := List.cons.inj serialized
      rw [List.flatten_cons, List.length_append, volume_cons, length_serialize first, ih later]

/-- A message has taken the bytes of its frame from the buffer. -/
theorem volume_of_nextMessage {buffer rest : Bytes} {items : List PeerMessage}
    (short : buffer.length < 2 ^ 32) (taken : nextMessage buffer = some (items, rest)) :
    volume items + rest.length ≤ buffer.length := by
  obtain ⟨result, parsed, complete, rfl, rfl⟩ := nextMessage_eq_some.mp taken
  have within := (parsePeerMessage_append parsed complete []).2
  rw [List.length_drop]
  by_cases few : buffer.length < 4
  · simp only [parsePeerMessage, if_pos few, pure, Except.pure] at parsed
    cases parsed
    cases complete
  · obtain ⟨b0, b1, b2, b3, tail, rfl⟩ := exists_prefix buffer (Nat.not_lt.mp few)
    simp only [List.length_cons] at short within ⊢
    rw [parsePeerMessage_prefixed] at parsed
    generalize readU32 b0 b1 b2 b3 = length at parsed
    by_cases alive : length = 0
    · rw [if_pos alive] at parsed
      cases parsed
      simp only [if_true, volume_nil] at within ⊢
      omega
    · rw [if_neg alive] at parsed
      by_cases waits : tail.length + 4 < (4 + length) % 2 ^ 32
      · rw [if_pos waits] at parsed
        cases parsed
        cases complete
      · rw [if_neg waits] at parsed
        cases tail with
        | nil => cases parsed
        | cons id body =>
          dsimp only at parsed
          by_cases inside : length ≤ (id :: body).length
          · rw [if_pos inside] at parsed
            cases parsed
            rw [List.length_cons] at inside short within waits ⊢
            -- The buffer is too short for a length that wraps.
            have unwrapped : (4 + length) % 2 ^ 32 = 4 + length := Nat.mod_eq_of_lt (by omega)
            simp only [Bool.false_eq_true, if_false, volume_cons, volume_nil, PeerMessage.frameSize,
              List.length_take, unwrapped]
            omega
          · rw [if_neg inside] at parsed
            cases parsed

theorem volume_of_emptied {buffer left : Bytes} {items : List PeerMessage}
    (emptied : Emptied nextMessage buffer items left) :
    buffer.length < 2 ^ 32 → volume items + left.length ≤ buffer.length := by
  induction emptied with
  | done => exact fun _ => (Nat.zero_add _).le
  | more taken _ ih =>
    intro short
    have first := volume_of_nextMessage short taken
    have later := ih (by omega)
    rw [volume_append]
    omega

/-! ## The session -/

namespace Session

variable {ι : Type} [DecidableEq ι]

/-- What is queued for a connection, and what has come from it. -/
def volumeTo (session : Session ι) (i : ι) : Nat := volume (session.wire.filterMap (outbound i))

def volumeFrom (session : Session ι) (i : ι) : Nat := volume (session.wire.filterMap (inbound i))

section
variable (session : Session ι) (i j : ι) (msg : PeerMessage)

theorem volumeTo_queueMessage : (session.queueMessage i msg).volumeTo j ≤
    session.volumeTo j + if i = j then msg.frameSize else 0 := by
  unfold volumeTo
  rw [wire_queueMessage]
  split
  · rw [filterMap_outbound_queued]
    split
    · rw [volume_cons, Nat.add_comm]
    · exact Nat.le_refl _
  · exact Nat.le_add_right ..

@[simp] theorem volumeFrom_queueMessage : (session.queueMessage i msg).volumeFrom j = session.volumeFrom j := by
  unfold volumeFrom
  rw [wire_queueMessage]
  split
  · rw [filterMap_inbound_queued]
  · rfl

theorem volumeFrom_record : (session.record i msg).volumeFrom j =
    session.volumeFrom j + if i = j then msg.frameSize else 0 := by
  unfold volumeFrom record
  rw [filterMap_inbound_received]
  split
  · rw [volume_cons, Nat.add_comm]
  · rfl

theorem volumeTo_record : (session.record i msg).volumeTo j = session.volumeTo j := by
  unfold volumeTo record
  rw [filterMap_outbound_received]

end

/-- Seventeen bytes a round. -/
theorem volumeTo_requestBlocks (order : IterationOrder) (i j : ι) (left : Nat) :
    ∀ session : Session ι, (requestBlocks order i left session).volumeTo j ≤
      session.volumeTo j + if i = j then 17 * left else 0 := by
  induction left with
  | zero => exact fun session => Nat.le_add_right ..
  | succ left ih =>
    intro session
    rw [requestBlocks]
    generalize PieceManager.createNextRequest order session.pieces (session.peer i) = created
    obtain ⟨pieces, request⟩ := created
    cases request with
    | none => exact Nat.le_add_right ..
    | some request =>
      have first : ({ session with pieces }.queueMessage i request.message).volumeTo j ≤
        session.volumeTo j + if i = j then 17 else 0 := volumeTo_queueMessage { session with pieces } i j _
      refine (ih _).trans ?_
      split at first
      · rename_i here
        simp only [if_pos here] at first ⊢
        omega
      · rename_i there
        simp only [if_neg there] at first ⊢
        omega

theorem volumeTo_requestNextBlocks (order : IterationOrder) (session : Session ι) (i j : ι) :
    (requestNextBlocks order session i).volumeTo j ≤ session.volumeTo j + if i = j then 85 else 0 := by
  unfold requestNextBlocks
  split
  · exact Nat.le_add_right ..
  · exact volumeTo_requestBlocks order i j 5 session

theorem volumeFrom_requestNextBlocks (order : IterationOrder) (session : Session ι) (i j : ι) :
    (requestNextBlocks order session i).volumeFrom j = session.volumeFrom j := by
  apply requestNextBlocks_induct fun next => next.volumeFrom j = session.volumeFrom j
  · intro current pieces request same _
    cases request with
    | none => exact same
    | some request => exact (volumeFrom_queueMessage { current with pieces } i j _).trans same
  · rfl

/-- No message is answered with more than five requests, and none to others. -/
theorem volumeTo_of_handles {setup : Setup} {order : IterationOrder} {results : List SliceResult}
    {session next : Session ι} {i : ι} {msg : PeerMessage}
    (handles : Handles setup order results session i msg next) (j : ι) :
    next.volumeFrom j = session.volumeFrom j ∧ next.volumeTo j ≤ session.volumeTo j + if i = j then 85 else 0 := by
  cases handles with
  | noted => exact ⟨rfl, Nat.le_add_right ..⟩
  | @greeted peer =>
    refine ⟨volumeFrom_queueMessage (session.setPeer i peer) i j interested, ?_⟩
    refine (volumeTo_queueMessage (session.setPeer i peer) i j interested).trans ?_
    refine Nat.add_le_add_left ?_ _
    split
    · exact frameSize_interested.trans_le (by decide)
    · exact Nat.le_refl 0
  | unchoked =>
    exact ⟨volumeFrom_requestNextBlocks order (session.setPeer i _) i j,
      volumeTo_requestNextBlocks order (session.setPeer i _) i j⟩
  | @delivered pieceIndex blockOffset data pieces =>
    exact ⟨volumeFrom_requestNextBlocks order { session with disk := _, pieces } i j,
      volumeTo_requestNextBlocks order { session with disk := _, pieces } i j⟩

theorem volumeTo_of_step {setup : Setup} {session next : Session ι} {event : Event ι} {i : ι}
    (before : session.volumeTo i ≤ 17 * session.volumeFrom i) (taken : step setup session event = some next) :
    next.volumeTo i ≤ 17 * next.volumeFrom i := by
  cases steps_of_step taken with
  | handshake => exact before
  | @disconnect j =>
    unfold volumeTo volumeFrom at before ⊢
    rwa [filterMap_outbound_closed, filterMap_inbound_closed]
  | @message j msg order results next connected handles =>
    obtain ⟨told, said⟩ := volumeTo_of_handles handles i
    rw [volumeTo_record] at said
    rw [told, volumeFrom_record]
    -- Five requests are seventeen times the least frame.
    have least : 5 ≤ msg.frameSize := Nat.le_add_right ..
    split at said
    · rename_i here
      rw [if_pos here]
      omega
    · rename_i there
      rw [if_neg there]
      omega

theorem Runs.volumeTo_le {setup : Setup} {start final : Session ι}
    {history : List (Transition (Session ι) (Event ι))} (runs : Runs setup start history final)
    (i : ι) : final.volumeTo i ≤ 17 * final.volumeFrom i := by
  refine runs.2.invariant (fun session => session.volumeTo i ≤ 17 * session.volumeFrom i) ?_
    fun _ _ _ before taken => volumeTo_of_step before taken
  rw [volumeTo, runs.1.silent]
  exact Nat.zero_le _

end Session

/-! ## The sockets -/

namespace Client

variable {ι : Type} [DecidableEq ι] {setup : Setup} {start final : Client ι}
  {history : List (Transition (Client ι) (Event ι))}

theorem Runs.volume_delivered (runs : Runs setup start history final) {i : ι}
    (short : (final.arrived i).length < 2 ^ 32) :
    volume (final.net.endpoints i).connection.delivered ≤
      (final.arrived i).length - Handshake.handshakeSize := by
  obtain ⟨pipeRead, listening⟩ := runs.listening
  cases listening.heard i with
  | waiting _ _ _ delivered =>
    rw [delivered]
    exact Nat.zero_le _
  | refused _ _ _ delivered =>
    rw [delivered]
    exact Nat.zero_le _
  | greeted _ _ emptied =>
    rw [← List.length_drop]
    refine Nat.le_trans (Nat.le_add_right ..) (volume_of_emptied emptied ?_)
    rw [List.length_drop]
    omega

theorem Runs.volume_queued (runs : Runs setup start history final) (i : ι) :
    volume (final.net.endpoints i).queued ≤
      17 * volume (final.net.endpoints i).connection.delivered := by
  obtain ⟨session, ⟨messages, run⟩, follows⟩ := runs.advances
  have bound := Session.Runs.volumeTo_le ⟨runs.1.waiting.initial, run⟩ i
  rwa [follows.shows_.queued, follows.shows_.delivered, volume_reverse, volume_reverse]

/-- What has been sent to a peer and what waits to be sent is at most the handshake and seventeen
times what the peer has sent behind its own. -/
theorem length_sent_le (runs : Runs setup start history final) (i : ι)
    (short : (final.arrived i).length < 2 ^ 32) :
    ((final.net.endpoints i).sent ++ (final.net.endpoints i).writeBuffer).length ≤
      Handshake.handshakeSize + 17 * ((final.arrived i).length - Handshake.handshakeSize) := by
  have heard := runs.volume_delivered short
  have queued := runs.volume_queued i
  rcases runs.speaking.said i with ⟨bufs, serialized, bytes⟩ | ⟨sent, writeBuffer, -⟩
  · have greeting : (final.net.endpoints i).handshake.serialize.length = Handshake.handshakeSize :=
      Handshake.length_serialize _
    rw [bytes, List.length_append, greeting, length_flatten_serialized serialized]
    omega
  · rw [sent, writeBuffer]
    exact Nat.zero_le _

/-- The peer has the piece of one byte and unchokes: two frames of six and five bytes, and the
answers are `interested` and a request. -/
theorem length_sent_le_dialled : ∃ history final, Runs Session.oneByte dialled history final ∧
    (final.arrived ()).length = 79 ∧
    ((final.net.endpoints ()).sent ++ (final.net.endpoints ()).writeBuffer).length = 90 ∧
    ((final.net.endpoints ()).sent ++ (final.net.endpoints ()).writeBuffer).length ≤
      Handshake.handshakeSize + 17 * ((final.arrived ()).length - Handshake.handshakeSize) := by
  obtain ⟨history, final, runs, arrived, sent⟩ : ∃ history final,
      Runs Session.oneByte dialled history final ∧ (final.arrived ()).length = 79 ∧
        ((final.net.endpoints ()).sent ++ (final.net.endpoints ()).writeBuffer).length = 90 :=
    ⟨_, _, @runs_of_replay
      [hears itsHandshake, hears [0, 0, 0, 2, 5, 0x80, 0, 0, 0, 1, 1]] _ _ rfl, rfl, rfl⟩
  exact ⟨history, final, runs, arrived, sent, length_sent_le runs () (by rw [arrived]; decide)⟩

end Client

end K0Torrent
