import K0Torrent.Library.Frames
import K0Torrent.Peer.Framing
import K0Torrent.Peer.PeerConnection

/-! Delivery of messages over a stream that arrives in pieces.

However a peer's bytes are cut, the messages handed over after some of them are
those whose frames have arrived as a whole.
-/

set_option autoImplicit false

namespace K0Torrent

/-- What a peer sends after its handshake. -/
inductive Frame where
  | keepAlive
  | message (msg : PeerMessage) (short : msg.payload.length < 2 ^ 32 - 5)

namespace Frame

def serialize : Frame → Except OutOfBounds Bytes
  | keepAlive => .ok PeerMessage.keepAlive
  | message msg _ => msg.serialize

def bytes (frame : Frame) : Bytes :=
  match frame.serialize with
  | .ok bytes => bytes
  | .error _ => []

def message? : Frame → Option PeerMessage
  | keepAlive => none
  | message msg _ => some msg

/-- Nothing that fits a frame fails to be written. -/
theorem serialize_eq (frame : Frame) : frame.serialize = .ok frame.bytes := by
  cases frame with
  | keepAlive => rfl
  | message msg short => simp only [bytes, serialize, msg.serialize_eq short]

theorem bytes_message (msg : PeerMessage) (short : msg.payload.length < 2 ^ 32 - 5) :
    (message msg short).bytes = writeU32 (1 + msg.payload.length) ++ msg.id.toByte :: msg.payload := by
  simp only [bytes, serialize, msg.serialize_eq short]

theorem length_pos (frame : Frame) : 0 < frame.bytes.length := by
  cases frame with
  | keepAlive => exact Nat.succ_pos _
  | message msg short =>
    rw [bytes_message, List.length_append, length_writeU32]
    exact Nat.lt_of_lt_of_le (Nat.succ_pos 3) (Nat.le_add_right ..)

end Frame

def messages (frames : List Frame) : List PeerMessage := frames.filterMap Frame.message?

/-! ## One call of the parser -/

theorem exists_writeU32 {v : Nat} (fits : v < 2 ^ 32) :
    ∃ b0 b1 b2 b3, writeU32 v = [b0, b1, b2, b3] ∧ readU32 b0 b1 b2 b3 = v := by
  refine ⟨_, _, _, _, rfl, ?_⟩
  rw [readU32_eq_value]
  exact value_writeU32 fits

/-- A whole frame is recognised, whatever follows it. -/
theorem parse_frame (frame : Frame) (rest : Bytes) :
    ∃ result, parsePeerMessage (frame.bytes ++ rest) = .ok result ∧ result.complete = true ∧
      result.consumedBytes = frame.bytes.length ∧
      (if result.isKeepAlive then [] else [result.message]) = messages [frame] := by
  cases frame with
  | keepAlive => exact ⟨_, parsePeerMessage_prefixed 0 0 0 0 rest, rfl, rfl, rfl⟩
  | message msg short =>
    obtain ⟨b0, b1, b2, b3, digits, value⟩ := exists_writeU32
      (show 1 + msg.payload.length < 2 ^ 32 by omega)
    have alive : ¬ 1 + msg.payload.length = 0 := by omega
    have size : (4 + (1 + msg.payload.length)) % 2 ^ 32 = 4 + (1 + msg.payload.length) :=
      Nat.mod_eq_of_lt (by omega)
    have parsed := parsePeerMessage_prefixed b0 b1 b2 b3 (msg.id.toByte :: (msg.payload ++ rest))
    simp only [value, if_neg alive, size, List.length_cons, List.length_append] at parsed
    rw [if_neg (by omega), if_pos (by omega), Nat.add_sub_cancel_left, List.take_left,
      MessageId.ofByte_toByte] at parsed
    rw [Frame.bytes_message, digits]
    refine ⟨_, parsed, rfl, ?_, rfl⟩
    simp only [List.length_append, List.length_cons, List.length_nil]
    omega

/-- Less than a frame is not recognised. -/
theorem parse_partial {frame : Frame} {buffer : Bytes} (inside : buffer <+: frame.bytes)
    (short : buffer.length < frame.bytes.length) : parsePeerMessage buffer = .ok {} := by
  by_cases few : buffer.length < 4
  · simp [parsePeerMessage, few, pure, Except.pure]
  · cases frame with
    | keepAlive => exact absurd short few
    | message msg fits =>
      obtain ⟨b0, b1, b2, b3, digits, value⟩ :=
        exists_writeU32 (show 1 + msg.payload.length < 2 ^ 32 by omega)
      rw [Frame.bytes_message, digits] at inside short
      -- The buffer has the length bytes of the frame.
      obtain ⟨rest, rfl⟩ := List.prefix_of_prefix_length_le (List.prefix_append _ _) inside
        (Nat.not_lt.mp few)
      have alive : ¬ 1 + msg.payload.length = 0 := by omega
      have size : (4 + (1 + msg.payload.length)) % 2 ^ 32 = 4 + (1 + msg.payload.length) :=
        Nat.mod_eq_of_lt (by omega)
      have parsed := parsePeerMessage_prefixed b0 b1 b2 b3 rest
      simp only [List.length_append, List.length_cons, List.length_nil] at short
      simp only [value, if_neg alive, size] at parsed
      rwa [if_pos (by omega)] at parsed

/-! ## The loop over the read buffer -/

namespace PeerConnection

open Frames

/-- The connection after the frames have been handed over. -/
def handed (connection : PeerConnection) (done : List Frame) (buffer : Bytes) : PeerConnection :=
  { connection with delivered := connection.delivered ++ messages done, readBuffer := buffer }

theorem handed_handed (connection : PeerConnection) (first second : List Frame)
    (buffer buffer' : Bytes) :
    (connection.handed first buffer).handed second buffer' =
      connection.handed (first ++ second) buffer' := by
  simp only [handed, messages, List.filterMap_append, List.append_assoc]

theorem handleMessages_frame {connection : PeerConnection} {frame : Frame} {later : Bytes}
    (starts : connection.readBuffer = frame.bytes ++ later) (rounds : Nat) :
    connection.handleMessages (rounds + 1) =
      (connection.handed [frame] later).handleMessages rounds := by
  obtain ⟨result, parsed, complete, consumed, message⟩ := parse_frame frame later
  have delivered : (if result.isKeepAlive = true then connection.delivered
      else connection.delivered ++ [result.message]) =
        connection.delivered ++ messages [frame] := by
    rw [← message]
    split
    · exact (List.append_nil _).symm
    · rfl
  rw [handleMessages]
  simp only [starts, parsed, complete, if_true, consumed, List.drop_left, delivered, handed]

theorem handleMessages_begun {connection : PeerConnection} {frames : List Frame}
    (arrived : connection.readBuffer <+: bytes Frame.bytes frames)
    (partial_ : Partial Frame.bytes connection.readBuffer frames) (rounds : Nat) :
    connection.handleMessages (rounds + 1) = .value connection := by
  have parsed : parsePeerMessage connection.readBuffer = .ok {} := by
    cases frames with
    | nil => exact congrArg parsePeerMessage partial_
    | cons frame frames => exact parse_partial (Frames.inside arrived partial_) partial_
  rw [handleMessages, parsed]
  rfl

/-- The loop hands over the frames that are there and stops inside the next one. -/
theorem handleMessages_eq (frames : List Frame) : ∀ {rounds : Nat} {connection : PeerConnection},
    connection.readBuffer <+: bytes Frame.bytes frames → connection.readBuffer.length < rounds →
    ∃ done later buffer, frames = done ++ later ∧
      connection.readBuffer = bytes Frame.bytes done ++ buffer ∧
      Partial Frame.bytes buffer later ∧
      connection.handleMessages rounds = .value (connection.handed done buffer) := by
  -- Nothing is handed over when the buffer stops inside the first frame.
  have stops {frames : List Frame} {rounds : Nat} {connection : PeerConnection}
      (arrived : connection.readBuffer <+: bytes Frame.bytes frames)
      (enough : connection.readBuffer.length < rounds)
      (partial_ : Partial Frame.bytes connection.readBuffer frames) :
      connection.handleMessages rounds =
        .value (connection.handed [] connection.readBuffer) := by
    obtain ⟨rounds, rfl⟩ : ∃ n, rounds = n + 1 := ⟨rounds - 1, by omega⟩
    rw [handleMessages_begun arrived partial_, handed, messages, List.filterMap_nil,
      List.append_nil]
  induction frames with
  | nil =>
    intro rounds connection arrived enough
    have partial_ : Partial Frame.bytes connection.readBuffer [] := List.prefix_nil.mp arrived
    exact ⟨[], [], _, rfl, rfl, partial_, stops arrived enough partial_⟩
  | cons frame frames ih =>
    intro rounds connection arrived enough
    by_cases partial_ : connection.readBuffer.length < frame.bytes.length
    · exact ⟨[], frame :: frames, _, rfl, rfl, partial_, stops arrived enough partial_⟩
    · obtain ⟨behind, starts, further⟩ := starts_with arrived (Nat.not_lt.mp partial_)
      have positive := frame.length_pos
      obtain ⟨rounds, rfl⟩ : ∃ n, rounds = n + 1 := ⟨rounds - 1, by omega⟩
      have shorter : behind.length < rounds := by
        rw [starts, List.length_append] at enough
        omega
      obtain ⟨done, later, buffer, split, cut, stuck, handled⟩ :=
        @ih rounds (connection.handed [frame] behind) further shorter
      refine ⟨frame :: done, later, buffer, by rw [split]; rfl, ?_, stuck, ?_⟩
      · rw [starts, bytes_cons, List.append_assoc]
        exact congrArg _ cut
      · rw [handleMessages_frame starts, handled, handed_handed]
        rfl

/-! ## Reads -/

/-- What holds of a connection that the first bytes of a stream have reached. -/
inductive Received (handshake : Handshake) (frames : List Frame) (arrived : Bytes) :
    PeerConnection → Prop where
  | waiting (short : arrived.length < Handshake.handshakeSize) :
      Received handshake frames arrived
        { started handshake.infoHash with readBuffer := arrived }
  | connected {done later : List Frame} {buffer : Bytes} (split : frames = done ++ later)
      (cut : arrived = handshake.serialize ++ (bytes Frame.bytes done ++ buffer))
      (partial_ : Partial Frame.bytes buffer later) :
      Received handshake frames arrived
        { state := .connected, infoHash := handshake.infoHash, readBuffer := buffer,
          peerId := some handshake.peerId, delivered := messages done }

theorem processHandshake_serialize {handshake : Handshake} {behind : Bytes} :
    processHandshake { started handshake.infoHash with
        readBuffer := handshake.serialize ++ behind } =
      .ok ({ started handshake.infoHash with
        peerId := some handshake.peerId, state := .connected, readBuffer := behind }, true) := by
  have length := handshake.length_serialize
  have enough : ¬ (handshake.serialize ++ behind).length < Handshake.handshakeSize := by
    rw [List.length_append]
    omega
  unfold processHandshake
  rw [if_neg enough]
  simp only [← length, List.take_left, List.drop_left, Handshake.deserialize_serialize, bind,
    Except.bind, started, ne_eq, not_true_eq_false, if_false]
  rfl

section
variable {handshake : Handshake} {frames : List Frame} {arrived chunk : Bytes}
  {connection : PeerConnection}

/-- Each read takes the connection to what holds of the longer part of the stream. -/
theorem Received.read (received : Received handshake frames arrived connection)
    (prefix_ : arrived ++ chunk <+: handshake.serialize ++ bytes Frame.bytes frames) :
    ∃ next, connection.handleRead chunk = .value next ∧
      Received handshake frames (arrived ++ chunk) next := by
  by_cases none_ : chunk = []
  · subst none_
    refine ⟨connection, by rw [handleRead, if_pos rfl], ?_⟩
    rwa [List.append_nil]
  cases received with
  | waiting short =>
    by_cases still : (arrived ++ chunk).length < Handshake.handshakeSize
    · refine ⟨_, ?_, .waiting still⟩
      simp only [handleRead, if_neg none_, started, if_true, processHandshake, if_pos still]
    · -- The handshake is complete; messages may stand behind it already.
      obtain ⟨behind, whole⟩ := List.prefix_of_prefix_length_le (List.prefix_append _ _) prefix_
        (by rw [Handshake.length_serialize]; exact Nat.not_lt.mp still)
      rw [← whole] at prefix_ ⊢
      obtain ⟨done, later, buffer, split, cut, stuck, handled⟩ := @handleMessages_eq frames
        (behind.length + 1)
        { started handshake.infoHash with
          peerId := some handshake.peerId, state := .connected, readBuffer := behind }
        ((List.prefix_append_right_inj _).mp prefix_) (Nat.lt_succ_self _)
      have processed := @processHandshake_serialize handshake behind
      rw [whole] at processed
      refine ⟨_, ?_, .connected split (congrArg _ cut) stuck⟩
      simp only [handleRead, if_neg none_, started, if_true] at processed handled ⊢
      rw [processed]
      exact handled
  | @connected done later buffer split cut partial_ =>
    subst split cut
    have further : buffer ++ chunk <+: bytes Frame.bytes later := by
      rw [bytes_append, List.append_assoc, List.append_assoc, List.prefix_append_right_inj,
        List.prefix_append_right_inj] at prefix_
      exact prefix_
    obtain ⟨more, later', buffer', split, cut, stuck, handled⟩ := @handleMessages_eq later
      ((buffer ++ chunk).length + 1)
      { state := .connected, infoHash := handshake.infoHash, readBuffer := buffer ++ chunk,
        peerId := some handshake.peerId, delivered := messages done }
      further (Nat.lt_succ_self _)
    subst split
    refine ⟨_, ?_, .connected (List.append_assoc ..).symm ?_ stuck⟩
    · simp only [handleRead, if_neg none_, reduceCtorEq, if_false, if_true, handled, handed]
      rw [messages, messages, ← List.filterMap_append]
      rfl
    · simp only [bytes_append, List.append_assoc]
      exact congrArg (fun rest => _ ++ (_ ++ rest)) cut

theorem Received.receive {chunks : List Bytes} : ∀ {arrived : Bytes} {connection : PeerConnection},
    Received handshake frames arrived connection →
    arrived ++ chunks.flatten <+: handshake.serialize ++ bytes Frame.bytes frames →
    ∃ final, receive chunks connection = .value final ∧
      Received handshake frames (arrived ++ chunks.flatten) final := by
  induction chunks with
  | nil =>
    intro arrived connection received _
    refine ⟨connection, rfl, ?_⟩
    rwa [List.flatten_nil, List.append_nil]
  | cons chunk chunks ih =>
    intro arrived connection received prefix_
    rw [List.flatten_cons, ← List.append_assoc] at prefix_ ⊢
    obtain ⟨next, read, received⟩ :=
      received.read ((List.prefix_append _ _).trans prefix_)
    obtain ⟨final, rest, received⟩ := ih received prefix_
    refine ⟨final, ?_, received⟩
    rw [PeerConnection.receive, read]
    exact rest

end

/-- Whatever the cuts, the messages handed over are those of the frames that have
arrived as a whole; and at the end of the stream nothing is left over. -/
theorem delivery_of_prefix (handshake : Handshake) (frames : List Frame) (chunks : List Bytes)
    (arrived : chunks.flatten <+: handshake.serialize ++ bytes Frame.bytes frames) :
    ∃ final, receive chunks (started handshake.infoHash) = .value final ∧
      final.delivered = messages (contained Frame.bytes frames
        (chunks.flatten.length - Handshake.handshakeSize)) ∧
      (final.state = .connected ↔ Handshake.handshakeSize ≤ chunks.flatten.length) ∧
      (chunks.flatten = handshake.serialize ++ bytes Frame.bytes frames →
        final.state = .connected ∧ final.delivered = messages frames ∧
          final.readBuffer = []) := by
  have size := handshake.length_serialize
  have initial : Received handshake frames [] (started handshake.infoHash) :=
    .waiting (show 0 < 68 by decide)
  obtain ⟨final, read, received⟩ := initial.receive arrived
  rw [List.nil_append] at received
  refine ⟨final, read, ?_⟩
  cases received with
  | waiting short =>
    have nothing : Partial Frame.bytes [] frames := by
      cases frames with
      | nil => rfl
      | cons frame frames => exact frame.length_pos
    refine ⟨?_, ⟨nofun, fun enough => absurd short (Nat.not_lt.mpr enough)⟩, fun whole => ?_⟩
    · rw [Nat.sub_eq_zero_of_le (Nat.le_of_lt short)]
      exact (congrArg messages (contained_of_begun nothing [])).symm
    · rw [whole, List.length_append] at short
      omega
  | @connected done later buffer split cut partial_ =>
    subst split
    rw [cut]
    refine ⟨?_, ⟨fun _ => ?_, fun _ => rfl⟩, fun whole => ?_⟩
    · rw [List.length_append, List.length_append, size, Nat.add_sub_cancel_left,
        contained_of_begun partial_]
    · rw [List.length_append]
      omega
    · rw [bytes_append, List.append_cancel_left_eq, List.append_cancel_left_eq] at whole
      rw [whole] at partial_ ⊢
      obtain rfl := none_left partial_
      exact ⟨rfl, by rw [List.append_nil], rfl⟩

/-- A handshake, a `Have` and a keep-alive, cut inside the handshake. -/
theorem delivery_of_cut_handshake :
    let handshake : Handshake :=
      ⟨Vector.replicate 8 0, Vector.replicate 20 1, Vector.replicate 20 2⟩
    let frames : List Frame := [.message ⟨.havePiece, [0, 0, 0, 5]⟩ (by decide), .keepAlive]
    let stream := handshake.serialize ++ bytes Frame.bytes frames
    ∃ final, receive [stream.take 30, stream.drop 30] (started handshake.infoHash) = .value final ∧
      final.state = .connected ∧ final.delivered = [⟨.havePiece, [0, 0, 0, 5]⟩] ∧
      final.readBuffer = [] := by
  intro handshake frames stream
  have whole : [stream.take 30, stream.drop 30].flatten = stream := by
    rw [List.flatten_cons, List.flatten_singleton, List.take_append_drop]
  obtain ⟨final, read, -, -, complete⟩ := delivery_of_prefix handshake frames
    [stream.take 30, stream.drop 30] (whole ▸ List.prefix_refl _)
  exact ⟨final, read, complete whole⟩

end PeerConnection

end K0Torrent
