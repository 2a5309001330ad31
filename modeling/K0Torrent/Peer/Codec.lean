import K0Torrent.Library.Fields
import K0Torrent.Peer.PeerConnection

/-! The handshake as sixty-eight bytes, and what a connection takes for one.

The writer fills a buffer that holds anything at first, at offsets that it adds up; the reader
adds up its own.
-/

set_option autoImplicit false

namespace K0Torrent

namespace Handshake

/-! ## Writing -/

/-- The stores of `serialize`, each with its offset. -/
def writes (handshake : Handshake) : List (Nat × Bytes) :=
  let len := protocolLen.toNat
  [(0, [protocolLen]), (1, protocolString), (1 + len, handshake.reserved.toList),
    (1 + len + 8, handshake.infoHash.toList), (1 + len + 8 + 20, handshake.peerId.toList)]

/-- `serialize`, in a buffer that is not initialised. -/
def serializeOver (handshake : Handshake) (buf : Vector UInt8 handshakeSize) : Bytes :=
  handshake.writes.foldl Fields.store buf.toList

/-- No byte of the buffer is left over. -/
theorem serializeOver_eq (handshake : Handshake) (buf : Vector UInt8 handshakeSize) :
    handshake.serializeOver buf = handshake.serialize := by
  have adjacent : Fields.Adjacent 0 handshake.writes := by
    simp [Fields.Adjacent, writes, protocolLen, protocolString, ascii]
  have written : (handshake.writes.map Prod.snd).flatten = handshake.serialize := by
    simp [writes, serialize]
  have stored := @Fields.foldl_store _ handshake.writes [] buf.toList adjacent
  rw [written, length_serialize, List.drop_of_length_le (by simp)] at stored
  simpa [serializeOver] using stored

/-! ## Reading -/

/-- What `deserialize` asks of a buffer. -/
def Valid (buffer : Bytes) : Prop :=
  buffer[0]? = some protocolLen ∧ (buffer.drop 1).take 19 = protocolString

instance (buffer : Bytes) : Decidable (Valid buffer) := inferInstanceAs (Decidable (_ ∧ _))

theorem toList_copied {size : Nat} {buffer : Bytes} {offset : Nat}
    (inside : offset + size ≤ buffer.length) :
    (copied size buffer offset).toList = (buffer.drop offset).take size := by
  apply List.ext_getElem
  · simp
    omega
  · intro k first second
    have bound : offset + k < buffer.length := by
      rw [Vector.length_toList] at first
      omega
    simp [copied, List.getD_eq_getElem?_getD, bound]

theorem deserialize_of_valid {buffer : Bytes} (valid : Valid buffer) :
    deserialize buffer = .ok ⟨copied 8 buffer 20, copied 20 buffer 28, copied 20 buffer 48⟩ := by
  obtain ⟨len, string⟩ := valid
  have head : buffer.head? = some protocolLen := by rw [List.head?_eq_getElem?, len]
  have size : protocolString.length = 19 := rfl
  unfold deserialize
  rw [if_neg (not_not.mpr head), size, if_neg (not_not.mpr string)]

theorem valid_of_deserialize {buffer : Bytes} {handshake : Handshake}
    (read : deserialize buffer = .ok handshake) : Valid buffer := by
  unfold deserialize at read
  split at read
  · cases read
  · rename_i len
    split at read
    · cases read
    · rename_i string
      exact ⟨List.head?_eq_getElem?.symm.trans (not_not.mp len), not_not.mp string⟩

theorem deserialize_ok_iff {buffer : Bytes} :
    (∃ handshake, deserialize buffer = .ok handshake) ↔ Valid buffer :=
  ⟨fun ⟨_, read⟩ => valid_of_deserialize read, fun valid => ⟨_, deserialize_of_valid valid⟩⟩

/-- What has been read can be written again. -/
theorem serialize_of_deserialize {buffer : Bytes} {handshake : Handshake}
    (whole : buffer.length = handshakeSize) (read : deserialize buffer = .ok handshake) :
    handshake.serialize = buffer := by
  have valid := valid_of_deserialize read
  cases (deserialize_of_valid valid).symm.trans read
  have length : buffer.length = [1, 19, 8, 20, 20].sum := whole
  have first : buffer.take 1 = [protocolLen] := by
    cases buffer with
    | nil => cases whole
    | cons byte rest =>
      cases valid.1
      rfl
  have pieces := Fields.flatten_cut length
  simp only [Fields.cut, List.flatten_cons, List.flatten_nil, List.append_nil, first, valid.2,
    List.drop_drop, Nat.reduceAdd] at pieces
  have size : buffer.length = 68 := whole
  -- The reader's offsets are those of the pieces.
  simp only [serialize, toList_copied (show 20 + 8 ≤ buffer.length by omega),
    toList_copied (show 28 + 20 ≤ buffer.length by omega),
    toList_copied (show 48 + 20 ≤ buffer.length by omega)]
  exact pieces

end Handshake

/-! ## The handshake of a connection -/

/-- The bytes begin with a handshake for the torrent. -/
def Greets (infoHash : Digest) (bytes : Bytes) : Prop :=
  Handshake.handshakeSize ≤ bytes.length ∧ Handshake.Valid (bytes.take Handshake.handshakeSize) ∧
    (bytes.drop 28).take 20 = infoHash.toList

instance (infoHash : Digest) (bytes : Bytes) : Decidable (Greets infoHash bytes) :=
  inferInstanceAs (Decidable (_ ∧ _ ∧ _))

/-- Bytes that come later do not matter. -/
theorem greets_append {infoHash : Digest} {bytes : Bytes}
    (long : Handshake.handshakeSize ≤ bytes.length) (later : Bytes) :
    Greets infoHash (bytes ++ later) ↔ Greets infoHash bytes := by
  have size : 68 ≤ bytes.length := long
  have front : (bytes ++ later).take Handshake.handshakeSize = bytes.take Handshake.handshakeSize :=
    List.take_append_of_le_length long
  have hash : ((bytes ++ later).drop 28).take 20 = (bytes.drop 28).take 20 := by
    rw [List.drop_append_of_le_length (by omega), List.take_append_of_le_length (by simp; omega)]
  have both : Handshake.handshakeSize ≤ (bytes ++ later).length := by
    rw [List.length_append]
    exact Nat.le_trans long (Nat.le_add_right ..)
  unfold Greets
  rw [front, hash, iff_true_intro both, iff_true_intro long]

namespace PeerConnection

variable {connection after : PeerConnection}

/-- The connection behind its handshake. -/
def shaken (connection : PeerConnection) : PeerConnection :=
  { connection with
    peerId := some (Handshake.copied 20 (connection.readBuffer.take Handshake.handshakeSize) 48)
    state := .connected
    readBuffer := connection.readBuffer.drop Handshake.handshakeSize }

theorem processHandshake_of_short (short : connection.readBuffer.length < Handshake.handshakeSize) :
    connection.processHandshake = .ok (connection, false) := by
  unfold processHandshake
  rw [if_pos short]

/-- The info hash that is read is the one in the bytes. -/
theorem infoHash_copied {bytes : Bytes} (long : Handshake.handshakeSize ≤ bytes.length) :
    (Handshake.copied 20 (bytes.take Handshake.handshakeSize) 28).toList = (bytes.drop 28).take 20 := by
  have size : 68 ≤ bytes.length := long
  have whole : 28 + 20 ≤ (bytes.take Handshake.handshakeSize).length := by
    rw [List.length_take_of_le long]
    decide
  rw [Handshake.toList_copied whole, List.drop_take, List.take_take]
  rfl

theorem processHandshake_of_greets (greets : Greets connection.infoHash connection.readBuffer) :
    connection.processHandshake = .ok (connection.shaken, true) := by
  obtain ⟨long, valid, own⟩ := greets
  have hash : Handshake.copied 20 (connection.readBuffer.take Handshake.handshakeSize) 28 =
      connection.infoHash := Vector.toList_inj.mp ((infoHash_copied long).trans own)
  unfold processHandshake
  rw [if_neg (Nat.not_lt.mpr long), Handshake.deserialize_of_valid valid]
  simp only [bind, Except.bind, hash, ne_eq, not_true_eq_false, if_false]
  rfl

theorem processHandshake_of_stranger (long : Handshake.handshakeSize ≤ connection.readBuffer.length)
    (stranger : ¬ Greets connection.infoHash connection.readBuffer) :
    ∃ error, connection.processHandshake = .error error := by
  unfold processHandshake
  rw [if_neg (Nat.not_lt.mpr long)]
  cases read : Handshake.deserialize (connection.readBuffer.take Handshake.handshakeSize) with
  | error error => exact ⟨error, rfl⟩
  | ok handshake =>
    have valid := Handshake.valid_of_deserialize read
    cases (Handshake.deserialize_of_valid valid).symm.trans read
    have other : Handshake.copied 20 (connection.readBuffer.take Handshake.handshakeSize) 28 ≠
        connection.infoHash := by
      intro same
      exact stranger ⟨long, valid, by rw [← same, infoHash_copied long]⟩
    simp only [bind, Except.bind]
    rw [if_pos other]
    exact ⟨_, rfl⟩

/-- Everything that `process_handshake` can do. -/
theorem processHandshake_cases (connection : PeerConnection) :
    Greets connection.infoHash connection.readBuffer ∧
        connection.processHandshake = .ok (connection.shaken, true) ∨
      ¬ Greets connection.infoHash connection.readBuffer ∧
        (connection.readBuffer.length < Handshake.handshakeSize ∧
            connection.processHandshake = .ok (connection, false) ∨
          Handshake.handshakeSize ≤ connection.readBuffer.length ∧
            ∃ error, connection.processHandshake = .error error) := by
  by_cases greets : Greets connection.infoHash connection.readBuffer
  · exact .inl ⟨greets, processHandshake_of_greets greets⟩
  · refine .inr ⟨greets, ?_⟩
    by_cases short : connection.readBuffer.length < Handshake.handshakeSize
    · exact .inl ⟨short, processHandshake_of_short short⟩
    · have long := Nat.not_lt.mp short
      exact .inr ⟨long, processHandshake_of_stranger long greets⟩

/-- From any other state, these are the bytes that connect it. -/
theorem connects_iff (other : connection.state ≠ .connected) :
    (∃ after ready, connection.processHandshake = .ok (after, ready) ∧ after.state = .connected) ↔
      Greets connection.infoHash connection.readBuffer := by
  constructor
  · rintro ⟨after, ready, processed, connected⟩
    rcases connection.processHandshake_cases with ⟨greets, -⟩ | ⟨-, ⟨-, waits⟩ | ⟨-, error, failed⟩⟩
    · exact greets
    · cases waits.symm.trans processed
      exact absurd connected other
    · cases failed.symm.trans processed
  · intro greets
    exact ⟨_, _, processHandshake_of_greets greets, rfl⟩

theorem readBuffer_of_connects (other : connection.state ≠ .connected) {ready : Bool}
    (processed : connection.processHandshake = .ok (after, ready))
    (connected : after.state = .connected) :
    connection.readBuffer.take Handshake.handshakeSize ++ after.readBuffer =
      connection.readBuffer := by
  have greets := (connects_iff other).mp ⟨after, ready, processed, connected⟩
  cases (processHandshake_of_greets greets).symm.trans processed
  exact List.take_append_drop ..

/-! ## Everything that is received -/

theorem state_handleMessages {rounds : Nat} : ∀ {connection : PeerConnection},
    connection.handleMessages rounds = .value after → after.state = connection.state := by
  induction rounds with
  | zero =>
    intro connection handled
    cases handled
  | succ rounds ih =>
    intro connection handled
    rw [handleMessages] at handled
    split at handled
    · cases handled
    · split at handled
      · have last := ih handled
        exact last
      · cases handled
        rfl

/-- Where a connection stands that has received these bytes. -/
inductive Stands (infoHash : Digest) (arrived : Bytes) : PeerConnection → Prop where
  | waiting (short : arrived.length < Handshake.handshakeSize) :
      Stands infoHash arrived { started infoHash with readBuffer := arrived }
  | connected {connection : PeerConnection} (greets : Greets infoHash arrived)
      (state : connection.state = .connected) : Stands infoHash arrived connection
  | refused {connection : PeerConnection} (long : Handshake.handshakeSize ≤ arrived.length)
      (stranger : ¬ Greets infoHash arrived) (state : connection.state = .disconnected) :
      Stands infoHash arrived connection

section
variable {infoHash : Digest} {arrived chunk : Bytes}

/-- A read that does not return has begun to hand over messages. -/
theorem Stands.read (stands : Stands infoHash arrived connection) :
    (∃ after, connection.handleRead chunk = .value after ∧ Stands infoHash (arrived ++ chunk) after) ∨
      (∀ after, connection.handleRead chunk ≠ .value after) ∧ Greets infoHash (arrived ++ chunk) := by
  -- In either state that hands over messages, the handshake has been there before.
  have handed {filled : PeerConnection} (greets : Greets infoHash (arrived ++ chunk))
      (state : filled.state = .connected) {rounds : Nat} :
      (∃ after, filled.handleMessages rounds = .value after ∧
        Stands infoHash (arrived ++ chunk) after) ∨
      (∀ after, filled.handleMessages rounds ≠ .value after) ∧ Greets infoHash (arrived ++ chunk) := by
    by_cases returns : ∃ after, filled.handleMessages rounds = .value after
    · obtain ⟨after, handled⟩ := returns
      exact .inl ⟨after, handled, .connected greets ((state_handleMessages handled).trans state)⟩
    · exact .inr ⟨not_exists.mp returns, greets⟩
  unfold handleRead
  by_cases none_ : chunk = []
  · rw [if_pos none_, none_, List.append_nil]
    exact .inl ⟨connection, rfl, stands⟩
  rw [if_neg none_]
  cases stands with
  | waiting short =>
    simp only [started, if_true]
    rcases processHandshake_cases { started infoHash with readBuffer := arrived ++ chunk } with
      ⟨greets, processed⟩ | ⟨stranger, ⟨still, waits⟩ | ⟨long, error, failed⟩⟩
    · simp only [started] at processed
      simp only [processed, shaken, if_true]
      exact handed greets rfl
    · simp only [started] at waits
      simp only [waits]
      exact .inl ⟨_, rfl, .waiting still⟩
    · simp only [started] at failed
      simp only [failed]
      exact .inl ⟨_, rfl, .refused long stranger rfl⟩
  | connected greets state =>
    have greets' := (greets_append greets.1 chunk).mpr greets
    simp only [state, reduceCtorEq, if_false, if_true]
    exact handed greets' rfl
  | refused long stranger state =>
    simp only [state, reduceCtorEq, if_false]
    refine .inl ⟨_, rfl, .refused ?_ ?_ rfl⟩
    · rw [List.length_append]
      exact Nat.le_trans long (Nat.le_add_right ..)
    · rwa [greets_append long]

theorem Stands.receive {chunks : List Bytes} : ∀ {arrived : Bytes} {connection : PeerConnection},
    Stands infoHash arrived connection →
    (∃ final, receive chunks connection = .value final ∧
        Stands infoHash (arrived ++ chunks.flatten) final) ∨
      (∀ final, receive chunks connection ≠ .value final) ∧
        Greets infoHash (arrived ++ chunks.flatten) := by
  induction chunks with
  | nil =>
    intro arrived connection stands
    rw [List.flatten_nil, List.append_nil]
    exact .inl ⟨connection, rfl, stands⟩
  | cons chunk chunks ih =>
    intro arrived connection stands
    rw [List.flatten_cons, ← List.append_assoc]
    rcases @Stands.read _ _ _ chunk stands with ⟨next, read, stands⟩ | ⟨never, greets⟩
    · rw [PeerConnection.receive, read]
      exact ih stands
    · refine .inr ⟨fun final received => ?_, (greets_append greets.1 _).mpr greets⟩
      rw [PeerConnection.receive] at received
      obtain ⟨next, read, -⟩ := Outcome.bind_eq_value.mp received
      exact never next read

theorem Stands.state_iff (stands : Stands infoHash arrived connection) :
    connection.state = .connected ↔ Greets infoHash arrived := by
  cases stands with
  | waiting short =>
    have alone : ¬ Greets infoHash arrived := fun greets => absurd greets.1 (Nat.not_le.mpr short)
    exact iff_of_false (fun same => by cases same) alone
  | connected greets state => exact iff_of_true state greets
  | refused long stranger state =>
    rw [state]
    exact iff_of_false (fun same => by cases same) stranger

theorem stands_started (infoHash : Digest) : Stands infoHash [] (started infoHash) :=
  .waiting (by decide)

/-- However the bytes are cut. -/
theorem state_receive {chunks : List Bytes} {final : PeerConnection}
    (received : receive chunks (started infoHash) = .value final) :
    final.state = .connected ↔ Greets infoHash chunks.flatten := by
  rcases @Stands.receive _ chunks _ _ (stands_started infoHash) with
    ⟨final', received', stands⟩ | ⟨never, -⟩
  · cases received.symm.trans received'
    exact stands.state_iff
  · exact absurd received (never final)

theorem greets_of_no_value {chunks : List Bytes}
    (never : ∀ final, receive chunks (started infoHash) ≠ .value final) :
    Greets infoHash chunks.flatten := by
  rcases @Stands.receive _ chunks _ _ (stands_started infoHash) with
    ⟨final, received, -⟩ | ⟨-, greets⟩
  · exact absurd received (never final)
  · exact greets

end

end PeerConnection

/-! ## The codec and the connection together -/

structure HandshakeLaws : Prop where
  decoded : ∀ (handshake : Handshake) (buf : Vector UInt8 Handshake.handshakeSize),
    Handshake.deserialize (handshake.serializeOver buf) = .ok handshake
  accepted : ∀ buffer : Vector UInt8 Handshake.handshakeSize,
    (∃ handshake, Handshake.deserialize buffer.toList = .ok handshake) ↔
      buffer.toList[0]? = some 19 ∧ (buffer.toList.drop 1).take 19 = ascii "BitTorrent protocol"
  encoded : ∀ (buffer buf : Vector UInt8 Handshake.handshakeSize) (handshake : Handshake),
    Handshake.deserialize buffer.toList = .ok handshake → handshake.serializeOver buf = buffer.toList
  connects : ∀ connection : PeerConnection, connection.state ≠ .connected →
    ((∃ after ready, connection.processHandshake = .ok (after, ready) ∧ after.state = .connected) ↔
      Greets connection.infoHash connection.readBuffer)
  removed : ∀ (connection after : PeerConnection) (ready : Bool), connection.state ≠ .connected →
    connection.processHandshake = .ok (after, ready) → after.state = .connected →
      connection.readBuffer.take Handshake.handshakeSize ++ after.readBuffer = connection.readBuffer
  received : ∀ (infoHash : Digest) (chunks : List Bytes) (final : PeerConnection),
    PeerConnection.receive chunks (.started infoHash) = .value final →
      (final.state = .connected ↔ Greets infoHash chunks.flatten)
  -- A read that does not return has begun to hand over messages.
  unreturned : ∀ (infoHash : Digest) (chunks : List Bytes),
    (∀ final, PeerConnection.receive chunks (.started infoHash) ≠ .value final) →
      Greets infoHash chunks.flatten

/-- Writer and reader of the handshake are inverse to each other on what is valid, and a
connection is there exactly if such a handshake for its torrent comes first. -/
theorem handshakeLaws : HandshakeLaws where
  decoded handshake buf := by
    rw [Handshake.serializeOver_eq, Handshake.deserialize_serialize]
  accepted buffer := Handshake.deserialize_ok_iff
  encoded buffer buf handshake read := by
    rw [Handshake.serializeOver_eq]
    exact Handshake.serialize_of_deserialize buffer.length_toList read
  connects connection other := PeerConnection.connects_iff other
  removed connection after ready other processed connected :=
    PeerConnection.readBuffer_of_connects other processed connected
  received infoHash chunks final received := PeerConnection.state_receive received
  unreturned infoHash chunks never := PeerConnection.greets_of_no_value never

end K0Torrent
