import K0Torrent.Peer.Message

/-! What the frame parser guarantees, and for which length prefixes.

The size test adds four to a peer-chosen 32-bit length in 32 bits. Below the
four largest lengths the parser is exact; at those four it never is.
-/

set_option autoImplicit false

namespace K0Torrent

/-- The length prefix as a natural number. -/
def frameLength (buffer : Bytes) : Nat := BigEndian.value (buffer.take 4)

/-- Everything asked of one call of the parser: it stays inside the buffer,
recognises exactly the complete frames, consumes exactly one and loses nothing. -/
def ExactFraming (buffer : Bytes) : Prop :=
  ∃ result, parsePeerMessage buffer = .ok result ∧
    (result.complete = true ↔ 4 ≤ buffer.length ∧ 4 + frameLength buffer ≤ buffer.length) ∧
    (result.isKeepAlive = true ↔ 4 ≤ buffer.length ∧ frameLength buffer = 0) ∧
    (result.complete = true →
      result.consumedBytes = 4 + frameLength buffer ∧
      4 ≤ result.consumedBytes ∧ result.consumedBytes ≤ buffer.length ∧
      (frameLength buffer ≠ 0 →
        result.message.serialize = .ok (buffer.take result.consumedBytes)))

theorem exists_prefix (buffer : Bytes) (enough : 4 ≤ buffer.length) :
    ∃ b0 b1 b2 b3 rest, buffer = b0 :: b1 :: b2 :: b3 :: rest := by
  match buffer, enough with
  | b0 :: b1 :: b2 :: b3 :: rest, _ => exact ⟨b0, b1, b2, b3, rest, rfl⟩

section
variable (b0 b1 b2 b3 : UInt8) (rest : Bytes)

@[simp] theorem frameLength_cons :
    frameLength (b0 :: b1 :: b2 :: b3 :: rest) = readU32 b0 b1 b2 b3 := by
  rw [readU32_eq_value]
  rfl

/-- The parser once the four length bytes are there. -/
theorem parsePeerMessage_prefixed :
    parsePeerMessage (b0 :: b1 :: b2 :: b3 :: rest) =
      if readU32 b0 b1 b2 b3 = 0 then
        .ok { complete := true, consumedBytes := 4, isKeepAlive := true }
      else if rest.length + 4 < (4 + readU32 b0 b1 b2 b3) % 2 ^ 32 then .ok {}
      else match rest with
        | [] => .error ⟨4⟩
        | id :: body =>
          if readU32 b0 b1 b2 b3 ≤ rest.length then
            .ok { complete := true, consumedBytes := (4 + readU32 b0 b1 b2 b3) % 2 ^ 32,
                  message := ⟨MessageId.ofByte id, body.take (readU32 b0 b1 b2 b3 - 1)⟩ }
          else .error ⟨rest.length + 4⟩ := by
  have enough : ¬ ((b0 :: b1 :: b2 :: b3 :: rest).length < 4) := by simp
  unfold parsePeerMessage
  rw [if_neg enough]
  simp only [readByte, List.getElem?_cons_zero, List.getElem?_cons_succ, bind, Except.bind, pure,
    Except.pure, List.length_cons]
  generalize readU32 b0 b1 b2 b3 = length
  by_cases alive : length = 0
  · rw [if_pos alive, if_pos alive]
  rw [if_neg alive, if_neg alive]
  by_cases short : rest.length + 4 < (4 + length) % 2 ^ 32
  · rw [if_pos short, if_pos short]
  rw [if_neg short, if_neg short]
  cases rest with
  | nil => rfl
  | cons id body =>
    simp only [List.getElem?_cons_zero, List.length_cons]
    by_cases empty : 1 < length
    · obtain ⟨n, rfl⟩ : ∃ n, length = n + 2 := ⟨length - 2, by omega⟩
      have last : max 5 (body.length + 1 + 4) = body.length + 1 + 4 := by omega
      have range : 4 + (n + 2) = n + 6 := by omega
      by_cases inside : n + 2 ≤ body.length + 1
      · have fits : n + 6 ≤ body.length + 1 + 1 + 1 + 1 + 1 := by omega
        simp [readRange, range, inside, fits]
      · have beyond : ¬ (n + 6 ≤ body.length + 1 + 1 + 1 + 1 + 1) := by omega
        simp only [readRange, range, List.length_cons, if_neg beyond, if_neg inside, if_pos empty, last]
    · obtain rfl : length = 1 := by omega
      simp

end

theorem exactFraming_of_short (buffer : Bytes) (short : buffer.length < 4) :
    ExactFraming buffer := by
  refine ⟨{}, ?_, ?_, ?_, ?_⟩
  · simp [parsePeerMessage, short, pure, Except.pure]
  · constructor
    · intro complete
      cases complete
    · rintro ⟨enough, _⟩
      omega
  · constructor
    · intro alive
      cases alive
    · rintro ⟨enough, _⟩
      omega
  · intro complete
    cases complete

theorem exactFraming_of_unwrapped (buffer : Bytes) (enough : 4 ≤ buffer.length)
    (unwrapped : frameLength buffer < 2 ^ 32 - 4) : ExactFraming buffer := by
  obtain ⟨b0, b1, b2, b3, rest, rfl⟩ := exists_prefix buffer enough
  rw [frameLength_cons] at unwrapped
  have size : (4 + readU32 b0 b1 b2 b3) % 2 ^ 32 = 4 + readU32 b0 b1 b2 b3 :=
    Nat.mod_eq_of_lt (by omega)
  unfold ExactFraming
  rw [parsePeerMessage_prefixed, frameLength_cons, size]
  simp only [List.length_cons]
  by_cases alive : readU32 b0 b1 b2 b3 = 0
  · rw [if_pos alive]
    exact ⟨_, rfl, by simp [alive], by simp [alive], by simp [alive]⟩
  · rw [if_neg alive]
    by_cases short : rest.length + 4 < 4 + readU32 b0 b1 b2 b3
    · rw [if_pos short]
      refine ⟨_, rfl, ?_, by simp [alive], by simp⟩
      constructor
      · intro complete
        cases complete
      · omega
    · rw [if_neg short]
      cases rest with
      | nil => simp only [List.length_nil] at short; omega
      | cons id body =>
        have inside : readU32 b0 b1 b2 b3 ≤ (id :: body).length := by omega
        simp only [List.length_cons] at short inside
        simp only [List.length_cons, if_pos inside]
        refine ⟨_, rfl, ?_, by simp [alive], fun _ => ⟨rfl, Nat.le_add_right .., ?_, fun _ => ?_⟩⟩
        · simp only [true_iff]
          omega
        · change 4 + readU32 b0 b1 b2 b3 ≤ body.length + 5
          omega
        · -- The payload is one byte shorter than the frame, so the writer restores the prefix.
          have payload : (body.take (readU32 b0 b1 b2 b3 - 1)).length = readU32 b0 b1 b2 b3 - 1 := by
            rw [List.length_take]
            omega
          have restored : 1 + (readU32 b0 b1 b2 b3 - 1) = readU32 b0 b1 b2 b3 := by omega
          have bytes : 4 + readU32 b0 b1 b2 b3 = readU32 b0 b1 b2 b3 - 1 + 5 := by omega
          rw [PeerMessage.serialize_eq _ (by rw [payload]; omega), payload, restored,
            writeU32_readU32, MessageId.toByte_ofByte, bytes]
          rfl

theorem not_exactFraming_of_wrapped (buffer : Bytes) (enough : 4 ≤ buffer.length)
    (wrapped : 2 ^ 32 - 4 ≤ frameLength buffer) : ¬ ExactFraming buffer := by
  obtain ⟨b0, b1, b2, b3, rest, rfl⟩ := exists_prefix buffer enough
  rw [frameLength_cons] at wrapped
  have bound := readU32_lt b0 b1 b2 b3
  have size : (4 + readU32 b0 b1 b2 b3) % 2 ^ 32 = readU32 b0 b1 b2 b3 - (2 ^ 32 - 4) := by
    omega
  have nonzero : readU32 b0 b1 b2 b3 ≠ 0 := by omega
  have passes : ¬ (rest.length + 4 < readU32 b0 b1 b2 b3 - (2 ^ 32 - 4)) := by omega
  rintro ⟨result, parsed, _, _, consumed⟩
  rw [parsePeerMessage_prefixed, if_neg nonzero, size, if_neg passes] at parsed
  -- Either a read falls outside the buffer or the consumed size has wrapped below four.
  cases rest with
  | nil => cases parsed
  | cons id body =>
    simp only at parsed
    split at parsed
    · cases parsed
      have exact := (consumed rfl).1
      simp only [frameLength_cons] at exact
      omega
    · cases parsed

/-- The parser is exact precisely when `4 + N` does not leave 32 bits. -/
theorem exactFraming_iff (buffer : Bytes) :
    ExactFraming buffer ↔ buffer.length < 4 ∨ frameLength buffer < 2 ^ 32 - 4 := by
  constructor
  · intro exact
    by_contra wrapped
    rw [not_or, not_lt, not_lt] at wrapped
    exact not_exactFraming_of_wrapped buffer wrapped.1 wrapped.2 exact
  · rintro (short | unwrapped)
    · exact exactFraming_of_short buffer short
    · by_cases short : buffer.length < 4
      · exact exactFraming_of_short buffer short
      · exact exactFraming_of_unwrapped buffer (not_lt.mp short) unwrapped

/-- Four bytes from a peer make the parser read past the end of its buffer. -/
theorem largest_lengths_overread :
    parsePeerMessage [0xFF, 0xFF, 0xFF, 0xFC] = .error ⟨4⟩ ∧
      ¬ ExactFraming [0xFF, 0xFF, 0xFF, 0xFC] :=
  ⟨by decide, not_exactFraming_of_wrapped _ (by decide) (by decide)⟩

end K0Torrent
