import K0Torrent.Library.BitArray
import K0Torrent.Session.Invariant

/-! Which pieces a peer is known to have.

All that is known comes from its own messages, the last `Bitfield` and what was announced
after it. None of them is compared with the torrent.
-/

set_option autoImplicit false

namespace K0Torrent

namespace Peer

theorem hasPiece_iff (peer : Peer) (pieceIndex : Nat) :
    peer.hasPiece pieceIndex = true ↔ BitArray.Marks peer.bitfield pieceIndex := by
  rw [BitArray.marks_iff, hasPiece]
  cases peer.bitfield[pieceIndex / 8]? with
  | none => simp
  | some byte =>
    have mask := BitArray.and_mask_ne_zero_iff byte.toNat (7 - pieceIndex % 8)
    simpa using mask

theorem bitfield_setPiece (peer : Peer) (pieceIndex : Nat) :
    (peer.setPiece pieceIndex).bitfield = BitArray.insert peer.bitfield pieceIndex := rfl

/-- One piece is added, and no other one. -/
theorem hasPiece_setPiece (peer : Peer) (added pieceIndex : Nat) :
    (peer.setPiece added).hasPiece pieceIndex = true ↔
      pieceIndex = added ∨ peer.hasPiece pieceIndex = true := by
  rw [hasPiece_iff, hasPiece_iff, bitfield_setPiece]
  exact BitArray.marks_insert ..

end Peer

namespace Session

variable {ι : Type} [DecidableEq ι]

/-! ## The messages of a connection -/

def messageFrom (connection : ι) : Event ι → Option PeerMessage
  | .message other msg _ _ => if other = connection then some msg else none
  | .handshake _ | .disconnect _ => none

/-- The messages from a connection that have been handled, the latest first. -/
def handled (connection : ι) (history : List (Machine.Transition (Session ι) (Event ι))) :
    List PeerMessage :=
  history.filterMap fun x => messageFrom connection x.event

section
variable {setup : Setup} {start final : Session ι} {connection : ι}
  {history : List (Machine.Transition (Session ι) (Event ι))}

/-- What only the messages of a connection change is made by them. -/
theorem observed_of_run {A : Type} (observe : Session ι → A) (after : PeerMessage → A → A)
    (own : ∀ {session next msg order results},
      step setup session (.message connection msg order results) = some next →
        observe next = after msg (observe session))
    (others : ∀ {session next event}, step setup session event = some next →
      messageFrom connection event = none → observe next = observe session)
    (run : Machine.Run (step setup) start history final) :
    observe final = (handled connection history).foldr after (observe start) := by
  induction run with
  | start => rfl
  | @next history session next event earlier taken ih =>
    cases from_ : messageFrom connection event with
    | none =>
      rw [others taken from_, ih]
      simp [handled, from_]
    | some msg =>
      cases event with
      | handshake other => cases from_
      | disconnect other => cases from_
      | message other received order results =>
        have same := from_
        simp only [messageFrom, Option.ite_none_right_eq_some, Option.some.injEq] at same
        obtain ⟨rfl, rfl⟩ := same
        rw [own taken, ih]
        simp [handled, from_]

end

/-! ## The bitfield -/

/-- What a message makes of the bitfield of its sender. -/
def noted (msg : PeerMessage) (bitfield : Bytes) : Bytes :=
  if msg.id = .bitfield then msg.payload
  else if msg.id = .havePiece ∧ msg.payload.length = 4 then
    BitArray.insert bitfield (readU32At msg.payload 0)
  else bitfield

theorem bitfield_of_handles {setup : Setup} {order : IterationOrder} {results : List SliceResult}
    {session next : Session ι} {connection : ι} {msg : PeerMessage}
    (handles : Handles setup order results (session.record connection msg) connection msg next) :
    (next.peer connection).bitfield = noted msg (session.peer connection).bitfield := by
  cases handles with
  | noted quiet notes =>
    rw [peer_setPeer, if_pos rfl, notes.bitfield]
    rfl
  | greeted quiet notes =>
    rw [peer_queueMessage, peer_setPeer, if_pos rfl, notes.bitfield]
    rfl
  | unchoked id =>
    rw [peer_requestNextBlocks, peer_setPeer, if_pos rfl]
    simp [peer, record, noted, id]
  | delivered delivers processes =>
    rw [peer_requestNextBlocks]
    simp [peer, record, noted, delivers.id]

/-- Another connection's message, and any other event, leaves the peer as it is. -/
theorem peer_of_steps {setup : Setup} {session next : Session ι} {event : Event ι} {connection : ι}
    (steps : Steps setup session event next) (other : messageFrom connection event = none) :
    next.peer connection = session.peer connection := by
  cases steps with
  | handshake => exact peer_setState ..
  | disconnect => exact peer_setState ..
  | message connected handles =>
    simp only [messageFrom, ite_eq_right_iff, reduceCtorEq] at other
    exact peer_of_handles handles other

theorem bitfield_of_run {setup : Setup} {start final : Session ι}
    {history : List (Machine.Transition (Session ι) (Event ι))}
    (run : Machine.Run (step setup) start history final) (connection : ι) :
    (final.peer connection).bitfield =
      (handled connection history).foldr noted (start.peer connection).bitfield := by
  apply observed_of_run (fun session => (session.peer connection).bitfield) noted _ _ run
  · intro session next msg order results taken
    cases steps_of_step taken with
    | message connected handles => exact bitfield_of_handles handles
  · intro session next event taken other
    rw [peer_of_steps (steps_of_step taken) other]

/-! ## The set of pieces -/

/-- A `Have` of four bytes. -/
def IsHave (msg : PeerMessage) : Prop := msg.id = .havePiece ∧ msg.payload.length = 4

instance (msg : PeerMessage) : Decidable (IsHave msg) := inferInstanceAs (Decidable (_ ∧ _))

/-- The last `Bitfield`, or what there was before. -/
def lastBitfield (first : Bytes) (msgs : List PeerMessage) : Bytes :=
  ((msgs.find? fun msg => msg.id = .bitfield).map PeerMessage.payload).getD first

/-- The pieces announced since then. -/
def haves (msgs : List PeerMessage) : List Nat :=
  ((msgs.takeWhile fun msg => msg.id ≠ .bitfield).filter fun msg => IsHave msg).map fun msg =>
    BigEndian.value msg.payload

theorem value_of_isHave {msg : PeerMessage} (have_ : IsHave msg) :
    readU32At msg.payload 0 = BigEndian.value msg.payload := by
  obtain ⟨id, payload⟩ := msg
  obtain ⟨-, length⟩ := have_
  match payload, length with
  | [a, b, c, d], _ => exact readU32_eq_value a b c d

theorem foldr_noted (first : Bytes) (msgs : List PeerMessage) :
    msgs.foldr noted first = BitArray.insertAll (lastBitfield first msgs) (haves msgs) := by
  induction msgs with
  | nil => rfl
  | cons msg msgs ih =>
    rw [List.foldr_cons, noted]
    by_cases bitfield : msg.id = .bitfield
    · simp [bitfield, haves, lastBitfield, BitArray.insertAll]
    · rw [if_neg bitfield]
      have last : lastBitfield first (msg :: msgs) = lastBitfield first msgs := by
        simp [lastBitfield, bitfield]
      rw [last]
      split
      · rename_i have_
        have later : haves (msg :: msgs) = BigEndian.value msg.payload :: haves msgs := by
          simp [haves, IsHave, have_]
        rw [later, BitArray.insertAll, List.foldr_cons, ih, value_of_isHave have_, BitArray.insertAll]
      · rename_i other
        have later : haves (msg :: msgs) = haves msgs := by
          simp [haves, bitfield, IsHave, other]
        rw [later, ih]

/-- The last `Bitfield` or a `Have` after it names the piece. -/
def Announced (first : Bytes) (msgs : List PeerMessage) (pieceIndex : Nat) : Prop :=
  BitArray.Marks (lastBitfield first msgs) pieceIndex ∨ pieceIndex ∈ haves msgs

section
variable {setup : Setup} {start final : Session ι}
  {history : List (Machine.Transition (Session ι) (Event ι))}
  (run : Machine.Run (step setup) start history final) (connection : ι)
include run

theorem bitfield_eq_insertAll :
    (final.peer connection).bitfield =
      BitArray.insertAll (lastBitfield (start.peer connection).bitfield (handled connection history))
        (haves (handled connection history)) :=
  (bitfield_of_run run connection).trans (foldr_noted ..)

theorem hasPiece_of_run (pieceIndex : Nat) :
    (final.peer connection).hasPiece pieceIndex = true ↔
      Announced (start.peer connection).bitfield (handled connection history) pieceIndex := by
  rw [Peer.hasPiece_iff, bitfield_eq_insertAll run]
  exact BitArray.marks_insertAll

/-- A peer is known to have what it has announced, and each announcement adds one piece. -/
theorem hasPiece_iff_announced :
    (∀ pieceIndex, (final.peer connection).hasPiece pieceIndex = true ↔
      Announced (start.peer connection).bitfield (handled connection history) pieceIndex) ∧
      ∀ (peer : Peer) (added pieceIndex : Nat), (peer.setPiece added).hasPiece pieceIndex = true ↔
        pieceIndex = added ∨ peer.hasPiece pieceIndex = true :=
  ⟨hasPiece_of_run run connection, Peer.hasPiece_setPiece⟩

end

theorem hasPiece_iff_announced_oneByte :
    ∃ history final, Runs oneByte (waiting oneByte) history final ∧
      handled true history = [⟨.havePiece, [0, 0, 0, 9]⟩, ⟨.bitfield, [128]⟩] ∧
      ∀ pieceIndex, (final.peer true).hasPiece pieceIndex = true ↔
        Announced [] [⟨.havePiece, [0, 0, 0, 9]⟩, ⟨.bitfield, [128]⟩] pieceIndex := by
  have runs := runs_of_replay oneByte
    [.handshake true, receive true ⟨.bitfield, [128]⟩, receive true ⟨.havePiece, [0, 0, 0, 9]⟩] rfl
  exact ⟨_, _, runs, rfl, (hasPiece_iff_announced runs.2 true).1⟩

/-! ## The torrent -/

/-- What is known of a peer is about pieces of the torrent only. -/
structure Within (count : Nat) (peer : Peer) : Prop where
  size : peer.bitfield.length ≤ (count + 7) / 8
  pieces : ∀ pieceIndex, count ≤ pieceIndex → peer.hasPiece pieceIndex = false

/-- The last `Bitfield` and what was announced after it are about the pieces of a torrent. -/
structure AboutPieces (count : Nat) (first : Bytes) (msgs : List PeerMessage) : Prop where
  size : (lastBitfield first msgs).length ≤ (count + 7) / 8
  marked : ∀ pieceIndex, BitArray.Marks (lastBitfield first msgs) pieceIndex → pieceIndex < count
  announced : ∀ pieceIndex ∈ haves msgs, pieceIndex < count

section
variable {setup : Setup} {start final : Session ι}
  {history : List (Machine.Transition (Session ι) (Event ι))}
  (run : Machine.Run (step setup) start history final) (connection : ι)
include run

/-- The bitfield is as long as the messages make it. -/
theorem within_iff_aboutPieces :
    (final.peer connection).bitfield.length =
        (haves (handled connection history)).foldr (fun i length => max length (i / 8 + 1))
          (lastBitfield (start.peer connection).bitfield (handled connection history)).length ∧
      (Within setup.torrent.pieces.length (final.peer connection) ↔
        AboutPieces setup.torrent.pieces.length (start.peer connection).bitfield
          (handled connection history)) := by
  have stored := bitfield_eq_insertAll run connection
  have known := hasPiece_of_run run connection
  constructor
  · rw [stored, BitArray.length_insertAll]
  constructor
  · intro within
    have inside {pieceIndex : Nat} (has : (final.peer connection).hasPiece pieceIndex = true) :
        pieceIndex < setup.torrent.pieces.length := by
      apply Nat.lt_of_not_le
      intro behind
      rw [within.pieces pieceIndex behind] at has
      cases has
    have short := within.size
    rw [stored, BitArray.length_insertAll_le_iff] at short
    exact ⟨short.1, fun pieceIndex marked => inside ((known pieceIndex).mpr (.inl marked)),
      fun pieceIndex announced => inside ((known pieceIndex).mpr (.inr announced))⟩
  · intro about
    constructor
    · rw [stored, BitArray.length_insertAll_le_iff]
      refine ⟨about.size, fun i announced => ?_⟩
      have bound := about.announced i announced
      omega
    · intro pieceIndex behind
      rw [← Bool.not_eq_true, known]
      rintro (marked | announced)
      · exact Nat.not_lt_of_le behind (about.marked pieceIndex marked)
      · exact Nat.not_lt_of_le behind (about.announced pieceIndex announced)

end

theorem within_iff_aboutPieces_oneByte :
    ∃ history final, Runs oneByte (waiting oneByte) history final ∧
      (final.peer true).bitfield.length = 1 ∧ Within oneByte.torrent.pieces.length (final.peer true) := by
  have runs := runs_of_replay oneByte
    [.handshake true, receive true ⟨.bitfield, []⟩, receive true ⟨.havePiece, [0, 0, 0, 0]⟩] rfl
  have exact_ := within_iff_aboutPieces runs.2 true
  refine ⟨_, _, runs, exact_.1.trans rfl, exact_.2.mpr ⟨by decide, fun _ marked => ?_, by decide⟩⟩
  exact absurd marked.lt (Nat.not_lt_zero _)

/-- One message of nine bytes makes a bitfield of half a gigabyte, for a torrent of one piece. -/
theorem have_grows :
    ∃ history final, Runs oneByte (waiting oneByte) history final ∧
      handled true history = [⟨.havePiece, [255, 255, 255, 255]⟩] ∧
      oneByte.torrent.pieces.length = 1 ∧ (final.peer true).bitfield.length = 2 ^ 29 ∧
      (final.peer true).hasPiece (2 ^ 32 - 1) = true := by
  have runs := runs_of_replay oneByte
    [.handshake true, receive true ⟨.havePiece, [255, 255, 255, 255]⟩] rfl
  have stored := bitfield_eq_insertAll runs.2 true
  have has := hasPiece_of_run runs.2 true (2 ^ 32 - 1)
  refine ⟨_, _, runs, rfl, rfl, ?_, has.mpr (.inr ?_)⟩
  · rw [stored, BitArray.length_insertAll]
    rfl
  · decide

end Session

end K0Torrent
