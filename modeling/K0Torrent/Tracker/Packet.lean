import K0Torrent.Library.Fields
import K0Torrent.Tracker.UdpTracker

/-! The announce packet in its buffer, and read by the layout in `udp_tracker.hpp`. -/

set_option autoImplicit false

namespace K0Torrent

/-! ## Words -/

theorem writeU16_eq_encode (v : Nat) : writeU16 v = BigEndian.encode 2 v := by
  simp only [writeU16, ofNat_masked, BigEndian.encode, Nat.shiftRight_eq_div_pow, List.nil_append,
    List.cons_append, Nat.reducePow]

theorem writeU64_eq_encode (v : Nat) : writeU64 v = BigEndian.encode 8 v := by
  have halves := BigEndian.encode_add 4 4 v
  have upper := BigEndian.encode_mod 4 (v / 256 ^ 4)
  have lower := BigEndian.encode_mod 4 v
  rw [writeU64, writeU32_eq_encode, writeU32_eq_encode, halves, ← upper, ← lower,
    Nat.shiftRight_eq_div_pow]
  rfl

@[simp] theorem length_writeU16 (v : Nat) : (writeU16 v).length = 2 := rfl

@[simp] theorem length_writeU64 (v : Nat) : (writeU64 v).length = 8 := rfl

@[simp] theorem length_writeI64 (v : Int) : (writeI64 v).length = 8 := rfl

theorem value_writeU16 {v : Nat} (word : v < 2 ^ 16) : BigEndian.value (writeU16 v) = v := by
  rw [writeU16_eq_encode]
  exact BigEndian.value_encode 2 v word

theorem value_writeU64 {v : Nat} (word : v < 2 ^ 64) : BigEndian.value (writeU64 v) = v := by
  rw [writeU64_eq_encode]
  exact BigEndian.value_encode 8 v word

theorem signed_writeU32 {z : Int} (range : -2 ^ 31 ≤ z ∧ z < 2 ^ 31) :
    BigEndian.signed (writeU32 (castU32 z)) = z := by
  have word := @BigEndian.signed_encode 4 z (by omega) (by omega)
  rw [writeU32_eq_encode]
  exact word

theorem signed_writeI64 {z : Int} (range : -2 ^ 63 ≤ z ∧ z < 2 ^ 63) :
    BigEndian.signed (writeI64 z) = z := by
  have word := @BigEndian.signed_encode 8 z (by omega) (by omega)
  rw [writeI64, writeU64_eq_encode]
  exact word

theorem readU64At_append_writeU64 (front rest : Bytes) {v : Nat} (word : v < 2 ^ 64) :
    readU64At (front ++ (writeU64 v ++ rest)) front.length = v := by
  have upper := readU32At_append_writeU32 front (writeU32 (v % 2 ^ 32) ++ rest)
    ((v >>> 32) % 2 ^ 32) (Nat.mod_lt _ (by decide))
  have lower := readU32At_append_writeU32 (front ++ writeU32 ((v >>> 32) % 2 ^ 32)) rest
    (v % 2 ^ 32) (Nat.mod_lt _ (by decide))
  rw [List.length_append, length_writeU32, List.append_assoc] at lower
  rw [readU64At, writeU64, List.append_assoc, upper, lower,
    ← Nat.shiftLeft_add_eq_or_of_lt (Nat.mod_lt _ (by decide)), Nat.shiftLeft_eq,
    Nat.shiftRight_eq_div_pow]
  omega

namespace UdpTracker

/-! ## The buffer -/

/-- The writes of `do_announce` with their offsets, in their order. -/
def announceWrites (key : UInt32) (connectionId : Nat) (txnId : UInt32) (req : TrackerRequest) :
    List (Nat × Bytes) :=
  [(0, writeU64 connectionId), (8, writeU32 1), (12, writeU32 txnId.toNat),
    (16, req.infoHash.toList), (36, req.peerId.toList),
    (56, writeI64 req.downloaded), (64, writeI64 req.left), (72, writeI64 req.uploaded),
    (80, writeU32 (castU32 req.event.toInt)), (84, writeU32 0), (88, writeU32 key.toNat),
    (92, writeU32 (castU32 req.numWant)), (96, writeU16 req.port)]

/-- The buffer, which is set to zero before. -/
def announceBuffer (key : UInt32) (connectionId : Nat) (txnId : UInt32) (req : TrackerRequest) :
    Bytes :=
  (announceWrites key connectionId txnId req).foldl Fields.store (List.replicate 98 0)

/-! ## The layout -/

/-- What the packet says. -/
structure AnnounceFields where
  connectionId : Nat
  action : Nat
  transactionId : Nat
  infoHash : Bytes
  peerId : Bytes
  downloaded : Int
  left : Int
  uploaded : Int
  event : Nat
  ip : Nat
  key : Nat
  numWant : Int
  port : Nat

/-- The widths of the fields. -/
def announceLayout : List Nat := [8, 4, 4, 20, 20, 8, 8, 8, 4, 4, 4, 4, 2]

def readFields (packet : Bytes) : Option AnnounceFields :=
  match Fields.cut announceLayout packet with
  | [connectionId, action, transactionId, infoHash, peerId, downloaded, left, uploaded, event, ip,
      key, numWant, port] =>
    some {
      connectionId := BigEndian.value connectionId
      action := BigEndian.value action
      transactionId := BigEndian.value transactionId
      infoHash
      peerId
      downloaded := BigEndian.signed downloaded
      left := BigEndian.signed left
      uploaded := BigEndian.signed uploaded
      event := BigEndian.value event
      ip := BigEndian.value ip
      key := BigEndian.value key
      numWant := BigEndian.signed numWant
      port := BigEndian.value port }
  | _ => none

/-- The fields of a request are values of their types. -/
structure Typed (req : TrackerRequest) : Prop where
  port : req.port < 2 ^ 16
  uploaded : -2 ^ 63 ≤ req.uploaded ∧ req.uploaded < 2 ^ 63
  downloaded : -2 ^ 63 ≤ req.downloaded ∧ req.downloaded < 2 ^ 63
  left : -2 ^ 63 ≤ req.left ∧ req.left < 2 ^ 63
  numWant : -2 ^ 31 ≤ req.numWant ∧ req.numWant < 2 ^ 31

section
variable (key : UInt32) (connectionId : Nat) (txnId : UInt32) (req : TrackerRequest)

theorem announceBuffer_eq :
    announceBuffer key connectionId txnId req =
      ((announceWrites key connectionId txnId req).map Prod.snd).flatten := by
  have adjacent : Fields.Adjacent 0 (announceWrites key connectionId txnId req) := by
    simp [announceWrites, Fields.Adjacent]
  have stored := @Fields.foldl_store _ (announceWrites key connectionId txnId req) []
    (List.replicate 98 0) adjacent
  have length : ((announceWrites key connectionId txnId req).map Prod.snd).flatten.length = 98 := by
    simp [announceWrites]
  rw [length, List.nil_append] at stored
  exact stored.trans (List.append_nil _)

/-- The packet is what the buffer holds. -/
theorem announceRequest_eq :
    announceRequest key connectionId txnId req = announceBuffer key connectionId txnId req := by
  rw [announceBuffer_eq]
  simp [announceRequest, announceWrites]

theorem widths_announceWrites :
    ((announceWrites key connectionId txnId req).map Prod.snd).map List.length = announceLayout := by
  simp [announceWrites, announceLayout]

theorem cut_announceBuffer :
    Fields.cut announceLayout (announceBuffer key connectionId txnId req) =
      (announceWrites key connectionId txnId req).map Prod.snd := by
  rw [announceBuffer_eq, ← widths_announceWrites key connectionId txnId req, Fields.cut_flatten]

/-- The fields of the layout are as wide as it says, and together they are the packet. -/
theorem fields_cover :
    (Fields.cut announceLayout (announceBuffer key connectionId txnId req)).map List.length =
        announceLayout ∧
      (Fields.cut announceLayout (announceBuffer key connectionId txnId req)).flatten =
        announceBuffer key connectionId txnId req ∧
      (announceBuffer key connectionId txnId req).length = 98 := by
  have length : (announceBuffer key connectionId txnId req).length = 98 := by
    rw [announceBuffer_eq]
    simp [announceWrites]
  refine ⟨?_, Fields.flatten_cut length, length⟩
  rw [cut_announceBuffer, widths_announceWrites]

/-- What the packet should say. -/
def announceFields : AnnounceFields where
  connectionId
  action := 1
  transactionId := txnId.toNat
  infoHash := req.infoHash.toList
  peerId := req.peerId.toList
  downloaded := req.downloaded
  left := req.left
  uploaded := req.uploaded
  event := req.event.toInt.toNat
  ip := 0
  key := key.toNat
  numWant := req.numWant
  port := req.port

variable {connectionId req}

theorem readFields_announceBuffer (word : connectionId < 2 ^ 64) (typed : Typed req) :
    readFields (announceBuffer key connectionId txnId req) =
      some (announceFields key connectionId txnId req) := by
  have event : BigEndian.value (writeU32 (castU32 req.event.toInt)) = req.event.toInt.toNat := by
    cases req.event <;> rfl
  simp [readFields, cut_announceBuffer, announceWrites, announceFields, value_writeU64 word,
    value_writeU32, value_writeU16 typed.port, key.toNat_lt, txnId.toNat_lt, event,
    signed_writeI64 typed.downloaded, signed_writeI64 typed.left,
    signed_writeI64 typed.uploaded, signed_writeU32 typed.numWant]

/-- The packet is read as the request it was made from, and each of its bytes once; the words of
the other exchange are read as they are written. -/
theorem announce_read (word : connectionId < 2 ^ 64) (typed : Typed req) :
    announceRequest key connectionId txnId req = announceBuffer key connectionId txnId req ∧
      readFields (announceBuffer key connectionId txnId req) =
        some (announceFields key connectionId txnId req) ∧
      ((Fields.cut announceLayout (announceBuffer key connectionId txnId req)).map List.length =
          announceLayout ∧
        (Fields.cut announceLayout (announceBuffer key connectionId txnId req)).flatten =
          announceBuffer key connectionId txnId req ∧
        (announceBuffer key connectionId txnId req).length = 98) ∧
      (∀ (front rest : Bytes) (v : Nat), v < 2 ^ 32 →
        readU32At (front ++ (writeU32 v ++ rest)) front.length = v) ∧
      ∀ (front rest : Bytes) (v : Nat), v < 2 ^ 64 →
        readU64At (front ++ (writeU64 v ++ rest)) front.length = v :=
  ⟨announceRequest_eq key connectionId txnId req, readFields_announceBuffer key txnId word typed,
    fields_cover key connectionId txnId req, readU32At_append_writeU32,
    fun front rest _ => readU64At_append_writeU64 front rest⟩

end

/-- A request whose counters are all negative. -/
def negativeRequest : TrackerRequest where
  infoHash := .replicate 20 1
  peerId := .replicate 20 2
  port := 65535
  uploaded := -1
  downloaded := -2 ^ 63
  left := -2
  event := .stopped
  numWant := -1

theorem announce_read_negative :
    readFields (announceBuffer 7 (2 ^ 64 - 1) 8 negativeRequest) =
      some (announceFields 7 (2 ^ 64 - 1) 8 negativeRequest) :=
  (announce_read 7 8 (by decide)
    ⟨by decide, by decide, by decide, by decide, by decide⟩).2.1

end UdpTracker

end K0Torrent
