import K0Torrent.Library.Chunks
import K0Torrent.Tracker.HttpTracker

/-! Peers in a reply: six bytes each in both protocols, or dictionaries.

An address is the same number whichever way it came, its bytes being those of the network, in
their order, in the memory of the machine.
-/

set_option autoImplicit false

namespace K0Torrent

open UdpTracker

/-- A peer at `a.b.c.d:port`. -/
structure IPv4Peer where
  a : UInt8
  b : UInt8
  c : UInt8
  d : UInt8
  port : UInt16

namespace IPv4Peer

def address (peer : IPv4Peer) : PeerAddress :=
  ⟨readIp [peer.a, peer.b, peer.c, peer.d] 0, peer.port.toNat⟩

def packed (peer : IPv4Peer) : Bytes :=
  [peer.a, peer.b, peer.c, peer.d] ++ BigEndian.encode 2 peer.port.toNat

def entry (peer : IPv4Peer) : BencodeValue :=
  .dict [(ascii "ip", .string (InetAddress.dottedQuad peer.a peer.b peer.c peer.d)),
    (ascii "port", .int peer.port.toNat)]

@[simp] theorem length_packed (peer : IPv4Peer) : peer.packed.length = 6 := rfl

end IPv4Peer

/-- An address and a port, as both protocols pack them. -/
def addressAt (bytes : Bytes) (offset : Nat) : PeerAddress :=
  ⟨readIp bytes offset, readPort bytes (offset + 4)⟩

theorem getD_append_add (front back : Bytes) (k : Nat) :
    (front ++ back).getD (front.length + k) 0 = back.getD k 0 := by
  rw [List.getD_eq_getElem?_getD, List.getD_eq_getElem?_getD,
    List.getElem?_append_right (Nat.le_add_right ..), Nat.add_sub_cancel_left]

theorem readIp_append (front back : Bytes) : readIp (front ++ back) front.length = readIp back 0 := by
  have first := getD_append_add front back 0
  simp only [Nat.add_zero] at first
  simp only [readIp, first, getD_append_add, Nat.zero_add]

theorem readPort_append (front back : Bytes) (k : Nat) :
    readPort (front ++ back) (front.length + k) = readPort back k := by
  simp only [readPort, Nat.add_assoc, getD_append_add]

/-- What is packed is read, wherever it stands. -/
theorem addressAt_packed (front : Bytes) (peer : IPv4Peer) (rest : Bytes) :
    addressAt (front ++ (peer.packed ++ rest)) front.length = peer.address := by
  have bound := peer.port.toNat_lt
  have port : 2 ^ 8 * (UInt8.ofNat (peer.port.toNat / 256)).toNat +
      (UInt8.ofNat peer.port.toNat).toNat = peer.port.toNat := by
    simp only [UInt8.toNat_ofNat']
    omega
  rw [addressAt, readIp_append, readPort_append]
  simpa [IPv4Peer.address, IPv4Peer.packed, BigEndian.encode, readIp, readPort] using port

theorem map_addressAt (front : Bytes) (peers : List IPv4Peer) :
    (List.range peers.length).map
      (fun k => addressAt (front ++ peers.flatMap IPv4Peer.packed) (front.length + k * 6)) =
        peers.map IPv4Peer.address :=
  Chunks.map_read_flatMap IPv4Peer.length_packed addressAt_packed peers front

theorem length_flatMap_packed (peers : List IPv4Peer) :
    (peers.flatMap IPv4Peer.packed).length = peers.length * 6 := by
  induction peers with
  | nil => rfl
  | cons peer peers ih => simp [ih, Nat.succ_mul, Nat.add_comm]

theorem parseCompactPeers_packed (peers : List IPv4Peer) :
    parseCompactPeers (peers.flatMap IPv4Peer.packed) = .value (peers.map IPv4Peer.address) := by
  have found := map_addressAt [] peers
  have count := length_flatMap_packed peers
  simp only [List.nil_append, List.length_nil, Nat.zero_add] at found
  simp only [parseCompactPeers, count, Nat.mul_mod_left, Nat.mul_div_cancel _ (show 0 < 6 by decide)]
  rw [← found]
  rfl

/-- The buffer for the reply holds two hundred of them. -/
theorem peers_readResponse {header : Bytes} (whole : header.length = 20) {peers : List IPv4Peer}
    (few : peers.length ≤ 200) :
    (readResponse ((header ++ peers.flatMap IPv4Peer.packed).take maxResp)).peers =
      peers.map IPv4Peer.address := by
  have found := map_addressAt header peers
  have count := length_flatMap_packed peers
  have fits : (header ++ peers.flatMap IPv4Peer.packed).take maxResp =
      header ++ peers.flatMap IPv4Peer.packed := by
    apply List.take_of_length_le
    rw [List.length_append, whole, count, maxResp]
    omega
  have number : ((header ++ peers.flatMap IPv4Peer.packed).length - 20) / 6 = peers.length := by
    rw [List.length_append, whole, count]
    omega
  rw [whole] at found
  rw [fits, readResponse, number, ← found]
  rfl

theorem readDictPeer_entry (peer : IPv4Peer) : readDictPeer peer.entry = .value peer.address := by
  have octets := InetAddress.ofText_dottedQuad peer.a peer.b peer.c peer.d
  have port : narrowU16 peer.port.toNat = peer.port.toNat := by
    have bound := peer.port.toNat_lt
    unfold narrowU16
    omega
  have apart : (ascii "port" == ascii "ip") = false := by decide
  simp [readDictPeer, IPv4Peer.entry, BencodeValue.asDict, BencodeValue.asString,
    BencodeValue.asInt, dictAt, List.lookup_cons, apart, inetAton, octets, port, IPv4Peer.address]

theorem parseDictPeers_entries (peers : List IPv4Peer) :
    parseDictPeers (.list (peers.map IPv4Peer.entry)) = .value (peers.map IPv4Peer.address) := by
  have each : mapAll readDictPeer (peers.map IPv4Peer.entry) =
      .value (peers.map fun peer => some peer.address) := by
    induction peers with
    | nil => rfl
    | cons peer peers ih => simp [mapAll, readDictPeer_entry, ih]
  simp only [parseDictPeers, BencodeValue.asList, Outcome.value_bind, each]
  simp [List.filterMap_map]

/-- The three loops find the same peers. -/
theorem decoders_agree (peers : List IPv4Peer) (few : peers.length ≤ 200) (header : Bytes)
    (whole : header.length = 20) :
    parseCompactPeers (peers.flatMap IPv4Peer.packed) = .value (peers.map IPv4Peer.address) ∧
      parseDictPeers (.list (peers.map IPv4Peer.entry)) = .value (peers.map IPv4Peer.address) ∧
      (readResponse ((header ++ peers.flatMap IPv4Peer.packed).take maxResp)).peers =
        peers.map IPv4Peer.address ∧
      ∀ raw : Bytes, raw.length % 6 ≠ 0 → parseCompactPeers raw = .thrown .compactLength :=
  ⟨parseCompactPeers_packed peers, parseDictPeers_entries peers, peers_readResponse whole few,
    fun _ rest => if_pos rest⟩

theorem decoders_agree_two :
    parseCompactPeers [192, 168, 0, 1, 0x1A, 0xE1, 10, 0, 0, 2, 0, 80] =
        .value [⟨0x0100A8C0, 6881⟩, ⟨0x0200000A, 80⟩] ∧
      parseDictPeers (.list [(⟨192, 168, 0, 1, 6881⟩ : IPv4Peer).entry, (⟨10, 0, 0, 2, 80⟩ : IPv4Peer).entry]) =
        .value [⟨0x0100A8C0, 6881⟩, ⟨0x0200000A, 80⟩] ∧
      (readResponse ((List.replicate 20 (0 : UInt8) ++
          [192, 168, 0, 1, 0x1A, 0xE1, 10, 0, 0, 2, 0, 80]).take maxResp)).peers =
        [⟨0x0100A8C0, 6881⟩, ⟨0x0200000A, 80⟩] ∧
      parseCompactPeers [192, 168, 0, 1, 0x1A] = .thrown .compactLength := by
  have agree := decoders_agree [⟨192, 168, 0, 1, 6881⟩, ⟨10, 0, 0, 2, 80⟩] (by decide)
    (List.replicate 20 0) rfl
  exact ⟨agree.1, agree.2.1, agree.2.2.1, agree.2.2.2 _ (by decide)⟩

end K0Torrent
