import K0Torrent.Bencode.Record
import K0Torrent.Bencode.Truncated
import K0Torrent.Torrent.InfoHash
import K0Torrent.Tracker.Exchanges
import K0Torrent.Tracker.Numbers
import K0Torrent.Tracker.PeerLists

/-! Replies of HTTP trackers, from the tracker to the announce.

A reply comes in pieces, and it ends where the connection does. What the announce returns is
the reply as the tracker has written it, or nothing of it.
-/

set_option autoImplicit false

namespace K0Torrent

open Truncation ReplyNumbers

/-! ## The reply as it is written -/

/-- The peers, in one of the two forms. -/
inductive PeersField where
  | compact (peers : List IPv4Peer)
  | dicts (peers : List IPv4Peer)

namespace PeersField

def value : PeersField → BencodeValue
  | compact peers => .string (peers.flatMap IPv4Peer.packed)
  | dicts peers => .list (peers.map IPv4Peer.entry)

def addresses : PeersField → List PeerAddress
  | compact peers => peers.map IPv4Peer.address
  | dicts peers => peers.map IPv4Peer.address

theorem readPeers_value (field : PeersField) : readPeers field.value = .value field.addresses := by
  cases field with
  | compact peers => exact parseCompactPeers_packed peers
  | dicts peers => exact parseDictPeers_entries peers

theorem native (field : PeersField) : Native field.value := by
  cases field with
  | compact peers => trivial
  | dicts peers =>
    refine nativeItems_of_forall fun item member => ?_
    obtain ⟨peer, -, rfl⟩ := List.mem_map.mp member
    have bound := peer.port.toNat_lt
    have ordered : [(ascii "ip"), (ascii "port")].Pairwise (· < ·) := by decide
    refine ⟨⟨trivial, ⟨?_, ?_⟩, trivial⟩, ?_⟩
    · omega
    · omega
    · simpa [Ascending] using ordered

end PeersField

/-- What a tracker may say. -/
structure HttpReply where
  complete : Option Int
  failure : Option Bytes
  incomplete : Option Int
  interval : Option Int
  minInterval : Option Int
  peers : Option PeersField
  warning : Option Bytes

namespace HttpReply

variable (reply : HttpReply)

def record : Record :=
  [(ascii "complete", reply.complete.map .int),
    (ascii "failure reason", reply.failure.map .string),
    (ascii "incomplete", reply.incomplete.map .int),
    (ascii "interval", reply.interval.map .int),
    (ascii "min interval", reply.minInterval.map .int),
    (ascii "peers", reply.peers.map PeersField.value),
    (ascii "warning message", reply.warning.map .string)]

def dict : List (Bytes × BencodeValue) := Record.dict reply.record

/-- The body of the response. -/
def body : Bytes := encode (.dict reply.dict)

/-- The numbers are those that the response can hold. -/
structure Fits : Prop where
  complete : ∀ n ∈ reply.complete, FitsI32 n
  incomplete : ∀ n ∈ reply.incomplete, FitsI32 n
  interval : ∀ n ∈ reply.interval, FitsI32 n
  minInterval : ∀ n ∈ reply.minInterval, FitsI32 n

/-- What the tracker has said, with the defaults where it has said nothing. -/
def response : TrackerResponse where
  interval := reply.interval.getD 1800
  minInterval := reply.minInterval.getD 0
  complete := reply.complete.getD 0
  incomplete := reply.incomplete.getD 0
  warning := reply.warning.getD []
  peers := (reply.peers.map PeersField.addresses).getD []

/-- A failure is an exception, whatever else the tracker says. -/
def said : Outcome Thrown TrackerResponse :=
  match reply.failure with
  | some reason => .thrown (.standard (ascii "Tracker failure: " ++ reason))
  | none => .value reply.response

theorem sorted_record : reply.record.Sorted := by
  have sorted : [ascii "complete", ascii "failure reason", ascii "incomplete", ascii "interval",
      ascii "min interval", ascii "peers", ascii "warning message"].Pairwise (· < ·) := by decide
  exact sorted

variable {reply}

theorem native_dict (fits : reply.Fits) : Native (.dict reply.dict) := by
  have int64 {number : Option Int} {val : BencodeValue} (small : ∀ n ∈ number, FitsI32 n)
      (there : some val = number.map .int) : Native val := by
    obtain ⟨n, found, rfl⟩ := Option.map_eq_some_iff.mp there.symm
    have bounds := small n found
    unfold FitsI32 at bounds
    constructor <;> omega
  have string {text : Option Bytes} {val : BencodeValue}
      (there : some val = text.map .string) : Native val := by
    obtain ⟨bytes, -, rfl⟩ := Option.map_eq_some_iff.mp there.symm
    trivial
  refine Record.native_dict reply.sorted_record fun key val member => ?_
  simp only [record, List.mem_cons, Prod.mk.injEq, List.not_mem_nil, or_false] at member
  rcases member with ⟨-, there⟩ | ⟨-, there⟩ | ⟨-, there⟩ | ⟨-, there⟩ | ⟨-, there⟩ | ⟨-, there⟩ |
    ⟨-, there⟩
  · exact int64 fits.complete there
  · exact string there
  · exact int64 fits.incomplete there
  · exact int64 fits.interval there
  · exact int64 fits.minInterval there
  · obtain ⟨field, -, rfl⟩ := Option.map_eq_some_iff.mp there.symm
    exact field.native
  · exact string there

theorem readNumber_map {d : List (Bytes × BencodeValue)} {key : Bytes} {number : Option Int}
    {absent : Int} (found : d.lookup key = number.map .int) (small : ∀ n ∈ number, FitsI32 n) :
    readNumber d key absent = .value (number.getD absent) := by
  rw [readNumber, optional, found]
  cases number with
  | none => rfl
  | some n => exact congrArg Outcome.value ((narrowI32_eq_iff n).mpr (small n rfl))

/-- Reading undoes writing. -/
theorem readReply_dict (fits : reply.Fits) : readReply reply.dict =
    match reply.failure with
    | some reason => .thrown (.failure reason)
    | none => .value reply.response := by
  have bound (key : Bytes) : reply.dict.lookup key = (reply.record.lookup key).join :=
    Record.lookup_dict reply.sorted_record key
  have failure : reply.dict.lookup (ascii "failure reason") = reply.failure.map .string :=
    (bound _).trans (Option.join_some ..)
  have complete : reply.dict.lookup (ascii "complete") = reply.complete.map .int :=
    (bound _).trans (Option.join_some ..)
  have incomplete : reply.dict.lookup (ascii "incomplete") = reply.incomplete.map .int :=
    (bound _).trans (Option.join_some ..)
  have interval : reply.dict.lookup (ascii "interval") = reply.interval.map .int :=
    (bound _).trans (Option.join_some ..)
  have minInterval : reply.dict.lookup (ascii "min interval") = reply.minInterval.map .int :=
    (bound _).trans (Option.join_some ..)
  have peers : reply.dict.lookup (ascii "peers") = reply.peers.map PeersField.value :=
    (bound _).trans (Option.join_some ..)
  have warning : reply.dict.lookup (ascii "warning message") = reply.warning.map .string :=
    (bound _).trans (Option.join_some ..)
  have warningRead : unguarded (optional reply.dict (ascii "warning message")
      BencodeValue.asString []) = .value (reply.warning.getD []) := by
    rw [optional, warning]
    cases reply.warning <;> rfl
  rw [readReply, failure]
  cases reply.failure with
  | some reason => rfl
  | none =>
    simp only [Option.map_none, readNumber_map interval fits.interval,
      readNumber_map minInterval fits.minInterval, readNumber_map complete fits.complete,
      readNumber_map incomplete fits.incomplete, warningRead, peers, response, Outcome.value_bind]
    cases reply.peers with
    | none => rfl
    | some field =>
      simp only [Option.map_some, field.readPeers_value, Outcome.value_bind]
      rfl

end HttpReply

/-! ## The blank line -/

/-- What ends the head of a response. -/
def blankLine : Bytes := ascii "\r\n\r\n"

section
variable {front back key : Bytes} {pos : Nat}

theorem isPrefix_drop_append {i : Nat} (inside : i + key.length ≤ front.length) :
    key <+: (front ++ back).drop i ↔ key <+: front.drop i := by
  rw [List.drop_append_of_le_length (by omega)]
  constructor
  · intro here
    refine List.prefix_of_prefix_length_le here (List.prefix_append ..) ?_
    rw [List.length_drop]
    omega
  · exact fun here => here.trans (List.prefix_append ..)

/-- The first occurrence stays the first one, whatever comes behind. -/
theorem find_append (inside : pos + key.length ≤ front.length) (found : find front key = some pos) :
    find (front ++ back) key = some pos := by
  obtain ⟨bound, here, earlier⟩ := find_eq_some_iff.mp found
  refine find_eq_some_iff.mpr ⟨?_, ?_, fun i before => ?_⟩
  · rw [List.length_append]
    omega
  · exact (isPrefix_drop_append inside).mpr here
  · rw [isPrefix_drop_append (by omega)]
    exact earlier i before

/-- There is none before its first one is complete. -/
theorem find_eq_none_of_cut {cut : Bytes} (some_ : key ≠ [])
    (found : find front key = some pos) (last : front.length = pos + key.length)
    (truncated : Cut cut front) : find cut key = none := by
  cases here : find cut key with
  | none => rfl
  | some i =>
    obtain ⟨missing, rfl⟩ := truncated.beginning
    obtain ⟨-, occurs, -⟩ := find_eq_some_iff.mp here
    have long := occurs.length_le
    have size := List.length_pos_iff.mpr some_
    have short := truncated.short
    rw [List.length_drop] at long
    have inside : i + key.length ≤ cut.length := by omega
    exact absurd ((isPrefix_drop_append inside).mpr occurs)
      ((find_eq_some_iff.mp found).2.2 i (by omega))

end

/-! ## The announce -/

section
variable {url host target response body : Bytes} {port fuel : Nat} {req : TrackerRequest}
  (addressed : requestTarget url req = .ok (host, port, target))
include addressed

theorem announce_of_no_blank (none_ : find response blankLine = none) :
    HttpTracker.announce (fun _ _ _ => .ok response) fuel url req =
      .thrown (.standard (ascii "Malformed HTTP response (no header end)")) := by
  have got : httpGet (fun _ _ _ => .ok response) host port target =
      .error (.standard (ascii "Malformed HTTP response (no header end)")) := by
    simp only [httpGet, bind, Except.bind]
    rw [show find response (ascii "\r\n\r\n") = none from none_]
  rw [HttpTracker.announce, addressed]
  simp only [bind, Except.bind, got]

theorem announce_of_body {bodyStart : Nat} (found : find response blankLine = some bodyStart)
    (rest : response.drop (bodyStart + 4) = body) :
    HttpTracker.announce (fun _ _ _ => .ok response) fuel url req =
      match parseResponse body fuel with
      | .value response => .value response
      | .thrown e => .thrown (.standard e.what)
      | .unfinished => .unfinished := by
  have got : httpGet (fun _ _ _ => .ok response) host port target = .ok body := by
    simp only [httpGet, bind, Except.bind]
    rw [show find response (ascii "\r\n\r\n") = some bodyStart from found, ← rest]
    rfl
  rw [HttpTracker.announce, addressed]
  cases parsed : parseResponse body fuel <;> simp only [bind, Except.bind, got, parsed]

end

theorem parseResponse_body {reply : HttpReply} (fits : reply.Fits)
    (size : reply.body.length < 2 ^ 63) :
    ∃ least, ∀ fuel, least ≤ fuel → parseResponse reply.body fuel =
      match reply.failure with
      | some reason => .thrown (.failure reason)
      | none => .value reply.response := by
  have returns := returns_whole (HttpReply.native_dict fits) rfl size
  obtain ⟨least, returned⟩ := returns
  refine ⟨least, fun fuel enough => ?_⟩
  have decoded := (parse_of_le enough (Outcome.finished_of_value returned)).trans returned
  unfold HttpReply.body at decoded ⊢
  simp only [parseResponse, decode, decoded, BencodeValue.asDict, unguarded, Outcome.value_bind,
    HttpReply.readReply_dict fits]

theorem parseResponse_cut {reply : HttpReply} (fits : reply.Fits)
    (size : reply.body.length < 2 ^ 63) {left : Bytes} (truncated : Cut left reply.body) :
    ∃ least e, ∀ fuel, least ≤ fuel → parseResponse left fuel = .thrown (.bencode e) := by
  have derives := derives_encode _ (HttpReply.native_dict fits)
  obtain ⟨least, e, failed⟩ := decode_cut derives truncated [] (Nat.lt_trans size (by decide))
  refine ⟨least, e, fun fuel enough => ?_⟩
  have thrown : decode left fuel 0 = .thrown e := failed fuel enough
  rw [parseResponse, thrown]

/-- Of a reply that comes in any pieces, announcing returns what the tracker has said if all of
it has come, and throws if the connection has ended before. -/
theorem announce_received {url host target : Bytes} {port : Nat} {req : TrackerRequest}
    (addressed : requestTarget url req = .ok (host, port, target)) {reply : HttpReply}
    (fits : reply.Fits) (size : reply.body.length < 2 ^ 63) {head : Bytes}
    (first : find (head ++ blankLine) blankLine = some head.length) {received : List Bytes}
    (came : HttpTracker.receiveAll received [] <+: head ++ blankLine ++ reply.body) :
    ∃ least result, (∀ fuel, least ≤ fuel →
        HttpTracker.announce (fun _ _ _ => .ok (HttpTracker.receiveAll received [])) fuel url req =
          result) ∧
      (HttpTracker.receiveAll received [] = head ++ blankLine ++ reply.body → result = reply.said) ∧
      (HttpTracker.receiveAll received [] ≠ head ++ blankLine ++ reply.body →
        ∃ thrown, result = .thrown thrown) := by
  generalize HttpTracker.receiveAll received [] = response at came ⊢
  have last : (head ++ blankLine).length = head.length + blankLine.length := List.length_append
  have behind (rest : Bytes) : (head ++ blankLine ++ rest).drop (head.length + 4) = rest := by
    rw [show head.length + 4 = (head ++ blankLine).length from last.symm, List.drop_left]
  rcases eq_or_cut came with rfl | truncated
  · obtain ⟨least, parsed⟩ := parseResponse_body fits size
    refine ⟨least, reply.said, fun fuel enough => ?_, fun _ => rfl, fun other => absurd rfl other⟩
    rw [announce_of_body addressed (find_append last.ge first) (behind _), parsed fuel enough,
      HttpReply.said]
    cases reply.failure <;> rfl
  · have other : response ≠ head ++ blankLine ++ reply.body := by
      rintro rfl
      exact Nat.lt_irrefl _ truncated.short
    rcases truncated.append with inHead | ⟨left, rfl, inBody⟩
    · have none_ := find_eq_none_of_cut (by decide) first last inHead
      exact ⟨0, _, fun fuel _ => announce_of_no_blank addressed none_,
        fun same => absurd same other, fun _ => ⟨_, rfl⟩⟩
    · obtain ⟨least, e, failed⟩ := parseResponse_cut fits size inBody
      refine ⟨least, .thrown (.standard (ResponseError.bencode e).what), fun fuel enough => ?_,
        fun same => absurd same other, fun _ => ⟨_, rfl⟩⟩
      rw [announce_of_body addressed (find_append last.ge first) (behind left),
        failed fuel enough]

def onePeer : HttpReply where
  complete := none
  failure := none
  incomplete := some 2
  interval := some 900
  minInterval := none
  peers := some (.compact [⟨10, 0, 0, 1, 6881⟩])
  warning := none

/-- The reply in two pieces, and without its last byte. -/
theorem announce_received_onePeer :
    (∃ least, ∀ fuel, least ≤ fuel → HttpTracker.announce (fun _ _ _ => .ok
        (HttpTracker.receiveAll [ascii "HTTP/1.0 200 OK\r", ascii "\n\r\n" ++ onePeer.body] [])) fuel
        (ascii "http://t/a") { infoHash := .replicate 20 0, peerId := .replicate 20 0 } =
      .value { interval := 900, incomplete := 2, peers := [⟨16777226, 6881⟩] }) ∧
    ∃ fuel thrown, HttpTracker.announce (fun _ _ _ => .ok
        (HttpTracker.receiveAll [ascii "HTTP/1.0 200 OK\r\n\r\n", onePeer.body.dropLast] [])) fuel
        (ascii "http://t/a") { infoHash := .replicate 20 0, peerId := .replicate 20 0 } =
      .thrown thrown := by
  have fits : onePeer.Fits := by
    refine ⟨nofun, ?_, ?_, nofun⟩ <;> rintro _ ⟨⟩ <;> exact ⟨by decide, by decide⟩
  have size : onePeer.body.length < 2 ^ 63 := by decide +kernel
  have first : find (ascii "HTTP/1.0 200 OK" ++ blankLine) blankLine =
    some (ascii "HTTP/1.0 200 OK").length := by decide +kernel
  constructor
  · obtain ⟨least, result, announced, whole, -⟩ := @announce_received (ascii "http://t/a") _ _ _
      { infoHash := .replicate 20 0, peerId := .replicate 20 0 } rfl _ fits size _ first
      [ascii "HTTP/1.0 200 OK\r", ascii "\n\r\n" ++ onePeer.body] (by decide +kernel)
    have said : onePeer.said = .value { interval := 900, incomplete := 2, peers := [⟨16777226, 6881⟩] } :=
      rfl
    exact ⟨least, fun fuel enough => (announced fuel enough).trans
      ((whole (by decide +kernel)).trans said)⟩
  · obtain ⟨least, result, announced, -, cut⟩ := @announce_received (ascii "http://t/a") _ _ _
      { infoHash := .replicate 20 0, peerId := .replicate 20 0 } rfl _ fits size _ first
      [ascii "HTTP/1.0 200 OK\r\n\r\n", onePeer.body.dropLast] (by decide +kernel)
    obtain ⟨thrown, same⟩ := cut (by decide +kernel)
    exact ⟨least, thrown, (announced least (Nat.le_refl least)).trans same⟩

end K0Torrent
