import K0Torrent.Torrent.Accepted
import K0Torrent.Tracker.HttpTracker
import K0Torrent.Tracker.MoveToFront
import K0Torrent.Tracker.Retransmission

/-! What becomes of the numbers in a tracker's reply.

They are 64-bit integers of a dictionary, or 32-bit words of a datagram, and are kept as
`int32_t`; the ports of a dictionary are kept as `uint16_t`.
-/

set_option autoImplicit false

namespace K0Torrent

open UdpTracker

/-! ## Numbers -/

def numberAt (d : List (Bytes × BencodeValue)) (key : Bytes) : Option Int :=
  match d.lookup key with
  | some (.int n) => some n
  | _ => none

/-- The port of an entry with an address. -/
def dictPort (entry : BencodeValue) : Option Int :=
  match entry with
  | .dict d =>
    match d.lookup (ascii "ip") with
    | some (.string ip) => if (inetAton ip).isSome then numberAt d (ascii "port") else none
    | _ => none
  | _ => none

/-- The numbers of a reply, and the ports if the peers are dictionaries. -/
structure ReplyNumbers where
  interval : Option Int := none
  minInterval : Option Int := none
  complete : Option Int := none
  incomplete : Option Int := none
  ports : Option (List Int) := none

namespace ReplyNumbers

def ofDict (d : List (Bytes × BencodeValue)) : ReplyNumbers where
  interval := numberAt d (ascii "interval")
  minInterval := numberAt d (ascii "min interval")
  complete := numberAt d (ascii "complete")
  incomplete := numberAt d (ascii "incomplete")
  ports :=
    match d.lookup (ascii "peers") with
    | some (.list items) => some (items.filterMap dictPort)
    | _ => none

def ofDatagram (datagram : Bytes) : ReplyNumbers where
  interval := some (readU32At datagram 8)
  complete := some (readU32At datagram 16)
  incomplete := some (readU32At datagram 12)

/-- The response has them as they have been read by `read` and `readPort`. -/
structure In (read readPort : Int → Int) (numbers : ReplyNumbers) (response : TrackerResponse) :
    Prop where
  interval : ∀ n ∈ numbers.interval, response.interval = read n
  minInterval : ∀ n ∈ numbers.minInterval, response.minInterval = read n
  complete : ∀ n ∈ numbers.complete, response.complete = read n
  incomplete : ∀ n ∈ numbers.incomplete, response.incomplete = read n
  ports : ∀ ports ∈ numbers.ports,
    (response.peers.map fun peer => (peer.port : Int)) = ports.map readPort

def FitsI32 (n : Int) : Prop := -2 ^ 31 ≤ n ∧ n < 2 ^ 31

def FitsU16 (n : Int) : Prop := 0 ≤ n ∧ n < 2 ^ 16

/-- Every number is one of its type. -/
structure Fit (numbers : ReplyNumbers) : Prop where
  interval : ∀ n ∈ numbers.interval, FitsI32 n
  minInterval : ∀ n ∈ numbers.minInterval, FitsI32 n
  complete : ∀ n ∈ numbers.complete, FitsI32 n
  incomplete : ∀ n ∈ numbers.incomplete, FitsI32 n
  ports : ∀ ports ∈ numbers.ports, ∀ port ∈ ports, FitsU16 port

end ReplyNumbers

open ReplyNumbers

/-- Replies of either protocol that are accepted. -/
inductive Accepted : ReplyNumbers → TrackerResponse → Prop where
  | http {body : Bytes} {fuel next : Nat} {d : List (Bytes × BencodeValue)}
      {response : TrackerResponse} (decoded : decode body fuel 0 = .value (.dict d, next))
      (parsed : parseResponse body fuel = .value response) : Accepted (.ofDict d) response
  | udp {txnId : UInt32} {datagram : Bytes} {response : TrackerResponse}
      (checked : checkAnnounce txnId (datagram.take maxResp) = .ok response) :
      Accepted (.ofDatagram datagram) response

/-- Wherever the response comes first in a tier, nothing is scheduled for the past. -/
def SchedulesAhead (response : TrackerResponse) : Prop :=
  ∀ (attempt : Nat → Attempt) (round : Round) (number : Nat) (tier : Tier) (minInterval : Int)
    (watch : Watch) (i : Nat) (entry scheduled : TierEntry),
    RepliesFirst attempt tier i entry response →
    (tryTier round number attempt tier minInterval watch).tier[i]? = some scheduled →
    clockAfter attempt 0 watch.clock (tier.take (i + 1)) ≤ scheduled.nextAnnounce

/-- The response has the numbers of the reply, and so the next announce is not in the past unless
the reply says so. -/
def Unchanged (numbers : ReplyNumbers) (response : TrackerResponse) : Prop :=
  numbers.In id id response ∧ ((∀ n ∈ numbers.interval, 0 ≤ n) → SchedulesAhead response)

/-! ## Narrowing -/

theorem narrowI32_eq_iff (n : Int) : narrowI32 n = n ↔ FitsI32 n := by
  unfold narrowI32 castI32 castU32 FitsI32
  omega

theorem narrowU16_eq_iff (n : Int) : (narrowU16 n : Int) = n ↔ FitsU16 n := by
  unfold narrowU16 FitsU16
  omega

theorem castI32_eq_narrowI32 {n : Nat} (word : n < 2 ^ 32) : castI32 n = narrowI32 n := by
  unfold narrowI32 castI32 castU32
  omega

theorem map_narrowU16_eq_iff (ports : List Int) :
    (ports.map fun port => (narrowU16 port : Int)) = ports.map id ↔ ∀ port ∈ ports, FitsU16 port := by
  rw [List.map_inj_left]
  exact forall₂_congr fun port _ => narrowU16_eq_iff port

/-- What is narrowed is unchanged if it fits. -/
theorem in_iff_fit {numbers : ReplyNumbers} {response : TrackerResponse}
    (narrowed : numbers.In narrowI32 (fun n => narrowU16 n) response) :
    numbers.In id id response ↔ numbers.Fit := by
  have number {stored : Int} {found : Option Int} (here : ∀ n ∈ found, stored = narrowI32 n) :
      (∀ n ∈ found, stored = id n) ↔ ∀ n ∈ found, FitsI32 n := by
    refine forall₂_congr fun n member => ?_
    rw [here n member]
    exact narrowI32_eq_iff n
  have ports : (∀ ports ∈ numbers.ports,
      (response.peers.map fun peer => (peer.port : Int)) = ports.map id) ↔
        ∀ ports ∈ numbers.ports, ∀ port ∈ ports, FitsU16 port := by
    refine forall₂_congr fun ports member => ?_
    rw [narrowed.ports ports member]
    exact map_narrowU16_eq_iff ports
  constructor
  · intro same
    exact ⟨(number narrowed.interval).mp same.interval,
      (number narrowed.minInterval).mp same.minInterval,
      (number narrowed.complete).mp same.complete,
      (number narrowed.incomplete).mp same.incomplete, ports.mp same.ports⟩
  · intro fit
    exact ⟨(number narrowed.interval).mpr fit.interval,
      (number narrowed.minInterval).mpr fit.minInterval,
      (number narrowed.complete).mpr fit.complete,
      (number narrowed.incomplete).mpr fit.incomplete, ports.mpr fit.ports⟩

/-! ## What the readers do -/

theorem narrow_of_readNumber {d : List (Bytes × BencodeValue)} {key : Bytes} {absent stored : Int}
    (read : readNumber d key absent = .value stored) :
    ∀ n ∈ numberAt d key, stored = narrowI32 n := by
  intro n member
  unfold readNumber optional at read
  unfold numberAt at member
  cases found : d.lookup key with
  | none => simp [found] at member
  | some val =>
    cases val <;> simp [found] at member
    subst member
    simpa [found, unguarded, BencodeValue.asInt, eq_comm] using read

theorem absent_of_readNumber {d : List (Bytes × BencodeValue)} {key : Bytes} {absent stored : Int}
    (read : readNumber d key absent = .value stored) (none_ : numberAt d key = none) :
    stored = absent := by
  unfold readNumber optional at read
  unfold numberAt at none_
  cases found : d.lookup key with
  | none => simpa [found, unguarded, eq_comm] using read
  | some val =>
    cases val <;> simp [found, unguarded, BencodeValue.asInt] at read none_

theorem port_of_readDictPeer {entry : BencodeValue} {found : Option PeerAddress}
    (read : readDictPeer entry = .value found) :
    found.map (fun peer => (peer.port : Int)) =
      (dictPort entry).map fun port => (narrowU16 port : Int) := by
  obtain ⟨d, isDict, read⟩ := Outcome.bind_eq_value.mp read
  obtain ⟨ipValue, ipFound, read⟩ := Outcome.bind_eq_value.mp read
  obtain ⟨ip, isString, read⟩ := Outcome.bind_eq_value.mp read
  obtain ⟨portValue, portFound, read⟩ := Outcome.bind_eq_value.mp read
  obtain ⟨port, isInt, read⟩ := Outcome.bind_eq_value.mp read
  cases read
  have ipAt := dictAt_eq_value ipFound
  have portAt := dictAt_eq_value portFound
  rw [asInt_eq_value isInt] at portAt
  rw [asDict_eq_value isDict]
  cases ipValue <;> cases isString
  cases known : inetAton ip <;> simp [dictPort, numberAt, ipAt, portAt, known]

theorem ports_of_mapAll {items : List BencodeValue} {found : List (Option PeerAddress)}
    (read : mapAll readDictPeer items = .value found) :
    ((found.filterMap id).map fun peer => (peer.port : Int)) =
      (items.filterMap dictPort).map fun port => (narrowU16 port : Int) := by
  induction items generalizing found with
  | nil =>
    cases read
    rfl
  | cons entry items ih =>
    obtain ⟨first, readFirst, read⟩ := Outcome.bind_eq_value.mp read
    obtain ⟨later, readLater, read⟩ := Outcome.bind_eq_value.mp read
    cases read
    have port := port_of_readDictPeer readFirst
    have rest := ih readLater
    cases first <;> cases here : dictPort entry <;> simp_all

theorem ports_of_readPeers {items : List BencodeValue} {peers : List PeerAddress}
    (read : readPeers (.list items) = .value peers) :
    (peers.map fun peer => (peer.port : Int)) =
      (items.filterMap dictPort).map fun port => (narrowU16 port : Int) := by
  simp only [readPeers, parseDictPeers, BencodeValue.asList, Outcome.value_bind] at read
  cases mapped : mapAll readDictPeer items with
  | value found =>
    simp only [mapped, Outcome.value.injEq] at read
    rw [← read]
    exact ports_of_mapAll mapped
  | thrown e => simp [mapped] at read
  | unfinished => simp [mapped] at read

/-- What an HTTP tracker's reply leaves in the response. -/
theorem in_of_readReply {d : List (Bytes × BencodeValue)} {response : TrackerResponse}
    (read : readReply d = .value response) :
    (ofDict d).In narrowI32 (fun n => narrowU16 n) response ∧
      ((ofDict d).interval = none → response.interval = 1800) := by
  unfold readReply at read
  split at read
  · obtain ⟨reason, -, thrown⟩ := Outcome.bind_eq_value.mp read
    cases thrown
  · obtain ⟨interval, readInterval, read⟩ := Outcome.bind_eq_value.mp read
    obtain ⟨minInterval, readMin, read⟩ := Outcome.bind_eq_value.mp read
    obtain ⟨complete, readComplete, read⟩ := Outcome.bind_eq_value.mp read
    obtain ⟨incomplete, readIncomplete, read⟩ := Outcome.bind_eq_value.mp read
    obtain ⟨warning, -, read⟩ := Outcome.bind_eq_value.mp read
    have made : ∃ peers, response = { interval, minInterval, complete, incomplete, warning, peers } ∧
        ∀ items, d.lookup (ascii "peers") = some (.list items) →
          readPeers (.list items) = .value peers := by
      cases found : d.lookup (ascii "peers") with
      | none =>
        rw [found] at read
        cases read
        exact ⟨[], rfl, nofun⟩
      | some val =>
        rw [found] at read
        obtain ⟨peers, peersRead, read⟩ := Outcome.bind_eq_value.mp read
        cases read
        refine ⟨peers, rfl, fun items same => ?_⟩
        rwa [Option.some.inj same] at peersRead
    obtain ⟨peers, rfl, peersRead⟩ := made
    refine ⟨⟨narrow_of_readNumber readInterval, narrow_of_readNumber readMin,
      narrow_of_readNumber readComplete, narrow_of_readNumber readIncomplete, ?_⟩,
      absent_of_readNumber readInterval⟩
    intro ports member
    cases found : d.lookup (ascii "peers") with
    | none => simp [ofDict, found] at member
    | some val =>
      cases val <;> simp [ofDict, found] at member
      rw [← member]
      exact ports_of_readPeers (peersRead _ found)

/-- A reply of either protocol is narrowed; without an interval it has the default. -/
theorem in_of_accepted {numbers : ReplyNumbers} {response : TrackerResponse}
    (accepted : Accepted numbers response) :
    numbers.In narrowI32 (fun n => narrowU16 n) response ∧
      (numbers.interval = none → response.interval = 1800) := by
  cases accepted with
  | http decoded parsed =>
    unfold parseResponse at parsed
    rw [decoded] at parsed
    exact in_of_readReply parsed
  | @udp txnId datagram _ checked =>
    have read := (checkAnnounce_ok_iff.mp checked).2
    have word (offset : Nat) (within : offset + 4 ≤ maxResp) :
        castI32 (readU32At (datagram.take maxResp) offset) = narrowI32 (readU32At datagram offset) := by
      rw [readU32At_take within]
      exact castI32_eq_narrowI32 (readU32_lt ..)
    rw [← read]
    refine ⟨⟨?_, ?_, ?_, ?_, ?_⟩, ?_⟩ <;> simp [ofDatagram, readResponse]
    · exact word 8 (by decide)
    · exact word 16 (by decide)
    · exact word 12 (by decide)

/-! ## The deadline -/

theorem scheduled_of_repliesFirst {attempt : Nat → Attempt} {round : Round} {number : Nat}
    {tier : Tier} {minInterval : Int} {watch : Watch} {i : Nat} {entry scheduled : TierEntry}
    {response : TrackerResponse} (first : RepliesFirst attempt tier i entry response)
    (here : (tryTier round number attempt tier minInterval watch).tier[i]? = some scheduled) :
    scheduled.nextAnnounce =
      clockAfter attempt 0 watch.clock (tier.take (i + 1)) + seconds response.interval := by
  rw [tier_of_repliesFirst first, List.getElem?_modify_eq] at here
  obtain ⟨before, -, rfl⟩ := Option.map_eq_some_iff.mp here
  rfl

theorem schedulesAhead_of_nonneg {response : TrackerResponse} (ahead : 0 ≤ response.interval) :
    SchedulesAhead response := by
  intro attempt round number tier minInterval watch i entry scheduled first here
  rw [scheduled_of_repliesFirst first here, seconds]
  omega

/-- The numbers of an accepted reply are unchanged exactly if they fit into the types. -/
theorem unchanged_iff {numbers : ReplyNumbers} {response : TrackerResponse}
    (accepted : Accepted numbers response) : Unchanged numbers response ↔ numbers.Fit := by
  obtain ⟨narrowed, absent⟩ := in_of_accepted accepted
  rw [← in_iff_fit narrowed]
  constructor
  · exact fun unchanged => unchanged.1
  · intro same
    refine ⟨same, fun nonneg => schedulesAhead_of_nonneg ?_⟩
    cases interval : numbers.interval with
    | none =>
      rw [absent interval]
      decide
    | some n =>
      rw [same.interval n interval]
      exact nonneg n interval

/-- A dictionary with an interval and a peer. -/
def smallReply : Bytes := ascii "d8:intervali1800e5:peersld2:ip9:127.0.0.14:porti6881eeee"

theorem unchanged_smallReply :
    parseResponse smallReply 9 = .value { interval := 1800, peers := [⟨0x0100007F, 6881⟩] } ∧
      Unchanged { interval := some 1800, ports := some [6881] }
        { interval := 1800, peers := [⟨0x0100007F, 6881⟩] } := by
  have decoded : decode smallReply 9 0 = .value (.dict
      [(ascii "interval", .int 1800),
        (ascii "peers", .list [.dict [(ascii "ip", .string (ascii "127.0.0.1")),
          (ascii "port", .int 6881)]])], 56) := rfl
  have parsed : parseResponse smallReply 9 =
      .value { interval := 1800, peers := [⟨0x0100007F, 6881⟩] } := rfl
  have fit : ReplyNumbers.Fit { interval := some 1800, ports := some [6881] } := by
    constructor <;> simp [FitsI32, FitsU16]
  exact ⟨parsed, (unchanged_iff (.http decoded parsed)).mpr fit⟩

/-- One entry, whose tracker gives this response at once. -/
def answeredTier : Tier := [{ origin := (0, 0), url := ascii "udp:a", nextAnnounce := 0 }]

/-- The largest word is taken for -1, and the next announce is set to a second ago. -/
theorem interval_wraps :
    parseResponse (ascii "d8:intervali4294967295ee") 9 = .value { interval := -1 } ∧
      Accepted { interval := some 4294967295 } { interval := -1 } ∧
      ¬ Unchanged { interval := some 4294967295 } { interval := -1 } ∧
      ¬ SchedulesAhead { interval := -1 } := by
  have decoded : decode (ascii "d8:intervali4294967295ee") 9 0 =
      .value (.dict [(ascii "interval", .int 4294967295)], 24) := rfl
  have parsed : parseResponse (ascii "d8:intervali4294967295ee") 9 =
      .value { interval := -1 } := rfl
  refine ⟨parsed, .http decoded parsed, ?_, ?_⟩
  · intro unchanged
    exact absurd (unchanged.1.interval 4294967295 rfl) (by decide)
  · intro ahead
    have first : RepliesFirst (fun _ => { answer := .ok { interval := -1 } }) answeredTier 0
        { origin := (0, 0), url := ascii "udp:a", nextAnnounce := 0 } { interval := -1 } :=
      ⟨rfl, by simp [AllFail], rfl⟩
    have late := ahead _ ⟨0, false, { infoHash := .replicate 20 0, peerId := .replicate 20 0 }⟩ 0
      answeredTier 1800 ⟨0, []⟩ 0 _ _ first rfl
    exact absurd late (by decide)

end K0Torrent
