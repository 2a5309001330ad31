import K0Torrent.Session.Availability

/-! What a session tells its peers about its interest in them.

A `Have` sends `Interested` and sets the flag, unless it is set. A `Bitfield` sends it in any
case and leaves the flag alone.
-/

set_option autoImplicit false

namespace K0Torrent.Session

variable {ι : Type} [DecidableEq ι]

/-! ## What is queued -/

def queuedOn (connection : ι) : Wire ι → Option MessageId
  | .queued other msg => if other = connection then some msg.id else none
  | .received .. | .closed _ => none

/-- The kinds of the messages queued on a connection, the latest first. -/
def spoken (session : Session ι) (connection : ι) : List MessageId :=
  session.wire.filterMap (queuedOn connection)

/-- The flag says whether `Interested` has been queued, which happens once, and nothing takes
it back. -/
structure InterestAgrees (session : Session ι) (connection : ι) : Prop where
  flag : (session.peer connection).amInterested = true ↔ .interested ∈ session.spoken connection
  once : (session.spoken connection).count .interested ≤ 1
  never : .notInterested ∉ session.spoken connection

/-- The flag and what was queued beside requests. -/
structure Interest where
  flag : Bool
  said : List MessageId

def interest (connection : ι) (session : Session ι) : Interest where
  flag := (session.peer connection).amInterested
  said := (session.spoken connection).filter (· ≠ .request)

/-- What a message makes of it. -/
def Interest.after (msg : PeerMessage) (interest : Interest) : Interest :=
  if msg.id = .bitfield then { interest with said := .interested :: interest.said }
  else if IsHave msg ∧ interest.flag = false then ⟨true, .interested :: interest.said⟩
  else interest

section
variable (session : Session ι) (connection other : ι)

theorem spoken_setPeer (known : Peer) :
    (session.setPeer other known).spoken connection = session.spoken connection := rfl

theorem spoken_queueMessage (msg : PeerMessage) :
    (session.queueMessage other msg).spoken connection =
      if other = connection ∧ (session.connections other).state = .connected then
        msg.id :: session.spoken connection
      else session.spoken connection := by
  unfold spoken
  rw [wire_queueMessage]
  by_cases connected : (session.connections other).state = .connected
  · by_cases same : other = connection
    · subst same
      simp [connected, queuedOn]
    · simp [connected, same, queuedOn]
  · rw [if_neg connected, if_neg (connected ·.2)]

theorem said_requestNextBlocks (order : IterationOrder) :
    ((requestNextBlocks order session other).spoken connection).filter (· ≠ .request) =
      (session.spoken connection).filter (· ≠ .request) := by
  apply requestNextBlocks_induct (fun next =>
    (next.spoken connection).filter (· ≠ .request) = (session.spoken connection).filter (· ≠ .request))
  · intro next pieces request holds created
    cases request with
    | none => exact holds
    | some request =>
      rw [← holds, issue, spoken_queueMessage]
      split
      · exact List.filter_cons_of_neg (by simp [BlockRequest.message])
      · rfl
  · rfl

end

/-! ## Messages -/

section
variable {setup : Setup} {session next : Session ι} {connection : ι}

theorem interest_requestNextBlocks (order : IterationOrder) (session : Session ι)
    (connection sender : ι) :
    interest connection (requestNextBlocks order session sender) = interest connection session := by
  unfold interest
  rw [peer_requestNextBlocks, said_requestNextBlocks]

theorem interest_onPeerMessage (order : IterationOrder) (results : List SliceResult)
    (connected : (session.connections connection).state = .connected) (msg : PeerMessage) :
    interest connection (onPeerMessage setup order results session connection msg) =
      (interest connection session).after msg := by
  obtain ⟨id, payload⟩ := msg
  have state (known : Peer) : ((session.setPeer connection known).connections connection).state =
      .connected := (state_setPeer ..).trans connected
  cases id with
  | unchoke =>
    simp only [onPeerMessage, interest_requestNextBlocks]
    simp [interest, peer_setPeer, spoken_setPeer, Interest.after, IsHave]
  | piece =>
    simp only [onPeerMessage]
    split
    · simp [Interest.after, IsHave]
    · rw [interest_requestNextBlocks]
      simp [interest, peer, spoken, Interest.after, IsHave]
  | havePiece =>
    simp only [onPeerMessage]
    by_cases whole : payload.length = 4
    · cases flag : (session.peer connection).amInterested <;>
        simp [interest, whole, flag, Peer.setPiece, peer_setPeer, spoken_setPeer,
          spoken_queueMessage, state, interested, Interest.after, IsHave]
    · simp [whole, Interest.after, IsHave]
  | bitfield =>
    simp [onPeerMessage, interest, peer_setPeer, spoken_setPeer, spoken_queueMessage, state,
      interested, Interest.after]
  | choke | interested | notInterested | request | cancel | unnamed =>
    simp [onPeerMessage, interest, peer_setPeer, spoken_setPeer, Interest.after, IsHave]

theorem interest_of_message {msg : PeerMessage} {order : IterationOrder} {results : List SliceResult}
    (taken : step setup session (.message connection msg order results) = some next) :
    interest connection next = (interest connection session).after msg := by
  rw [step] at taken
  split at taken
  · rename_i connected
    cases taken
    exact @interest_onPeerMessage _ _ setup (session.record connection msg) connection order
      results connected msg
  · cases taken

/-- Nothing else changes it. -/
theorem interest_of_other {event : Event ι} (taken : step setup session event = some next)
    (other : messageFrom connection event = none) :
    interest connection next = interest connection session := by
  have steps := steps_of_step taken
  have same := peer_of_steps steps other
  have said : (next.spoken connection).filter (· ≠ .request) =
      (session.spoken connection).filter (· ≠ .request) := by
    cases steps with
    | handshake => rfl
    | disconnect => rfl
    | @message sender msg order results _ connected handles =>
      simp only [messageFrom, ite_eq_right_iff, reduceCtorEq] at other
      cases handles with
      | noted => rfl
      | greeted =>
        rw [spoken_queueMessage, if_neg (other ·.1)]
        rfl
      | unchoked => exact said_requestNextBlocks ..
      | delivered => exact said_requestNextBlocks ..
  unfold interest
  rw [same, said]

end

/-! ## Runs -/

/-- Only `Interested` is said. It has been said as the flag says, until the first `Bitfield`; from
then on more often. -/
theorem foldr_after (msgs : List PeerMessage) :
    (∀ id ∈ (msgs.foldr Interest.after ⟨false, []⟩).said, id = .interested) ∧
      ((∀ msg ∈ msgs, msg.id ≠ .bitfield) →
        (msgs.foldr Interest.after ⟨false, []⟩).said.length =
          (msgs.foldr Interest.after ⟨false, []⟩).flag.toNat) ∧
      ((∃ msg ∈ msgs, msg.id = .bitfield) →
        (msgs.foldr Interest.after ⟨false, []⟩).flag.toNat <
          (msgs.foldr Interest.after ⟨false, []⟩).said.length) := by
  induction msgs with
  | nil => simp
  | cons msg msgs ih =>
    rw [List.foldr_cons]
    generalize msgs.foldr Interest.after ⟨false, []⟩ = interest at ih
    obtain ⟨flag, said⟩ := interest
    obtain ⟨only, quiet, loud⟩ := ih
    rw [List.forall_mem_cons]
    simp only [List.mem_cons, exists_eq_or_imp]
    by_cases bitfield : msg.id = .bitfield
    · -- One more than before, with the same flag.
      have before : flag.toNat ≤ said.length := by
        by_cases earlier : ∃ other ∈ msgs, other.id = .bitfield
        · exact Nat.le_of_lt (loud earlier)
        · simp only [not_exists, not_and] at earlier
          exact Nat.le_of_eq (quiet earlier).symm
      have after : Interest.after msg ⟨flag, said⟩ = ⟨flag, .interested :: said⟩ := if_pos bitfield
      rw [after]
      exact ⟨List.forall_mem_cons.mpr ⟨rfl, only⟩, fun none_ => absurd bitfield none_.1,
        fun _ => Nat.lt_succ_of_le before⟩
    · by_cases told : IsHave msg ∧ flag = false
      · have after : Interest.after msg ⟨flag, said⟩ = ⟨true, .interested :: said⟩ := by
          rw [Interest.after, if_neg bitfield, if_pos told]
        rw [after]
        simp only [told.2, Bool.toNat_false, List.length_eq_zero_iff, List.length_pos_iff] at quiet loud
        refine ⟨List.forall_mem_cons.mpr ⟨rfl, only⟩, fun none_ => ?_, fun some_ => ?_⟩
        · simp [quiet none_.2]
        · have spoken := loud (some_.resolve_left bitfield)
          simpa [List.length_pos_iff] using spoken
      · have after : Interest.after msg ⟨flag, said⟩ = ⟨flag, said⟩ := by
          rw [Interest.after, if_neg bitfield, if_neg told]
        rw [after]
        exact ⟨only, fun none_ => quiet none_.2, fun some_ => loud (some_.resolve_left bitfield)⟩

section
variable {setup : Setup} {start final : Session ι}
  {history : List (Machine.Transition (Session ι) (Event ι))}

theorem interest_of_runs (runs : Runs setup start history final) (connection : ι) :
    interest connection final = (handled connection history).foldr Interest.after ⟨false, []⟩ := by
  have initial : interest connection start = ⟨false, []⟩ := by
    simp [interest, spoken, runs.1.fresh connection, runs.1.silent]
  rw [← initial]
  exact observed_of_run _ _ interest_of_message interest_of_other runs.2

/-- Where nothing but `Interested` has been said, it has to have been said as the flag says. -/
theorem interestAgrees_iff_length {session : Session ι} {connection : ι}
    (only : ∀ id ∈ (interest connection session).said, id = .interested) :
    InterestAgrees session connection ↔
      (interest connection session).said.length = (interest connection session).flag.toNat := by
  have count : (session.spoken connection).count .interested =
      (interest connection session).said.length := by
    rw [← List.count_eq_length.mpr fun id member => (only id member).symm]
    exact (List.count_filter (by decide)).symm
  have never : .notInterested ∉ session.spoken connection := by
    intro member
    have said : MessageId.notInterested ∈ (interest connection session).said :=
      List.mem_filter.mpr ⟨member, by decide⟩
    cases only _ said
  have flag : (interest connection session).flag = (session.peer connection).amInterested := rfl
  rw [← count, flag]
  constructor
  · intro agrees
    have once := agrees.once
    have some_ := agrees.flag
    rw [← List.count_pos_iff] at some_
    cases told : (session.peer connection).amInterested with
    | false =>
      have none_ : ¬ 0 < (session.spoken connection).count .interested := by simp [← some_, told]
      rw [Bool.toNat_false]
      omega
    | true =>
      have positive := some_.mp told
      rw [Bool.toNat_true]
      omega
  · intro same
    refine ⟨?_, ?_, never⟩
    · rw [← List.count_pos_iff, same]
      cases (session.peer connection).amInterested <;> simp
    · rw [same]
      exact Bool.toNat_le _

/-- What has been said and the flag agree exactly on the connections without a `Bitfield`. -/
theorem interestAgrees_iff (runs : Runs setup start history final) (connection : ι) :
    InterestAgrees final connection ↔
      ∀ msg ∈ handled connection history, msg.id ≠ .bitfield := by
  have run := foldr_after (handled connection history)
  rw [← interest_of_runs runs connection] at run
  obtain ⟨only, quiet, loud⟩ := run
  rw [interestAgrees_iff_length only]
  constructor
  · intro same msg member bitfield
    have more := loud ⟨msg, member, bitfield⟩
    omega
  · exact quiet

end

/-- Three pieces announced one by one. -/
theorem interestAgrees_haves :
    ∃ history final, Runs oneByte (waiting oneByte) history final ∧
      InterestAgrees final true ∧ final.spoken true = [.interested] := by
  have runs := runs_of_replay oneByte
    [.handshake true, receive true ⟨.havePiece, [0, 0, 0, 0]⟩, receive true ⟨.choke, []⟩,
      receive true ⟨.havePiece, [0, 0, 0, 0]⟩] rfl
  exact ⟨_, _, runs, (interestAgrees_iff runs true).mpr (by decide), rfl⟩

/-- After a `Bitfield` the flag is wrong; after a `Have` behind it `Interested` is queued again. -/
theorem bitfield_repeats_interest :
    (∃ history final, Runs oneByte (waiting oneByte) history final ∧
      (final.peer true).amInterested = false ∧ final.spoken true = [.interested] ∧
      ¬ InterestAgrees final true) ∧
      ∃ history final, Runs oneByte (waiting oneByte) history final ∧
        final.spoken true = [.interested, .interested] ∧ ¬ InterestAgrees final true := by
  have once := runs_of_replay oneByte [.handshake true, receive true ⟨.bitfield, [128]⟩] rfl
  have twice := runs_of_replay oneByte
    [.handshake true, receive true ⟨.bitfield, [128]⟩, receive true ⟨.havePiece, [0, 0, 0, 0]⟩] rfl
  constructor
  · refine ⟨_, _, once, rfl, rfl, fun agrees => ?_⟩
    exact absurd (agrees.flag.mpr (List.mem_singleton.mpr rfl)) (by decide)
  · refine ⟨_, _, twice, rfl, fun agrees => ?_⟩
    exact absurd agrees.once (by decide)

end K0Torrent.Session
