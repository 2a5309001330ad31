import K0Torrent.Session.Owners

/-! What an idle connection may have to request.

Requests are made for the sender of an `Unchoke` or of a block, and for no other
connection. In between, the sender of a `Have` or a `Bitfield` offers new pieces,
and the last block of a piece makes room for another piece or resets its own; the
connections that wait are not looked at again.
-/

set_option autoImplicit false

namespace K0Torrent.Session

open PieceManager

variable {ι : Type}

/-- A request on the connection is unanswered. -/
def Pending (wire : List (Wire ι)) (connection : ι) : Prop :=
  ∃ request since, BlockRequest.Fits request ∧ Outstanding wire connection request since

/-- The connection waits for an answer, or there is nothing to request on it. -/
def Busy (session : Session ι) (connection : ι) : Prop :=
  Pending session.wire connection ∨ session.pieces.Exhausted (session.peer connection) ∨
    session.pieces.Blockless

theorem Pending.cons {wire : List (Wire ι)} {connection : ι} (pending : Pending wire connection)
    {entry : Wire ι} (other : ∀ request, ¬ Answers connection request entry) :
    Pending (entry :: wire) connection := by
  obtain ⟨request, since, fits, outstanding⟩ := pending
  exact ⟨request, entry :: since, fits, outstanding.cons (other request)⟩

/-- Entries that answer nothing on the connection, and news of other peers, change nothing for it. -/
theorem Busy.frame {session next : Session ι} {connection : ι} (busy : Busy session connection)
    (wire : next.wire = session.wire ∨ ∃ entry, next.wire = entry :: session.wire ∧
      ∀ request, ¬ Answers connection request entry)
    (pieces : next.pieces = session.pieces)
    (bitfield : (next.peer connection).bitfield = (session.peer connection).bitfield) :
    Busy next connection := by
  unfold Busy
  rw [pieces]
  rcases busy with pending | exhausted | blockless
  · rcases wire with same | ⟨entry, more, other⟩
    · rw [same]
      exact .inl pending
    · rw [more]
      exact .inl (pending.cons other)
  · exact .inr (.inl (exhausted.congr bitfield))
  · exact .inr (.inr blockless)

theorem Busy.queueMessage {session : Session ι} {connection : ι} (busy : Busy session connection)
    (sender : ι) (msg : PeerMessage) : Busy (session.queueMessage sender msg) connection := by
  refine busy.frame ?_ (pieces_queueMessage ..) (by rw [peer_queueMessage])
  rw [wire_queueMessage]
  split
  · exact .inr ⟨_, rfl, fun request => not_answers_queued _ _ _ _⟩
  · exact .inl rfl

/-! ## Requests -/

theorem Pending.queueMessage {session : Session ι} {connection : ι}
    (pending : Pending session.wire connection) (sender : ι) (msg : PeerMessage) :
    Pending (session.queueMessage sender msg).wire connection := by
  rw [wire_queueMessage]
  split
  · exact pending.cons fun request => not_answers_queued _ _ _ _
  · exact pending

theorem Pending.issue {session : Session ι} {connection sender : ι} {pieces : PieceManager}
    {request : Option BlockRequest} (pending : Pending session.wire connection) :
    Pending (session.issue sender pieces request).wire connection := by
  cases request with
  | none => exact pending
  | some request => exact @Pending.queueMessage _ { session with pieces } _ pending _ _

theorem Busy.issue {session : Session ι} {connection sender : ι} {pieces : PieceManager}
    {request : Option BlockRequest} (busy : Busy session connection)
    (creates : session.pieces.Creates (session.peer sender) pieces request) :
    Busy (session.issue sender pieces request) connection := by
  unfold Busy
  rw [pieces_issue, peer_issue]
  rcases busy with pending | exhausted | blockless
  · exact .inl pending.issue
  · exact .inr (exhausted.creates creates)
  · exact .inr (.inr (blockless.creates creates))

theorem Busy.requestNextBlocks {order : IterationOrder} {session : Session ι} {connection : ι}
    (busy : Busy session connection) (sender : ι) :
    Busy (requestNextBlocks order session sender) connection :=
  requestNextBlocks_induct (fun next => Busy next connection)
    (fun holds creates => holds.issue creates) busy

/-- The first round finds nothing, or leaves a request that waits for an answer. -/
theorem busy_requestNextBlocks {order : IterationOrder} {session : Session ι} {connection : ι}
    (sound : session.pieces.Sound)
    (connected : (session.connections connection).state = .connected)
    (unchoked : (session.peer connection).peerChoking = false) :
    Busy (requestNextBlocks order session connection) connection := by
  -- Only the first of the five rounds decides.
  apply requestNextBlocks_first unchoked (fun next => Busy next connection)
  · intro pieces creates
    cases creates with
    | idle exhausted => exact .inr (.inl exhausted)
    | blockless opens none_ =>
      exact .inr (.inr ⟨_, _, lookup_setPiece_self .., none_⟩)
  · intro pieces request creates
    apply requestBlocks_induct (fun next => Busy next connection)
      (fun holds creates => holds.issue creates) 4
    refine .inl ⟨request, [], creates.fits sound, ⟨session.wire, ?_⟩, List.forall_mem_nil _⟩
    exact wire_issue session connection pieces request connected

/-! ## Steps and runs -/

/-- The event makes the session look for blocks to request on the connection. -/
def SchedulesFor (connection : ι) (event : Event ι) : Prop :=
  ∃ msg order results, event = .message connection msg order results ∧ Schedules msg

theorem not_schedulesFor_handshake {connection sender : ι} :
    ¬ SchedulesFor connection (.handshake sender) := by
  rintro ⟨msg, order, results, same, -⟩
  cases same

theorem not_schedulesFor_disconnect {connection sender : ι} :
    ¬ SchedulesFor connection (.disconnect sender) := by
  rintro ⟨msg, order, results, same, -⟩
  cases same

theorem schedulesFor_message {connection sender : ι} {msg : PeerMessage} {order : IterationOrder}
    {results : List SliceResult} : SchedulesFor connection (.message sender msg order results) ↔
      sender = connection ∧ Schedules msg := by
  constructor
  · rintro ⟨_, _, _, same, leads⟩
    cases same
    exact ⟨rfl, leads⟩
  · rintro ⟨rfl, leads⟩
    exact ⟨msg, order, results, rfl, leads⟩

/-- Steps that may create work for a connection without looking for it. -/
inductive Wakes (connection : ι) : Machine.Transition (Session ι) (Event ι) → Prop where
  | offered {before after : Session ι} {msg : PeerMessage} {order : IterationOrder}
      {results : List SliceResult} (offers : msg.id = .havePiece ∨ msg.id = .bitfield) :
      Wakes connection ⟨before, .message connection msg order results, after⟩
  | finished {before after : Session ι} {other : ι} {msg : PeerMessage} {order : IterationOrder}
      {results : List SliceResult} {pieceIndex blockOffset : Nat} {data : Bytes}
      (different : other ≠ connection) (delivers : Delivers msg pieceIndex blockOffset data)
      (finishes : before.pieces.Finishes pieceIndex blockOffset) :
      Wakes connection ⟨before, .message other msg order results, after⟩

/-- Work may have been created for the connection since the session last looked for it. -/
def Woken (connection : ι) (history : List (Machine.Transition (Session ι) (Event ι))) : Prop :=
  ∃ recent transition earlier, history = recent ++ transition :: earlier ∧
    Wakes connection transition ∧ ∀ later ∈ recent, ¬ SchedulesFor connection later.event

theorem Woken.cons {connection : ι} {history : List (Machine.Transition (Session ι) (Event ι))}
    (woken : Woken connection history) {transition : Machine.Transition (Session ι) (Event ι)}
    (quiet : ¬ SchedulesFor connection transition.event) :
    Woken connection (transition :: history) := by
  obtain ⟨recent, cause, earlier, split, wakes, silent⟩ := woken
  refine ⟨transition :: recent, cause, earlier, by rw [split]; rfl, wakes, ?_⟩
  intro later member
  rcases List.mem_cons.mp member with rfl | before
  · exact quiet
  · exact silent later before

theorem woken_now {connection : ι} {transition : Machine.Transition (Session ι) (Event ι)}
    (wakes : Wakes connection transition)
    (history : List (Machine.Transition (Session ι) (Event ι))) :
    Woken connection (transition :: history) := by
  refine ⟨[], transition, history, rfl, wakes, ?_⟩
  intro later member
  cases member

/-- A connection that waits for its handshake is choked, and one that may send
blocks is busy or has been woken. -/
structure Served (history : List (Machine.Transition (Session ι) (Event ι)))
    (session : Session ι) : Prop where
  greeting : ∀ connection, (session.connections connection).state = .handshakeSent →
    (session.peer connection).peerChoking = true
  busy : ∀ connection, (session.connections connection).state = .connected →
    (session.peer connection).peerChoking = false →
    Woken connection history ∨ Busy session connection

variable [DecidableEq ι]

theorem state_of_handles {setup : Setup} {session next : Session ι} {connection sender : ι}
    {msg : PeerMessage} {order : IterationOrder} {results : List SliceResult}
    (handles : Handles setup order results (session.record sender msg) sender msg next) :
    (next.connections connection).state = (session.connections connection).state := by
  cases handles with
  | noted => exact state_setPeer ..
  | greeted =>
    rw [connections_queueMessage]
    exact state_setPeer ..
  | unchoked =>
    rw [connections_requestNextBlocks]
    exact state_setPeer ..
  | delivered => rw [connections_requestNextBlocks]; rfl

/-- What a connection other than the sender sees of a message. -/
theorem Busy.handles {setup : Setup} {session next : Session ι} {connection sender : ι}
    {msg : PeerMessage} {order : IterationOrder} {results : List SliceResult}
    (busy : Busy session connection) (different : sender ≠ connection)
    (handles : Handles setup order results (session.record sender msg) sender msg next) :
    (∃ pieceIndex blockOffset data, Delivers msg pieceIndex blockOffset data ∧
      session.pieces.Finishes pieceIndex blockOffset) ∨ Busy next connection := by
  have recorded : Busy (session.record sender msg) connection := by
    refine busy.frame (.inr ⟨_, rfl, fun request => ?_⟩) rfl rfl
    rintro ⟨_, _, same, -⟩
    cases same
    exact different rfl
  have told : ∀ known, Busy ((session.record sender msg).setPeer sender known) connection := by
    intro known
    refine recorded.frame (.inl rfl) rfl ?_
    rw [peer_setPeer, if_neg different.symm]
  cases handles with
  | noted => exact .inr (told _)
  | greeted => exact .inr ((told _).queueMessage ..)
  | unchoked => exact .inr ((told _).requestNextBlocks _)
  | @delivered pieceIndex blockOffset data pieces done delivers processes =>
    -- Only the last block of a piece makes room, or resets the piece.
    by_cases finishes : session.pieces.Finishes pieceIndex blockOffset
    · exact .inl ⟨pieceIndex, blockOffset, data, delivers, finishes⟩
    · right
      apply Busy.requestNextBlocks
      exact recorded.imp_right fun idle => idle.imp
        (fun exhausted => exhausted.processes processes finishes)
        fun blockless => blockless.processes processes

/-- A message that leads to requests serves its sender. -/
theorem busy_of_schedules {setup : Setup} {session next : Session ι} {connection : ι}
    {msg : PeerMessage} {order : IterationOrder} {results : List SliceResult}
    (regular : Regular setup session.pieces)
    (connected : (session.connections connection).state = .connected) (schedules : Schedules msg)
    (handles : Handles setup order results (session.record connection msg) connection msg next)
    (unchoked : (next.peer connection).peerChoking = false) : Busy next connection := by
  cases handles with
  | noted quiet => exact absurd schedules quiet
  | greeted quiet => exact absurd schedules quiet
  | unchoked =>
    refine busy_requestNextBlocks regular.sound ?_ ?_
    · exact (state_setPeer ..).trans connected
    · rw [peer_setPeer, if_pos rfl]
  | delivered delivers processes =>
    rw [peer_requestNextBlocks] at unchoked
    exact busy_requestNextBlocks (regular.processes processes).sound connected unchoked

/-- Any other message leaves its sender as busy as before, unless it offers new pieces. -/
theorem busy_of_quiet {setup : Setup} {session next : Session ι} {connection : ι}
    {msg : PeerMessage} {order : IterationOrder} {results : List SliceResult}
    (quiet : ¬ Schedules msg)
    (handles : Handles setup order results (session.record connection msg) connection msg next)
    (unchoked : (next.peer connection).peerChoking = false) :
    (session.peer connection).peerChoking = false ∧
      ((msg.id = .havePiece ∨ msg.id = .bitfield) ∨
        (Busy session connection → Busy next connection)) := by
  have told : ∀ known, Notes (session.peer connection) msg known → known.peerChoking = false →
      (session.peer connection).peerChoking = false ∧
        ((msg.id = .havePiece ∨ msg.id = .bitfield) ∨ (Busy session connection →
          Busy ((session.record connection msg).setPeer connection known) connection)) := by
    intro known notes free
    rw [notes.choking, Bool.or_eq_false_iff] at free
    refine ⟨free.1, ?_⟩
    -- Without an offer the bitfield, and with it what can be requested, stays.
    by_cases offers : msg.id = .havePiece ∨ msg.id = .bitfield
    · exact .inl offers
    · obtain ⟨noHave, noBitfield⟩ := not_or.mp offers
      refine .inr fun busy => busy.frame
        (.inr ⟨_, rfl, fun request => not_answers_quiet quiet _ _ _⟩) rfl ?_
      rw [peer_setPeer, if_pos rfl, notes.bitfield, if_neg noBitfield, if_neg (noHave ·.1)]
  cases handles with
  | @noted known _ notes =>
    rw [peer_setPeer, if_pos rfl] at unchoked
    exact told known notes unchoked
  | @greeted known _ notes =>
    rw [peer_queueMessage, peer_setPeer, if_pos rfl] at unchoked
    obtain ⟨before, offers | kept⟩ := told known notes unchoked
    · exact ⟨before, .inl offers⟩
    · exact ⟨before, .inr fun busy => (kept busy).queueMessage ..⟩
  | unchoked id => exact absurd (.inl id) quiet
  | delivered delivers => exact absurd (.inr ⟨delivers.id, delivers.long⟩) quiet

section
variable {setup : Setup} {session next : Session ι} {sender connection : ι} {msg : PeerMessage}
  {order : IterationOrder} {results : List SliceResult}
  {history : List (Machine.Transition (Session ι) (Event ι))} (served : Served history session)
include served

theorem Served.greeting_setState {state : ConnectionState} (other : state ≠ .handshakeSent)
    (waits : ((session.setState sender state).connections connection).state = .handshakeSent) :
    ((session.setState sender state).peer connection).peerChoking = true := by
  rw [state_setState] at waits
  rw [peer_setState]
  split at waits
  · exact absurd waits other
  · exact served.greeting connection waits

theorem Served.handshake (sent : (session.connections sender).state = .handshakeSent) :
    Served (⟨session, .handshake sender, session.setState sender .connected⟩ :: history)
      (session.setState sender .connected) := by
  constructor
  · intro connection waits
    exact served.greeting_setState (by decide) waits
  · intro connection connected unchoked
    rw [peer_setState] at unchoked
    rw [state_setState] at connected
    split at connected
    · -- Until now the peer was choking.
      rename_i same
      subst same
      rw [served.greeting _ sent] at unchoked
      cases unchoked
    · exact (served.busy connection connected unchoked).imp
        (fun woken => woken.cons not_schedulesFor_handshake)
        fun busy => busy.frame (.inl rfl) rfl (by rw [peer_setState])

theorem Served.disconnect {next : Session ι}
    (closed : next = { session.setState sender .disconnected with
      wire := .closed sender :: session.wire }) :
    Served (⟨session, .disconnect sender, next⟩ :: history) next := by
  have peers : ∀ connection, next.peer connection = session.peer connection := by
    intro connection
    rw [closed]
    exact peer_setState ..
  have states : ∀ connection, (next.connections connection).state =
      if connection = sender then .disconnected else (session.connections connection).state := by
    intro connection
    rw [closed]
    exact state_setState ..
  constructor
  · intro connection waits
    rw [closed] at waits ⊢
    exact served.greeting_setState (by decide) waits
  · intro connection connected unchoked
    rw [peers] at unchoked
    rw [states] at connected
    split at connected
    · cases connected
    · refine (served.busy connection connected unchoked).imp
        (fun woken => woken.cons not_schedulesFor_disconnect) fun busy => ?_
      have wire : next.wire = .closed sender :: session.wire := by rw [closed]
      exact busy.frame (.inr ⟨_, wire, fun request => not_answers_closed _ _ _⟩) (by rw [closed]; rfl)
        (by rw [peers])

theorem Served.busy_sender (regular : Regular setup session.pieces)
    (connected : (session.connections sender).state = .connected)
    (handles : Handles setup order results (session.record sender msg) sender msg next)
    (unchoked : (next.peer sender).peerChoking = false) :
    Woken sender (⟨session, .message sender msg order results, next⟩ :: history) ∨
      Busy next sender := by
  by_cases schedules : Schedules msg
  · exact .inr (busy_of_schedules regular connected schedules handles unchoked)
  · obtain ⟨before, offers | kept⟩ := busy_of_quiet schedules handles unchoked
    · exact .inl (woken_now (.offered offers) history)
    · refine (served.busy sender connected before).imp (fun woken => woken.cons ?_) kept
      rw [schedulesFor_message]
      exact fun leads => schedules leads.2

theorem Served.busy_other (different : sender ≠ connection)
    (connected : (session.connections connection).state = .connected)
    (handles : Handles setup order results (session.record sender msg) sender msg next)
    (unchoked : (next.peer connection).peerChoking = false) :
    Woken connection (⟨session, .message sender msg order results, next⟩ :: history) ∨
      Busy next connection := by
  rw [peer_of_handles handles different] at unchoked
  rcases served.busy connection connected unchoked with woken | busy
  · refine .inl (woken.cons ?_)
    rw [schedulesFor_message]
    exact fun leads => different leads.1
  · rcases busy.handles different handles with ⟨_, _, _, delivers, finishes⟩ | now
    · exact .inl (woken_now (.finished different delivers finishes) history)
    · exact .inr now

theorem Served.message (regular : Regular setup session.pieces)
    (connectedSender : (session.connections sender).state = .connected)
    (handles : Handles setup order results (session.record sender msg) sender msg next) :
    Served (⟨session, .message sender msg order results, next⟩ :: history) next := by
  constructor
  · intro connection waits
    rw [state_of_handles handles] at waits
    -- The sender is connected, so it is another connection that waits.
    have different : sender ≠ connection := by
      rintro rfl
      rw [connectedSender] at waits
      cases waits
    rw [peer_of_handles handles different]
    exact served.greeting connection waits
  · intro connection connected unchoked
    rw [state_of_handles handles] at connected
    by_cases same : sender = connection
    · subst same
      exact served.busy_sender regular connected handles unchoked
    · exact served.busy_other same connected handles unchoked

theorem Served.step {event : Event ι} (regular : Regular setup session.pieces)
    (taken : step setup session event = some next) :
    Served (⟨session, event, next⟩ :: history) next := by
  cases steps_of_step taken with
  | handshake sent => exact served.handshake sent
  | disconnect => exact served.disconnect rfl
  | message connected handles => exact served.message regular connected handles

end

theorem Runs.served {setup : Setup} {start final : Session ι}
    {history : List (Machine.Transition (Session ι) (Event ι))}
    (runs : Runs setup start history final) : Served history final := by
  apply runs.2.invariant_of_history Served
  · constructor
    · intro connection waits
      rw [runs.1.fresh]
    · intro connection connected
      exact absurd connected (runs.1.waiting connection)
  · intro history session event next run served taken
    exact served.step (Runs.regular ⟨runs.1, run⟩) taken

/-- No request on the connection is unanswered. -/
def Idle (session : Session ι) (connection : ι) : Prop :=
  ∀ request since, BlockRequest.Fits request → ¬ Outstanding session.wire connection request since

/-- An idle connection that may send blocks has nothing to be asked for, unless a
step that may have created work for it came after the session last looked. -/
theorem idle_exhausted_or_woken {setup : Setup} {start final : Session ι}
    {history : List (Machine.Transition (Session ι) (Event ι))} {connection : ι}
    (runs : Runs setup start history final)
    (connected : (final.connections connection).state = .connected)
    (unchoked : (final.peer connection).peerChoking = false) (idle : Idle final connection)
    (blocks : ¬ final.pieces.Blockless) :
    Woken connection history ∨ ∀ order,
      createNextRequest order final.pieces (final.peer connection) = (final.pieces, none) := by
  rcases runs.served.busy connection connected unchoked with woken | pending | exhausted | blockless
  · exact .inl woken
  · obtain ⟨request, since, fits, outstanding⟩ := pending
    exact absurd outstanding (idle request since fits)
  · exact .inr (createNextRequest_of_exhausted exhausted)
  · exact absurd blockless blocks

/-- Whether the entry is a request queued on the connection. -/
def asks (connection : ι) : Wire ι → Bool
  | .queued other msg => other = connection && msg.id = .request
  | _ => false

theorem idle_of_unasked {session : Session ι} {connection : ι}
    (unasked : session.wire.any (asks connection) = false) : Idle session connection := by
  rintro request since - ⟨⟨earlier, split⟩, -⟩
  have absent := List.any_eq_false.mp unasked (.queued connection request.message)
    (by rw [split]; exact List.mem_append_right _ (List.mem_cons_self ..))
  simp [asks, BlockRequest.message] at absent

/-- A connection that was unchoked before it said what it has. -/
theorem idle_exhausted_or_woken_oneByte :
    ∃ history final, Runs oneByte (waiting oneByte) history final ∧
      (Woken true history ∨ ∀ order,
        createNextRequest order final.pieces (final.peer true) = (final.pieces, none)) := by
  have runs := runs_of_replay oneByte [.handshake true, receive true ⟨.unchoke, []⟩] rfl
  refine ⟨_, _, runs, idle_exhausted_or_woken runs rfl rfl (idle_of_unasked (by decide +kernel)) ?_⟩
  rintro ⟨_, _, found, -⟩
  cases found

/-- An idle connection that may send blocks and has something to be asked for. -/
structure Forgotten (session : Session ι) (connection : ι) : Prop where
  connected : (session.connections connection).state = .connected
  unchoked : (session.peer connection).peerChoking = false
  idle : Idle session connection
  work : (createNextRequest inOrder session.pieces (session.peer connection)).2 ≠ none

/-- Two pieces, the first of `2 ^ 32 - 1` bytes: the number of its blocks wraps to zero. -/
def hugePiece : Setup :=
  { oneByte with
    torrent := { oneByte.torrent with
      pieceLength := 2 ^ 32 - 1
      pieces := [oneByteSha1 [], oneByteSha1 [1]]
      length := 2 ^ 32 } }

/-- A `Have` after the `Unchoke`; a piece that fails its hash on a connection that has
choked; and a piece without blocks: each leaves a connection forgotten. -/
theorem connections_forgotten :
    (∃ history final, Runs oneByte (waiting oneByte) history final ∧ Forgotten final true) ∧
      (∃ history final, Runs oneByte (waiting oneByte) history final ∧ Forgotten final false) ∧
      ∃ history final, Runs hugePiece (waiting hugePiece) history final ∧ Forgotten final true := by
  refine ⟨⟨_, _, runs_of_replay oneByte [.handshake true, receive true ⟨.unchoke, []⟩,
      receive true ⟨.havePiece, [0, 0, 0, 0]⟩] rfl, ?_⟩,
    ⟨_, _, runs_of_replay oneByte [.handshake true, .handshake false,
      receive true ⟨.bitfield, [128]⟩, receive false ⟨.bitfield, [128]⟩,
      receive true ⟨.unchoke, []⟩, receive false ⟨.unchoke, []⟩,
      receive true ⟨.choke, []⟩, receive true (blockMessage 0 0 [2])] rfl, ?_⟩,
    ⟨_, _, runs_of_replay hugePiece [.handshake true, receive true ⟨.bitfield, [192]⟩,
      receive true ⟨.unchoke, []⟩] rfl, ?_⟩⟩
  · exact ⟨rfl, rfl, idle_of_unasked (by decide +kernel), by decide +kernel⟩
  · exact ⟨rfl, rfl, idle_of_unasked (by decide +kernel), by decide +kernel⟩
  · exact ⟨rfl, rfl, idle_of_unasked (by decide +kernel), by decide +kernel⟩

end K0Torrent.Session
