import K0Torrent.Session.Invariant

/-! Who was asked for a requested block.

A block is marked as requested in the call that queues the request, and loses the
mark when the block arrives, from whichever connection. So its request is still
unanswered; but nothing takes the mark back when the connection chokes or closes.
-/

set_option autoImplicit false

namespace K0Torrent.Session

open PieceManager

variable {ι : Type}

/-- The message is an answer of the connection to the request. -/
def Answers (connection : ι) (request : BlockRequest) (entry : Wire ι) : Prop :=
  ∃ msg data, entry = .received connection msg ∧ Delivers msg request.piece request.offset data

/-- The request was queued on the connection, and is not among the answers since. -/
def Outstanding (wire : List (Wire ι)) (connection : ι) (request : BlockRequest)
    (since : List (Wire ι)) : Prop :=
  (∃ earlier, wire = since ++ .queued connection request.message :: earlier) ∧
    ∀ entry ∈ since, ¬ Answers connection request entry

theorem Outstanding.cons {wire since : List (Wire ι)} {connection : ι} {request : BlockRequest}
    (outstanding : Outstanding wire connection request since) {entry : Wire ι}
    (other : ¬ Answers connection request entry) :
    Outstanding (entry :: wire) connection request (entry :: since) := by
  obtain ⟨⟨earlier, split⟩, unanswered⟩ := outstanding
  refine ⟨⟨earlier, by rw [split]; rfl⟩, ?_⟩
  intro entry' member
  rcases List.mem_cons.mp member with rfl | before
  · exact other
  · exact unanswered entry' before

theorem not_answers_queued (connection other : ι) (request : BlockRequest) (msg : PeerMessage) :
    ¬ Answers connection request (.queued other msg) := by
  rintro ⟨_, _, same, -⟩
  cases same

theorem not_answers_closed (connection other : ι) (request : BlockRequest) :
    ¬ Answers connection request (.closed other) := by
  rintro ⟨_, _, same, -⟩
  cases same

theorem not_answers_quiet {msg : PeerMessage} (quiet : ¬ Schedules msg) (connection other : ι)
    (request : BlockRequest) : ¬ Answers connection request (.received other msg) := by
  rintro ⟨_, _, same, delivers⟩
  cases same
  exact quiet (.inr ⟨delivers.id, delivers.long⟩)

theorem not_answers_unchoke {msg : PeerMessage} (id : msg.id = .unchoke) (connection other : ι)
    (request : BlockRequest) : ¬ Answers connection request (.received other msg) := by
  rintro ⟨_, _, same, delivers⟩
  cases same
  rw [delivers.id] at id
  cases id

/-- After the entry the connection is not expected to answer. -/
def Stops (connection : ι) (entry : Wire ι) : Prop :=
  entry = .closed connection ∨ ∃ msg, entry = .received connection msg ∧ msg.id = .choke

/-- Some connection was asked for the block and has not answered, and it is still
connected unless it was closed since. -/
def Asked (session : Session ι) (request : BlockRequest) : Prop :=
  ∃ connection since, Outstanding session.wire connection request since ∧
    ((session.connections connection).state = .connected ∨ .closed connection ∈ since)

def AllAsked (session : Session ι) : Prop :=
  ∀ pieceIndex active k block, session.pieces.BlockAt pieceIndex active k block →
    block.state = .requested → Asked session ⟨pieceIndex, block.offset, block.length⟩

/-- An entry that is no answer, and closes no other connection than it says, leaves requests unanswered. -/
theorem Asked.cons {session next : Session ι} {request : BlockRequest}
    (asked : Asked session request) (entry : Wire ι) (wire : next.wire = entry :: session.wire)
    (states : ∀ connection, (session.connections connection).state = .connected →
      (next.connections connection).state = .connected ∨ entry = .closed connection)
    (other : ∀ connection, ¬ Answers connection request entry) : Asked next request := by
  obtain ⟨connection, since, outstanding, live⟩ := asked
  refine ⟨connection, entry :: since, wire ▸ outstanding.cons (other connection), ?_⟩
  rcases live with connected | closed
  · rcases states connection connected with still | rfl
    · exact .inl still
    · exact .inr (List.mem_cons_self ..)
  · exact .inr (List.mem_cons_of_mem _ closed)

theorem Asked.same {session next : Session ι} {request : BlockRequest}
    (asked : Asked session request) (wire : next.wire = session.wire)
    (states : ∀ connection, (session.connections connection).state = .connected →
      (next.connections connection).state = .connected) : Asked next request := by
  obtain ⟨connection, since, outstanding, live⟩ := asked
  exact ⟨connection, since, wire ▸ outstanding, live.imp (states connection) id⟩

theorem Asked.queueMessage {session : Session ι} {request : BlockRequest}
    (asked : Asked session request) (sender : ι) (msg : PeerMessage) :
    Asked (session.queueMessage sender msg) request := by
  by_cases up : (session.connections sender).state = .connected
  · refine asked.cons (.queued sender msg) ((wire_queueMessage ..).trans (if_pos up)) ?_
      fun other => not_answers_queued _ _ _ _
    intro other still
    rw [connections_queueMessage]
    exact .inl still
  · refine asked.same ((wire_queueMessage ..).trans (if_neg up)) ?_
    intro other still
    rw [connections_queueMessage]
    exact still

theorem Asked.issue {session : Session ι} {request : BlockRequest} (asked : Asked session request)
    (connection : ι) (pieces : PieceManager) (created : Option BlockRequest) :
    Asked (session.issue connection pieces created) request := by
  cases created with
  | none => exact asked
  | some created => exact @Asked.queueMessage _ { session with pieces } _ asked _ _

/-! ## Requests -/

/-- On a connection that is up, a request is queued with the mark on its block. -/
theorem AllAsked.issue {session : Session ι} {connection : ι} {pieces : PieceManager}
    {request : Option BlockRequest} (asked : AllAsked session)
    (connected : (session.connections connection).state = .connected)
    (creates : session.pieces.Creates (session.peer connection) pieces request) :
    AllAsked (session.issue connection pieces request) := by
  intro pieceIndex active k block at_ requested
  rw [pieces_issue] at at_
  rcases creates.blockAt at_ with ⟨active', old⟩ | ⟨before, -, -, rfl, -⟩ | ⟨-, missing⟩
  · exact (asked _ _ _ _ old requested).issue ..
  · -- The request is the latest entry, so nothing has answered it.
    refine ⟨connection, [], ⟨⟨session.wire, ?_⟩, nofun⟩, .inl ?_⟩
    · exact wire_issue _ _ _ _ connected
    · rw [connections_issue]
      exact connected
  · rw [missing] at requested
    cases requested

theorem AllAsked.requestNextBlocks {order : IterationOrder} {session : Session ι} {connection : ι}
    (asked : AllAsked session)
    (connected : (session.connections connection).state = .connected) :
    AllAsked (requestNextBlocks order session connection) := by
  refine (requestNextBlocks_induct
    (fun next => (next.connections connection).state = .connected ∧ AllAsked next)
    ?_ ⟨connected, asked⟩).2
  rintro current pieces request ⟨up, holds⟩ creates
  exact ⟨by rw [connections_issue]; exact up, holds.issue up creates⟩

theorem AllAsked.queueMessage {session : Session ι} (asked : AllAsked session) (sender : ι)
    (msg : PeerMessage) : AllAsked (session.queueMessage sender msg) := by
  intro pieceIndex active k block at_ requested
  rw [pieces_queueMessage] at at_
  exact (asked _ _ _ _ at_ requested).queueMessage ..

/-! ## Steps and runs -/

theorem Asked.record {session : Session ι} {connection : ι} {msg : PeerMessage}
    {request : BlockRequest} (asked : Asked session request)
    (other : ∀ sender, ¬ Answers sender request (.received connection msg)) :
    Asked (session.record connection msg) request :=
  asked.cons _ rfl (fun _ up => .inl up) other

theorem AllAsked.record {session : Session ι} {connection : ι} {msg : PeerMessage}
    (asked : AllAsked session)
    (other : ∀ sender request, ¬ Answers sender request (.received connection msg)) :
    AllAsked (session.record connection msg) := by
  intro pieceIndex active k block at_ requested
  exact (asked _ _ _ _ at_ requested).record fun sender => other sender _

/-- A block that arrives is downloaded, and answers no request for another one. -/
theorem AllAsked.delivered {setup : Setup} {session : Session ι} {connection : ι}
    {msg : PeerMessage} {pieceIndex blockOffset : Nat} {data : Bytes} {pieces : PieceManager}
    {done : Bool} (asked : AllAsked session) (sound : session.pieces.Sound)
    (delivers : Delivers msg pieceIndex blockOffset data)
    (processes : session.pieces.Processes setup.sha1 pieceIndex blockOffset data pieces done)
    (disk : Disk) :
    AllAsked { session.record connection msg with disk := disk, pieces := pieces } := by
  intro other k block active at_ requested
  rcases processes.blockAt sound at_ with ⟨active', old, apart⟩ | ⟨-, _, _, _, _, rfl⟩ | ⟨-, missing⟩
  · refine ((asked _ _ _ _ old requested).record ?_).same rfl fun _ up => up
    rintro sender ⟨msg', data', same, delivers'⟩
    cases same
    apply apart
    exact ⟨delivers'.piece.symm.trans delivers.piece, delivers'.offset.symm.trans delivers.offset,
      by rw [requested]; nofun⟩
  · cases requested
  · rw [missing] at requested
    cases requested

variable [DecidableEq ι]

theorem AllAsked.setPeer {session : Session ι} (asked : AllAsked session) (connection : ι)
    (known : Peer) : AllAsked (session.setPeer connection known) := by
  intro pieceIndex active k block at_ requested
  exact (asked _ _ _ _ at_ requested).same rfl fun other up => (state_setPeer ..).trans up

theorem AllAsked.handles {setup : Setup} {session next : Session ι} {connection : ι}
    {msg : PeerMessage} {order : IterationOrder} {results : List SliceResult}
    (asked : AllAsked session) (sound : session.pieces.Sound)
    (connected : (session.connections connection).state = .connected)
    (handles : Handles setup order results (session.record connection msg) connection msg next) :
    AllAsked next := by
  cases handles with
  | noted quiet =>
    exact (asked.record fun _ _ => not_answers_quiet quiet _ _ _).setPeer _ _
  | greeted quiet =>
    apply AllAsked.queueMessage
    exact (asked.record fun _ _ => not_answers_quiet quiet _ _ _).setPeer _ _
  | unchoked id =>
    refine AllAsked.requestNextBlocks ?_ ((state_setPeer ..).trans connected)
    exact (asked.record fun _ _ => not_answers_unchoke id _ _ _).setPeer _ _
  | delivered delivers processes =>
    exact (asked.delivered sound delivers processes _).requestNextBlocks connected

theorem AllAsked.step {setup : Setup} {session next : Session ι} {event : Event ι}
    (asked : AllAsked session) (sound : session.pieces.Sound)
    (taken : step setup session event = some next) : AllAsked next := by
  cases steps_of_step taken with
  | handshake sent =>
    intro pieceIndex active k block at_ requested
    refine (asked _ _ _ _ at_ requested).same rfl fun other up => ?_
    rw [state_setState]
    split
    · rfl
    · exact up
  | @disconnect connection =>
    intro pieceIndex active k block at_ requested
    refine (asked _ _ _ _ at_ requested).cons _ rfl (fun other up => ?_)
      fun other => not_answers_closed _ _ _
    by_cases same : other = connection
    · exact .inr (same ▸ rfl)
    · exact .inl ((state_setState ..).trans (by rw [if_neg same]; exact up))
  | message connected handles => exact asked.handles sound connected handles

theorem Runs.allAsked {setup : Setup} {start final : Session ι}
    {history : List (Machine.Transition (Session ι) (Event ι))}
    (runs : Runs setup start history final) : AllAsked final := by
  refine (runs.2.invariant (fun session => Regular setup session.pieces ∧ AllAsked session)
    ⟨runs.1.regular, ?_⟩ ?_).2
  · exact fun pieceIndex active k block at_ => absurd at_ runs.1.inactive
  · rintro session event next ⟨regular, asked⟩ taken
    exact ⟨regular.step taken, asked.step regular.sound taken⟩

/-- Every requested block was asked for on a connection that has not answered
since. Unless that connection has choked or was closed since, it is connected. -/
theorem requested_asked {setup : Setup} {start final : Session ι}
    {history : List (Machine.Transition (Session ι) (Event ι))}
    (runs : Runs setup start history final) {pieceIndex k : Nat} {active : ActivePiece}
    {block : Block} (at_ : final.pieces.BlockAt pieceIndex active k block)
    (requested : block.state = .requested) :
    ∃ connection since,
      Outstanding final.wire connection ⟨pieceIndex, block.offset, block.length⟩ since ∧
        ((∀ entry ∈ since, ¬ Stops connection entry) →
          (final.connections connection).state = .connected) := by
  obtain ⟨connection, since, outstanding, live⟩ := runs.allAsked _ _ _ _ at_ requested
  refine ⟨connection, since, outstanding, fun unstopped => ?_⟩
  rcases live with connected | closed
  · exact connected
  · exact absurd (.inl rfl) (unstopped _ closed)

/-- One seeder of a torrent of one byte, up to its first request. -/
def unchoking : List (Event Bool) :=
  [.handshake true, receive true ⟨.bitfield, [128]⟩, receive true ⟨.unchoke, []⟩]

def requestedBlock : Block := { index := 0, offset := 0, length := 1, state := .requested }

def requestedPiece : ActivePiece :=
  { index := 0, totalBlocks := 1, blocksDownloaded := 0, blocks := [requestedBlock] }

theorem requested_asked_oneByte :
    ∃ history final, Runs oneByte (waiting oneByte) history final ∧
      final.pieces.BlockAt 0 requestedPiece 0 requestedBlock ∧
      ∃ connection since, Outstanding final.wire connection ⟨0, 0, 1⟩ since ∧
        ((∀ entry ∈ since, ¬ Stops connection entry) →
          (final.connections connection).state = .connected) := by
  have runs := runs_of_replay oneByte unchoking rfl
  refine ⟨_, _, runs, ?at_, requested_asked runs ?at_ rfl⟩
  exact ⟨by decide +kernel, rfl⟩

/-- A connection that is expected to answer the request. -/
def LiveOwner (session : Session ι) (request : BlockRequest) (connection : ι) : Prop :=
  (session.connections connection).state = .connected ∧
    ∃ since, Outstanding session.wire connection request since ∧
      ∀ entry ∈ since, ¬ Stops connection entry

/-- After a choke the block stays requested, and nobody is expected to send it. -/
theorem choked_request_orphaned :
    ∃ history final, Runs oneByte (waiting oneByte) history final ∧
      final.pieces.BlockAt 0 requestedPiece 0 requestedBlock ∧
      ¬ ∃ connection, LiveOwner final ⟨0, 0, 1⟩ connection := by
  refine ⟨_, _, runs_of_replay oneByte (unchoking ++ [receive true ⟨.choke, []⟩]) rfl,
    ⟨by decide +kernel, rfl⟩, ?_⟩
  rintro ⟨connection, up, since, ⟨⟨earlier, split⟩, -⟩, unstopped⟩
  cases connection with
  | false => exact absurd up (by decide +kernel)
  | true =>
    cases since with
    | nil => cases split
    | cons entry since =>
      -- The latest entry is the choke.
      obtain ⟨rfl, -⟩ := List.cons.inj split
      exact unstopped _ (List.mem_cons_self ..) (.inr ⟨_, rfl, rfl⟩)

end K0Torrent.Session
