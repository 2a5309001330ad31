import K0Torrent.Disk.Origin
import K0Torrent.Session.Storage

/-! Where the bytes of the files come from, over whole runs.

A byte that a session has put into a file came in a message, for that very place. The session
makes up none but the zeros of a gap, and leaves what is not the torrent's.
-/

set_option autoImplicit false

namespace K0Torrent.Session

open LexicalPath FileStore

variable {ι : Type}

/-- A message that has come in had the byte in its block, for this cell. -/
def Received (setup : Setup) (session : Session ι) (cell : Place Bytes × Nat) (byte : UInt8) : Prop :=
  ∃ connection msg pieceIndex blockOffset data, .received connection msg ∈ session.wire ∧
    Delivers msg pieceIndex blockOffset data ∧
    setup.disk.Brings pieceIndex blockOffset data cell byte

/-- Files, against what they held at the start. -/
structure Traced (setup : Setup) (session : Session ι) (start files : Files (Place Bytes) UInt8) :
    Prop where
  outside : ∀ cell byte, ¬ setup.disk.Reaches cell → start.at cell = some byte →
    files.at cell = some byte
  kept : ∀ cell, start.at cell ≠ none → files.at cell ≠ none
  origin : ∀ cell byte, files.at cell = some byte →
    start.at cell = some byte ∨ Received setup session cell byte ∨
      byte = 0 ∧ start.at cell = none ∧ setup.disk.Reaches cell

theorem traced_start (setup : Setup) (session : Session ι) (start : Files (Place Bytes) UInt8) :
    Traced setup session start start where
  outside _ _ _ stored := stored
  kept _ stored := stored
  origin _ _ stored := .inl stored

/-! ## What has come in -/

section
variable {setup : Setup} {session next : Session ι} {connection : ι}

theorem wire_subset_queueMessage (session : Session ι) (connection : ι) (msg : PeerMessage) :
    session.wire ⊆ (session.queueMessage connection msg).wire := by
  rw [wire_queueMessage]
  split
  · exact List.subset_cons_self _ _
  · exact List.Subset.refl _

theorem wire_subset_requestNextBlocks (order : IterationOrder) (session : Session ι)
    (connection : ι) : session.wire ⊆ (requestNextBlocks order session connection).wire := by
  apply requestNextBlocks_induct fun next => session.wire ⊆ next.wire
  · intro current pieces request earlier _
    cases request with
    | none => exact earlier
    | some request => exact List.Subset.trans earlier (wire_subset_queueMessage { current with pieces } _ _)
  · exact List.Subset.refl _

variable [DecidableEq ι]

theorem wire_subset_of_handles {order : IterationOrder} {results : List SliceResult}
    {msg : PeerMessage} (handles : Handles setup order results session connection msg next) :
    session.wire ⊆ next.wire := by
  cases handles with
  | noted => exact List.Subset.refl _
  | @greeted peer =>
    exact wire_subset_queueMessage (session.setPeer connection peer) connection interested
  | unchoked =>
    exact wire_subset_requestNextBlocks order (session.setPeer connection _) connection
  | @delivered pieceIndex blockOffset data pieces done =>
    exact wire_subset_requestNextBlocks order { session with disk := _, pieces } connection

theorem wire_subset_of_step {event : Event ι} (taken : step setup session event = some next) :
    session.wire ⊆ next.wire := by
  cases steps_of_step taken with
  | handshake => exact List.Subset.refl _
  | message connected handles =>
    exact List.Subset.trans (List.subset_cons_self _ _) (wire_subset_of_handles handles)
  | disconnect => exact List.subset_cons_self _ _

/-- A message that is handled has come in. -/
theorem received_of_step {msg : PeerMessage} {order : IterationOrder} {results : List SliceResult}
    (taken : step setup session (.message connection msg order results) = some next) :
    .received connection msg ∈ next.wire := by
  cases steps_of_step taken with
  | message connected handles => exact wire_subset_of_handles handles (List.mem_cons_self ..)

theorem Received.of_step {event : Event ι} (taken : step setup session event = some next)
    {cell : Place Bytes × Nat} {byte : UInt8} (received : Received setup session cell byte) :
    Received setup next cell byte := by
  obtain ⟨connection, msg, pieceIndex, blockOffset, data, came, delivers, brings⟩ := received
  exact ⟨connection, msg, pieceIndex, blockOffset, data, wire_subset_of_step taken came, delivers,
    brings⟩

end

/-! ## Runs -/

section
variable [DecidableEq ι] {setup : Setup} {session next : Session ι}

theorem Traced.later {start files : Files (Place Bytes) UInt8} {event : Event ι}
    (traced : Traced setup session start files) (taken : step setup session event = some next) :
    Traced setup next start files where
  outside := traced.outside
  kept := traced.kept
  origin cell byte stored :=
    (traced.origin cell byte stored).imp_right (Or.imp_left (Received.of_step taken))

omit [DecidableEq ι] in
/-- Parts that lie in the torrent's files and have come in keep the trace. -/
theorem Traced.storeAll {start files : Files (Place Bytes) UInt8} {parts : List (Part Bytes UInt8)}
    (traced : Traced setup session start files) (inMap : ∀ part ∈ parts, setup.disk.InMap part)
    (came : ∀ part ∈ parts, ∀ cell byte, part.itemAt cell = some byte →
      Received setup session (setup.disk.place cell) byte) :
    Traced setup session start (storeAll 0 (parts.map setup.disk.onDisk) files) where
  outside cell byte outside stored :=
    DiskManager.at_storeAll_of_outside inMap outside (traced.outside cell byte outside stored)
  kept cell stored := at_storeAll_ne_none 0 _ _ (traced.kept cell stored)
  origin cell byte stored := by
    rcases DiskManager.at_storeAll_parts inMap stored with
      old | ⟨part, member, source, rfl, value⟩ | ⟨zero, empty, reaches⟩
    · exact traced.origin cell byte old
    · exact .inr (.inl (came part member source byte value))
    · refine .inr (.inr ⟨zero, ?_, reaches⟩)
      by_contra held
      exact traced.kept cell held empty

/-- The bytes that are in the files, and those on their way there. -/
structure Accounted (setup : Setup) (start : Disk) (session : Session ι) : Prop where
  tidy : setup.disk.Tidy session.disk
  pending : ∀ cell byte, session.disk.pending cell = some byte →
    Received setup session (setup.disk.place cell) byte
  contents : Traced setup session start.contents session.disk.contents
  stored : Traced setup session start.stored session.disk.stored

omit [DecidableEq ι] in
theorem Initial.accounted (initial : Initial setup session) :
    Accounted setup session.disk session where
  tidy := DiskManager.tidy_of_unopened initial.unopened
  pending cell byte pends := by
    rw [pending_of_unopened _ (initial.unopened _)] at pends
    cases pends
  contents := traced_start setup session _
  stored := traced_start setup session _

theorem Accounted.step {start : Disk} {event : Event ι} (accounted : Accounted setup start session)
    (taken : step setup session event = some next) : Accounted setup start next := by
  have later : ∀ cell byte, session.disk.pending cell = some byte →
      Received setup next (setup.disk.place cell) byte := fun cell byte pends =>
    (accounted.pending cell byte pends).of_step taken
  cases moves_of_step taken with
  | quiet _ files =>
    constructor
    · rw [files]
      exact accounted.tidy
    · rw [files]
      exact later
    · rw [files]
      exact accounted.contents.later taken
    · rw [files]
      exact accounted.stored.later taken
  | @stored pieceIndex blockOffset data results pieces done carries _ files =>
    obtain ⟨delivers⟩ := carries
    have came : ∀ cell byte,
        Brought (setup.disk.slicesOf pieceIndex blockOffset data) data cell byte →
        Received setup next (setup.disk.place cell) byte := fun cell byte brought =>
      ⟨_, _, _, _, _, received_of_step taken, delivers, setup.disk.brings_of_brought brought⟩
    constructor
    · rw [files]
      exact DiskManager.tidy_writeBlock accounted.tidy
    · intro cell byte pends
      rw [files] at pends
      rcases setup.disk.pending_writeSlices_cases _ pends with before | brought
      · exact later cell byte before
      · exact came cell byte brought
    · rw [files, DiskManager.contents_writeBlock]
      exact (accounted.contents.later taken).storeAll
        (fun part member => DiskManager.inMap_accepted member)
        fun part member cell byte put => came cell byte (setup.disk.accepted_cases _ member put)
    · rw [files, DiskManager.stored_writeBlock]
      refine (accounted.stored.later taken).storeAll
        (fun part member => DiskManager.inMap_passed accounted.tidy member) ?_
      intro part member cell byte put
      rcases setup.disk.passed_cases _ member put with before | brought
      · exact later cell byte before
      · exact came cell byte brought

theorem Runs.accounted {start final : Session ι}
    {history : List (Machine.Transition (Session ι) (Event ι))}
    (runs : Runs setup start history final) : Accounted setup start.disk final :=
  runs.2.invariant (Accounted setup start.disk) runs.1.accounted
    fun _ _ _ accounted taken => accounted.step taken

end

end K0Torrent.Session
