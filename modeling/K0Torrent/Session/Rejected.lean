import K0Torrent.Session.Invariant
import K0Torrent.Disk.Stored

/-! What a block that the piece manager rejects does to the files.

`write_block` is called before `process_block` decides, so the block is written
in any case.
-/

set_option autoImplicit false

namespace K0Torrent.Session

open PieceManager FileStore

variable {ι : Type} [DecidableEq ι]

theorem processBlock_of_rejects {manager : PieceManager} {pieceIndex blockOffset : Nat}
    (rejects : manager.Rejects pieceIndex blockOffset) (sha1 : Bytes → Digest) (data : Bytes) :
    processBlock sha1 manager pieceIndex blockOffset data = (manager, false) := by
  have processed := processBlock_processes sha1 manager pieceIndex blockOffset data
  generalize processBlock sha1 manager pieceIndex blockOffset data = result at processed
  obtain ⟨next, done⟩ := result
  cases processed with
  | rejected => rfl
  | recorded takes => exact absurd takes (rejects _ _ _)
  | completed takes => exact absurd takes (rejects _ _ _)
  | failed takes => exact absurd takes (rejects _ _ _)

/-- The block of a message is written, whatever the manager makes of it. -/
theorem disk_of_piece {setup : Setup} {session next : Session ι} {connection : ι}
    {msg : PeerMessage} {order : IterationOrder} {results : List SliceResult}
    (id : msg.id = .piece)
    (taken : step setup session (.message connection msg order results) = some next) :
    next.disk =
      if msg.payload.length ≤ 8 then session.disk
      else setup.disk.writeBlock session.disk (readU32At msg.payload 0) (readU32At msg.payload 4)
        (msg.payload.drop 8) results := by
  obtain ⟨msgId, payload⟩ := msg
  cases id
  simp only [step] at taken
  split at taken
  · cases taken
    simp only [onPeerMessage]
    split
    · rfl
    · rw [disk_requestNextBlocks]
  · cases taken

/-- A rejected block leaves the piece manager as it is. With the put areas counted in, it leaves the
files as they are exactly when it is too short to be looked at, or every position of a file that it
reaches already holds the byte it puts there last. By themselves they stay as they are when what is
passed on to them is there already. -/
theorem rejected_contents_iff {setup : Setup} {session next : Session ι} {connection : ι}
    {msg : PeerMessage} {order : IterationOrder} {results : List SliceResult}
    (id : msg.id = .piece)
    (taken : step setup session (.message connection msg order results) = some next)
    (rejects : session.pieces.Rejects (readU32At msg.payload 0) (readU32At msg.payload 4)) :
    processBlock setup.sha1 session.pieces (readU32At msg.payload 0) (readU32At msg.payload 4)
        (msg.payload.drop 8) = (session.pieces, false) ∧
      (next.disk.contents = session.disk.contents ↔
        msg.payload.length ≤ 8 ∨
          ∀ cell byte, lastPut cell (setup.disk.blockParts session.disk (readU32At msg.payload 0)
            (readU32At msg.payload 4) (msg.payload.drop 8) results) = some byte →
            session.disk.contents.at cell = some byte) ∧
      (next.disk.stored = session.disk.stored ↔
        msg.payload.length ≤ 8 ∨
          ∀ cell byte, lastPut cell (setup.disk.passedBlock session.disk (readU32At msg.payload 0)
            (readU32At msg.payload 4) (msg.payload.drop 8) results) = some byte →
            session.disk.stored.at cell = some byte) := by
  refine ⟨processBlock_of_rejects rejects _ _, ?_⟩
  rw [disk_of_piece id taken]
  by_cases short : msg.payload.length ≤ 8
  · simp only [short, if_true, true_or, and_self]
  · simp only [short, if_false, false_or]
    rw [DiskManager.contents_writeBlock, DiskManager.stored_writeBlock]
    exact ⟨storeAll_eq_self_iff 0 _ _, storeAll_eq_self_iff 0 _ _⟩

/-- A block that nobody asked for, on a new connection. -/
theorem rejected_contents_oneByte :
    ∃ session next, step oneByte session (receive true (blockMessage 0 0 [2])) = some next ∧
      (next.disk.contents = session.disk.contents ↔ (blockMessage 0 0 [2]).payload.length ≤ 8 ∨
        ∀ cell byte, lastPut cell (oneByte.disk.blockParts session.disk 0 0 [2] []) = some byte →
          session.disk.contents.at cell = some byte) := by
  let session : Session Bool := { waiting oneByte with connections := fun _ => { state := .connected } }
  have rejects : session.pieces.Rejects 0 0 := fun active k block takes => nomatch takes.at_.found
  have stored :=
    @rejected_contents_iff _ _ oneByte session _ true (blockMessage 0 0 [2]) inOrder [] rfl rfl rejects
  exact ⟨session, _, rfl, stored.2.1⟩

/-- It is rejected and stored all the same. -/
theorem rejected_block_stored :
    ∃ history session next,
      Runs oneByte (waiting oneByte) history session ∧
      session.pieces.Rejects 0 0 ∧
      processBlock oneByte.sha1 session.pieces 0 0 [2] = (session.pieces, false) ∧
      step oneByte session (receive true (blockMessage 0 0 [2])) = some next ∧
      session.disk.contents (oneByte.disk.file (ascii "a")) = [] ∧
      next.disk.contents (oneByte.disk.file (ascii "a")) = [2] ∧
      next.disk.stored (oneByte.disk.file (ascii "a")) = [2] := by
  refine ⟨_, _, _, runs_of_replay oneByte [.handshake true] rfl, ?_, rfl, rfl, rfl, by decide,
    by decide⟩
  exact fun active k block takes => nomatch takes.at_.found

end K0Torrent.Session
