import K0Torrent.Session.Owners
import K0Torrent.Session.Storage

/-! What a failed write does to the progress of a download.

`write_block` reports a failed stream to the log only, and an exception it throws
is caught and logged, so a block is recorded whether it was written or not. What the
streams keep in their put areas is in no file yet, and a later flush of it may fail.
-/

set_option autoImplicit false

namespace K0Torrent.Session

open PieceManager DiskManager

variable {ι : Type}

/-- No operation of the write fails, the streams pass on what they take, and all of the block has
a place in the files. -/
structure Stores (setup : Setup) (disk : Disk) (pieceIndex : Nat) (block : Block) (data : Bytes)
    (results : List SliceResult) : Prop where
  succeed : Succeed results
  pass : PassOn results
  streams : ∀ slice ∈ setup.disk.slicesOf pieceIndex block.offset data,
    disk.openFiles slice.filePath ≠ some .failed
  long : block.length ≤ data.length
  mapped : ∀ k < block.length,
    locate setup.disk.fileMap.files (setup.disk.globalOffset pieceIndex block.offset + k) ≠ none

/-- The step has brought every byte of the block into its place in a file. -/
inductive Wrote (setup : Setup) (pieceIndex : Nat) (block : Block) :
    Machine.Transition (Session ι) (Event ι) → Prop where
  | intro {before after : Session ι} {event : Event ι} {results : List SliceResult}
      (carries : Carries event pieceIndex block.offset block.data results)
      (stored : ∀ k < block.length, ∃ cell byte,
        locate setup.disk.fileMap.files (setup.disk.globalOffset pieceIndex block.offset + k) =
          some cell ∧ block.data[k]? = some byte ∧
        ∃ part ∈ setup.disk.passedParts (setup.disk.slicesOf pieceIndex block.offset block.data)
            block.data results before.disk, part.itemAt cell = some byte) :
      Wrote setup pieceIndex block ⟨before, event, after⟩

theorem wrote_of_stores {setup : Setup} {before after : Session ι} {event : Event ι}
    {pieceIndex : Nat} {block : Block} {data : Bytes} {results : List SliceResult}
    (carries : Carries event pieceIndex block.offset data results)
    (stores : Stores setup before.disk pieceIndex block data results) :
    Wrote setup pieceIndex (block.fill data) ⟨before, event, after⟩ := by
  refine @Wrote.intro _ _ _ _ _ _ _ results carries fun k bound => ?_
  have inside : k < data.length := Nat.lt_of_lt_of_le bound stores.long
  obtain ⟨cell, located⟩ := Option.ne_none_iff_exists'.mp (stores.mapped k bound)
  refine ⟨cell, data[k], located, List.getElem?_eq_getElem inside, ?_⟩
  have cells := span_of_locate
    (fun j (before_ : j ≤ k) => stores.mapped j (Nat.lt_of_le_of_lt before_ bound)) inside
  rw [located, ← cells_mapBlock] at cells
  obtain ⟨part, member, put⟩ := Brought.mem_wholeParts
    (setup.disk.slicesOf pieceIndex block.offset data) ⟨k, cells, List.getElem?_eq_getElem inside⟩
  exact ⟨part, mem_passedParts_of_pass _ stores.succeed stores.pass stores.streams part member, put⟩

/-- The block is the last of its piece, and the piece fails its hash with this data. -/
structure FailsHash (setup : Setup) (pieceIndex : Nat) (active : ActivePiece) (k : Nat)
    (data : Bytes) : Prop where
  last : active.blocksDownloaded + 1 = active.totalBlocks
  unverified : setup.torrent.pieces[pieceIndex]? ≠
    some (setup.sha1 (completedPiece (filled active k data)))

/-- Whatever the event delivers for a waiting block is stored as a whole, or
discarded with the whole piece. -/
def Guarded (setup : Setup) (session : Session ι) (event : Event ι) : Prop :=
  ∀ pieceIndex blockOffset data results active k block,
    Carries event pieceIndex blockOffset data results →
    session.pieces.Takes pieceIndex blockOffset active k block →
    Stores setup session.disk pieceIndex block data results ∨
      FailsHash setup pieceIndex active k data

/-- A completed piece, from blocks that were all written. -/
def WroteAll (setup : Setup) (pieceIndex : Nat)
    (history : List (Machine.Transition (Session ι) (Event ι))) : Prop :=
  ∃ blocks, blocks.map Block.shape =
      (initActivePiece setup.torrent pieceIndex).blocks.map Block.shape ∧
    setup.torrent.pieces[pieceIndex]? = some (setup.sha1 (completedPiece blocks)) ∧
    ∀ block ∈ blocks, ∃ transition ∈ history, Wrote setup pieceIndex block transition

/-- Nothing counts as progress that was not written. -/
structure Backed (setup : Setup) (history : List (Machine.Transition (Session ι) (Event ι)))
    (pieces : PieceManager) : Prop where
  downloaded : ∀ pieceIndex active k block, pieces.BlockAt pieceIndex active k block →
    block.state = .downloaded → ∃ transition ∈ history, Wrote setup pieceIndex block transition
  completed : ∀ pieceIndex, pieces.picker.isCompleted pieceIndex = true →
    WroteAll setup pieceIndex history

section
variable {setup : Setup} {history : List (Machine.Transition (Session ι) (Event ι))}
  {pieces next : PieceManager}

theorem Backed.cons (backed : Backed setup history pieces)
    (transition : Machine.Transition (Session ι) (Event ι)) :
    Backed setup (transition :: history) pieces where
  downloaded pieceIndex active k block at_ downloaded := by
    obtain ⟨cause, member, wrote⟩ := backed.downloaded pieceIndex active k block at_ downloaded
    exact ⟨cause, List.mem_cons_of_mem _ member, wrote⟩
  completed pieceIndex completed := by
    obtain ⟨blocks, shapes, verified, all⟩ := backed.completed pieceIndex completed
    refine ⟨blocks, shapes, verified, fun block inside => ?_⟩
    obtain ⟨cause, member, wrote⟩ := all block inside
    exact ⟨cause, List.mem_cons_of_mem _ member, wrote⟩

theorem Backed.requests (backed : Backed setup history pieces) (requests : pieces.Requests next) :
    Backed setup history next where
  downloaded pieceIndex active k block at_ downloaded := by
    obtain ⟨active', old⟩ := requests.downloaded at_ downloaded
    exact backed.downloaded pieceIndex active' k block old downloaded
  completed pieceIndex completed := by
    rw [requests.picker] at completed
    exact backed.completed pieceIndex completed

end

theorem Backed.processes {setup : Setup} {before after : Session ι} {event : Event ι}
    {history : List (Machine.Transition (Session ι) (Event ι))} {next : PieceManager}
    {pieceIndex blockOffset : Nat} {data : Bytes} {results : List SliceResult} {done : Bool}
    (backed : Backed setup history before.pieces) (regular : Regular setup before.pieces)
    (guarded : Guarded setup before event)
    (carries : Carries event pieceIndex blockOffset data results)
    (processes : before.pieces.Processes setup.sha1 pieceIndex blockOffset data next done) :
    Backed setup (⟨before, event, after⟩ :: history) next := by
  -- A block that stays was written: the guard leaves no other way.
  have written : ∀ {active k block}, before.pieces.Takes pieceIndex blockOffset active k block →
      ¬ FailsHash setup pieceIndex active k data →
      Wrote setup pieceIndex (block.fill data) ⟨before, event, after⟩ := by
    intro active k block takes kept
    rcases guarded _ _ _ _ _ _ _ carries takes with stores | fails
    · have here := takes.offset
      subst here
      exact wrote_of_stores carries stores
    · exact absurd fails kept
  have earlier := backed.cons ⟨before, event, after⟩
  constructor
  · intro other active k block at_ downloaded
    rcases processes.blockAt regular.sound at_ with
      ⟨active', old, -⟩ | ⟨rfl, active', origin, takes, more, rfl⟩ | ⟨-, missing⟩
    · exact earlier.downloaded other active' k block old downloaded
    · exact ⟨_, List.mem_cons_self .., written takes fun fails => more fails.last⟩
    · rw [missing] at downloaded
      cases downloaded
  · intro other completed
    rcases processes.isCompleted regular.sound completed with
      old | ⟨rfl, active, k, block, takes, last, verified⟩
    · exact earlier.completed other old
    · rw [regular.torrent] at verified
      have wellFormed := regular.sound.wellFormed takes.at_.found
      refine ⟨filled active k data, ?_, verified, fun block' member => ?_⟩
      · rw [← regular.torrent]
        exact shapes_filled wellFormed data
      · have downloaded := downloaded_of_last wellFormed takes.at_.at_ takes.open_ data last member
        obtain ⟨j, found⟩ := List.mem_iff_getElem?.mp member
        rcases getElem?_modify_cases found with ⟨rfl, origin, here, rfl⟩ | ⟨-, here⟩
        · cases here.symm.trans takes.at_.at_
          exact ⟨_, List.mem_cons_self .., written takes fun fails => fails.unverified verified⟩
        · exact earlier.downloaded other active j block' ⟨takes.at_.found, here⟩ downloaded

variable [DecidableEq ι]

theorem Backed.step {setup : Setup} {session next : Session ι} {event : Event ι}
    {history : List (Machine.Transition (Session ι) (Event ι))}
    (backed : Backed setup history session.pieces) (regular : Regular setup session.pieces)
    (guarded : Guarded setup session event) (taken : step setup session event = some next) :
    Backed setup (⟨session, event, next⟩ :: history) next.pieces := by
  cases moves_of_step taken with
  | quiet _ _ requests => exact (backed.cons _).requests requests
  | stored carries processes _ requests =>
    exact (backed.processes regular guarded carries processes).requests requests

end K0Torrent.Session
