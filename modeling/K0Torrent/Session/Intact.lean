import K0Torrent.Disk.Settled
import K0Torrent.Piece.Geometry
import K0Torrent.Session.Owners
import K0Torrent.Session.Storage

/-! What the files hold of the pieces that were completed.

A piece is verified in memory. Its range has the same data, in the files and the put areas,
as long as no later block overwrites it; it is in the files from when no stream holds any of it.
-/

set_option autoImplicit false

namespace K0Torrent

namespace Session

open PieceManager DiskManager

variable {ι : Type}

/-- The position belongs to a completed piece or a downloaded block. -/
inductive Held (torrent : TorrentFile) (pieces : PieceManager) (position : Nat) : Prop where
  | piece {pieceIndex : Nat} (completed : pieces.picker.isCompleted pieceIndex = true)
      (inside : InPiece torrent pieceIndex position)
  | block {pieceIndex k : Nat} {active : ActivePiece} {block : Block}
      (at_ : pieces.BlockAt pieceIndex active k block) (downloaded : block.state = .downloaded)
      (inside : InBlock torrent pieceIndex block position)

/-- A block that is taken has the length that was asked for, and any other leaves
what is held as it is. -/
structure Careful (setup : Setup) (session : Session ι) (pieceIndex blockOffset : Nat)
    (data : Bytes) : Prop where
  whole : ∀ active k block, session.pieces.Takes pieceIndex blockOffset active k block →
    data.length = block.length
  keeps : ∀ k byte, data[k]? = some byte →
    Held setup.torrent session.pieces (setup.disk.globalOffset pieceIndex blockOffset + k) →
    setup.disk.byteAt session.disk (setup.disk.globalOffset pieceIndex blockOffset + k) = some byte

/-- The files and put areas hold the data of the piece, and it has its hash. -/
def Verified (setup : Setup) (disk : Disk) (pieceIndex : Nat) : Prop :=
  ∃ bytes, setup.disk.heldRange disk (pieceIndex * setup.torrent.pieceWidth)
      (pieceSize setup.torrent pieceIndex) = bytes.map some ∧
    setup.torrent.pieces[pieceIndex]? = some (setup.sha1 bytes)

/-- The block has its data, in memory and on disk. -/
structure Filled (setup : Setup) (disk : Disk) (pieceIndex : Nat) (block : Block) : Prop where
  whole : block.data.length = block.length
  stored : ∀ j byte, block.data[j]? = some byte →
    setup.disk.byteAt disk (pieceIndex * setup.torrent.pieceWidth + block.offset + j) = some byte

structure Holding (setup : Setup) (pieces : PieceManager) (disk : Disk) : Prop where
  streams : ∀ path, disk.openFiles path ≠ some .failed
  tidy : setup.disk.Tidy disk
  downloaded : ∀ pieceIndex active k block, pieces.BlockAt pieceIndex active k block →
    block.state = .downloaded → Filled setup disk pieceIndex block
  completed : ∀ pieceIndex, pieces.picker.isCompleted pieceIndex = true →
    Verified setup disk pieceIndex

theorem Initial.holding {setup : Setup} {start : Session ι} (initial : Initial setup start) :
    Holding setup start.pieces start.disk where
  streams path := by
    rw [initial.unopened]
    nofun
  tidy := tidy_of_unopened initial.unopened
  downloaded pieceIndex active k block at_ := absurd at_ initial.inactive
  completed pieceIndex completed := absurd completed (initial.incomplete pieceIndex)

theorem Holding.requests {setup : Setup} {pieces next : PieceManager} {disk : Disk}
    (holding : Holding setup pieces disk) (requests : pieces.Requests next) :
    Holding setup next disk where
  streams := holding.streams
  tidy := holding.tidy
  downloaded pieceIndex active k block at_ downloaded := by
    obtain ⟨active', old⟩ := requests.downloaded at_ downloaded
    exact holding.downloaded pieceIndex active' k block old downloaded
  completed pieceIndex completed := by
    rw [requests.picker] at completed
    exact holding.completed pieceIndex completed

section
variable {setup : Setup} {session : Session ι} {pieceIndex blockOffset : Nat} {data : Bytes}
  {results : List SliceResult} (addressable : Addressable setup.torrent setup.downloadDir setup.workingDir)
  (regular : Regular setup session.pieces) (holding : Holding setup session.pieces session.disk)
  (succeed : Succeed results) (careful : Careful setup session pieceIndex blockOffset data)
include addressable holding succeed careful

theorem byteAt_of_held {position : Nat} {byte : UInt8}
    (held : Held setup.torrent session.pieces position)
    (stored : setup.disk.byteAt session.disk position = some byte) :
    setup.disk.byteAt (setup.disk.writeBlock session.disk pieceIndex blockOffset data results)
      position = some byte := by
  have covers : setup.disk.Covers setup.torrent.size := addressable.toConsistent.covers
  by_cases inside : setup.disk.globalOffset pieceIndex blockOffset ≤ position ∧
      position < setup.disk.globalOffset pieceIndex blockOffset + data.length
  · obtain ⟨k, rfl⟩ := Nat.exists_eq_add_of_le inside.1
    have bound : k < data.length := by omega
    have written : data[k]? = some data[k] := List.getElem?_eq_getElem bound
    have same := (careful.keeps k _ written held).symm.trans stored
    obtain ⟨cell, located, -⟩ := Option.bind_eq_some_iff.mp stored
    have small := (covers.located _).mp (by rw [Option.ne_none_iff_exists']; exact ⟨cell, located⟩)
    rw [← same]
    exact byteAt_writeBlock_inside covers.separates succeed holding.streams holding.tidy written fun j _ =>
      (covers.located _).mpr (by omega)
  · exact byteAt_writeBlock_outside covers.separates succeed holding.streams holding.tidy (by omega)
      stored

/-- What is in a file of what is held stays there. -/
theorem settled_of_held {position : Nat} (held : Held setup.torrent session.pieces position)
    (settled : setup.disk.Settled session.disk position) :
    setup.disk.Settled (setup.disk.writeBlock session.disk pieceIndex blockOffset data results)
      position := by
  obtain ⟨byte, here, stored⟩ := settled
  refine ⟨byte, byteAt_of_held addressable holding succeed careful held here,
    storedAt_writeBlock addressable.toConsistent.covers.separates holding.tidy here stored
      fun k other same value => ?_⟩
  subst same
  exact Option.some.inj ((careful.keeps k other value held).symm.trans here)

theorem Filled.kept {other k : Nat} {active : ActivePiece} {block : Block}
    (filled : Filled setup session.disk other block)
    (at_ : session.pieces.BlockAt other active k block) (downloaded : block.state = .downloaded) :
    Filled setup (setup.disk.writeBlock session.disk pieceIndex blockOffset data results)
      other block where
  whole := filled.whole
  stored j byte value := by
    have bound := (List.getElem?_eq_some_iff.mp value).1
    rw [filled.whole] at bound
    exact byteAt_of_held addressable holding succeed careful
      (.block at_ downloaded ⟨Nat.le_add_right .., by omega⟩) (filled.stored j byte value)

include regular

theorem filled_of_takes {k : Nat} {active : ActivePiece} {block : Block}
    (takes : session.pieces.Takes pieceIndex blockOffset active k block) :
    Filled setup (setup.disk.writeBlock session.disk pieceIndex blockOffset data results)
      pieceIndex (block.fill data) where
  whole := careful.whole active k block takes
  stored j byte value := by
    have bound := (List.getElem?_eq_some_iff.mp value).1
    change j < data.length at bound
    rw [careful.whole active k block takes] at bound
    have inTorrent := regular.sound.index_lt (regular.sound.bound takes.at_.mem)
    have wellFormed := regular.sound.wellFormed takes.at_.found
    rw [regular.torrent] at inTorrent wellFormed
    have fits : block.offset < 2 ^ 32 := (takes.at_.fits regular.sound).2.1
    have inBlock : InBlock setup.torrent pieceIndex block
        (pieceIndex * setup.torrent.pieceWidth + block.offset + j) :=
      ⟨Nat.le_add_right .., by omega⟩
    have small := InPiece.lt_size addressable inTorrent (inBlock.inPiece wellFormed takes.at_.at_)
    have start : setup.disk.globalOffset pieceIndex blockOffset =
        pieceIndex * setup.torrent.pieceWidth + block.offset := by
      rw [← takes.offset]
      exact globalOffset_eq addressable inTorrent fits
    have covers : setup.disk.Covers setup.torrent.size := addressable.toConsistent.covers
    change setup.disk.byteAt _ (pieceIndex * setup.torrent.pieceWidth + block.offset + j) = _
    rw [← start]
    exact byteAt_writeBlock_inside covers.separates succeed holding.streams holding.tidy value fun k _ =>
      (covers.located _).mpr (by omega)

omit regular in
/-- What is held of a completed piece stays as it is. -/
theorem heldRange_kept {other : Nat} {bytes : Bytes}
    (completed : session.pieces.picker.isCompleted other = true)
    (stored : setup.disk.heldRange session.disk (other * setup.torrent.pieceWidth)
      (pieceSize setup.torrent other) = bytes.map some) :
    setup.disk.heldRange
        (setup.disk.writeBlock session.disk pieceIndex blockOffset data results)
        (other * setup.torrent.pieceWidth) (pieceSize setup.torrent other) = bytes.map some := by
  rw [← stored]
  apply List.map_congr_left
  intro j member
  have bound := List.mem_range.mp member
  obtain ⟨byte, here⟩ := byteAt_of_heldRange stored bound
  rw [here]
  exact byteAt_of_held addressable holding succeed careful
    (.piece completed ⟨Nat.le_add_right .., Nat.add_lt_add_left bound _⟩) here

/-- The last block of a piece leaves all its data on disk. -/
theorem heldRange_of_last {k : Nat} {active : ActivePiece} {block : Block}
    (takes : session.pieces.Takes pieceIndex blockOffset active k block)
    (last : active.blocksDownloaded + 1 = active.totalBlocks) :
    setup.disk.heldRange
        (setup.disk.writeBlock session.disk pieceIndex blockOffset data results)
        (pieceIndex * setup.torrent.pieceWidth) (pieceSize setup.torrent pieceIndex) =
      (completedPiece (filled active k data)).map some := by
  have wellFormed := regular.sound.wellFormed takes.at_.found
  have all : ∀ block' ∈ filled active k data, Filled setup
      (setup.disk.writeBlock session.disk pieceIndex blockOffset data results) pieceIndex block' := by
    intro block' member
    have downloaded := downloaded_of_last wellFormed takes.at_.at_ takes.open_ data last member
    obtain ⟨j, found⟩ := List.mem_iff_getElem?.mp member
    -- The block was stored just now, or earlier and not overwritten since.
    rcases getElem?_modify_cases found with ⟨rfl, origin, here, rfl⟩ | ⟨-, here⟩
    · cases here.symm.trans takes.at_.at_
      exact filled_of_takes addressable regular holding succeed careful takes
    · have old : session.pieces.BlockAt pieceIndex active j block' := ⟨takes.at_.found, here⟩
      exact (holding.downloaded _ _ _ _ old downloaded).kept addressable holding succeed careful old
        downloaded
  rw [regular.torrent] at wellFormed
  symm
  refine completedPiece_eq (shapes_filled wellFormed data) ?_ (fun block' member =>
    (all block' member).whole) fun block' member j byte value => ?_
  · have length : (filled active k data).length = active.blocks.length := List.length_modify ..
    have inside := (List.getElem?_eq_some_iff.mp takes.at_.at_).1
    exact List.ne_nil_of_length_pos (by omega)
  · rw [← Nat.add_assoc]
    exact (all block' member).stored j byte value

theorem Holding.processes {next : PieceManager} {done : Bool}
    (processes : session.pieces.Processes setup.sha1 pieceIndex blockOffset data next done) :
    Holding setup next
      (setup.disk.writeBlock session.disk pieceIndex blockOffset data results) where
  streams := sound_writeBlock succeed holding.streams
  tidy := tidy_writeBlock holding.tidy
  downloaded other active k block at_ downloaded := by
    rcases processes.blockAt regular.sound at_ with
      ⟨active', old, -⟩ | ⟨rfl, active', origin, takes, -, rfl⟩ | ⟨-, missing⟩
    · exact (holding.downloaded _ _ _ _ old downloaded).kept addressable holding succeed careful old
        downloaded
    · exact filled_of_takes addressable regular holding succeed careful takes
    · rw [missing] at downloaded
      cases downloaded
  completed other completed := by
    rcases processes.isCompleted regular.sound completed with
      old | ⟨rfl, active, k, block, takes, last, verified⟩
    · obtain ⟨bytes, stored, hash⟩ := holding.completed other old
      exact ⟨bytes, heldRange_kept addressable holding succeed careful old stored, hash⟩
    · rw [regular.torrent] at verified
      exact ⟨completedPiece (filled active k data),
        heldRange_of_last addressable regular holding succeed careful takes last, verified⟩

end

variable [DecidableEq ι]

theorem Holding.step {setup : Setup} {session next : Session ι} {event : Event ι}
    (holding : Holding setup session.pieces session.disk)
    (addressable : Addressable setup.torrent setup.downloadDir setup.workingDir)
    (regular : Regular setup session.pieces) (unfailing : Unfailing event)
    (careful : ∀ pieceIndex blockOffset data results,
      Carries event pieceIndex blockOffset data results →
      Careful setup session pieceIndex blockOffset data)
    (taken : step setup session event = some next) : Holding setup next.pieces next.disk := by
  cases moves_of_step taken with
  | quiet _ files requests =>
    rw [files]
    exact holding.requests requests
  | stored carries processes files requests =>
    rw [files]
    exact (holding.processes addressable regular (unfailing _ _ _ _ carries)
      (careful _ _ _ _ carries) processes).requests requests

/-! ## In the files -/

/-- A block leaves nothing of these positions in a put area: it is passed on at once, and the
streams that it does not reach hold none of them. -/
structure Drains (setup : Setup) (disk : Disk) (Within : Nat → Prop) (pieceIndex blockOffset : Nat)
    (data : Bytes) (results : List SliceResult) : Prop where
  pass : PassOn results
  others : ∀ position cell, Within position →
    locate setup.disk.fileMap.files position = some cell →
    (∀ slice ∈ setup.disk.slicesOf pieceIndex blockOffset data, slice.filePath ≠ cell.1) →
    disk.pending cell = none

/-- What completes a piece leaves nothing of it in a put area. -/
def Flushing (setup : Setup) (session : Session ι) (event : Event ι) : Prop :=
  ∀ pieceIndex blockOffset data results active k block,
    Carries event pieceIndex blockOffset data results →
    session.pieces.Takes pieceIndex blockOffset active k block →
    active.blocksDownloaded + 1 = active.totalBlocks →
    setup.torrent.pieces[pieceIndex]? = some (setup.sha1 (completedPiece (filled active k data))) →
    Drains setup session.disk (InPiece setup.torrent pieceIndex) pieceIndex blockOffset data results

/-- The completed pieces are in the files. -/
def Secured (setup : Setup) (pieces : PieceManager) (disk : Disk) : Prop :=
  ∀ pieceIndex, pieces.picker.isCompleted pieceIndex = true →
    ∀ position, InPiece setup.torrent pieceIndex position → setup.disk.Settled disk position

section
variable {setup : Setup} {session next : Session ι} {event : Event ι}

omit [DecidableEq ι] in
theorem settled_of_drains {Within : Nat → Prop} {pieceIndex blockOffset : Nat} {data : Bytes}
    {results : List SliceResult}
    (drains : Drains setup session.disk Within pieceIndex blockOffset data results)
    (holding : Holding setup session.pieces session.disk) (succeed : Succeed results)
    {position : Nat} (inside : Within position) {byte : UInt8}
    (held : setup.disk.byteAt
      (setup.disk.writeBlock session.disk pieceIndex blockOffset data results) position = some byte) :
    setup.disk.Settled (setup.disk.writeBlock session.disk pieceIndex blockOffset data results)
      position := by
  refine settled_of_pending held fun cell here => ?_
  by_contra pends
  obtain ⟨other, pends⟩ := Option.ne_none_iff_exists'.mp pends
  obtain ⟨before, untouched⟩ := pending_of_pass _ succeed drains.pass holding.streams pends
  cases (drains.others position cell inside here untouched).symm.trans before

theorem Secured.step (secured : Secured setup session.pieces session.disk)
    (holding : Holding setup session.pieces session.disk)
    (addressable : Addressable setup.torrent setup.downloadDir setup.workingDir)
    (regular : Regular setup session.pieces) (unfailing : Unfailing event)
    (careful : ∀ pieceIndex blockOffset data results,
      Carries event pieceIndex blockOffset data results →
      Careful setup session pieceIndex blockOffset data)
    (flushing : Flushing setup session event)
    (taken : step setup session event = some next) : Secured setup next.pieces next.disk := by
  have after_ := holding.step addressable regular unfailing careful taken
  cases moves_of_step taken with
  | quiet _ files requests =>
    intro pieceIndex completed position inside
    rw [requests.picker] at completed
    rw [files]
    exact secured pieceIndex completed position inside
  | stored carries processes files requests =>
    intro pieceIndex completed position inside
    -- The byte is on disk after the step, in any case.
    obtain ⟨bytes, range, -⟩ := after_.completed pieceIndex completed
    obtain ⟨j, rfl⟩ := Nat.exists_eq_add_of_le inside.lower
    obtain ⟨byte, held⟩ := byteAt_of_heldRange range (Nat.lt_of_add_lt_add_left inside.upper)
    rw [requests.picker] at completed
    rw [files] at held ⊢
    rcases processes.isCompleted regular.sound completed with
      old | ⟨rfl, active, k, block, takes, last, verified⟩
    · exact settled_of_held addressable holding (unfailing _ _ _ _ carries) (careful _ _ _ _ carries)
        (.piece old inside) (secured pieceIndex old _ inside)
    · rw [regular.torrent] at verified
      exact settled_of_drains (flushing _ _ _ _ _ _ _ carries takes last verified) holding
        (unfailing _ _ _ _ carries) inside held

end

/-- If the blocks that are taken have the length that was asked for, no other changes what
completed pieces and downloaded blocks have on disk, and what completes a piece leaves none of it
in a put area, then every completed piece is in the files. -/
theorem completed_intact {setup : Setup} {start final : Session ι}
    {history : List (Machine.Transition (Session ι) (Event ι))}
    (addressable : Addressable setup.torrent setup.downloadDir setup.workingDir)
    (runs : Runs setup start history final) (unfailing : ∀ x ∈ history, Unfailing x.event)
    (careful : ∀ x ∈ history, ∀ pieceIndex blockOffset data results,
      Carries x.event pieceIndex blockOffset data results →
      Careful setup x.before pieceIndex blockOffset data)
    (flushing : ∀ x ∈ history, Flushing setup x.before x.event)
    {pieceIndex : Nat} (completed : final.pieces.picker.isCompleted pieceIndex = true) :
    ∃ bytes, setup.disk.storedRange final.disk (pieceIndex * setup.torrent.pieceWidth)
        (min setup.torrent.pieceWidth
          (setup.torrent.size - pieceIndex * setup.torrent.pieceWidth)) = bytes.map some ∧
      setup.torrent.pieces[pieceIndex]? = some (setup.sha1 bytes) := by
  obtain ⟨holding, secured⟩ : Holding setup final.pieces final.disk ∧
      Secured setup final.pieces final.disk := by
    refine runs.2.invariant_of_guard (fun _ session => Holding setup session.pieces session.disk ∧
        Secured setup session.pieces session.disk)
      (fun session event => Unfailing event ∧ (∀ pieceIndex blockOffset data results,
        Carries event pieceIndex blockOffset data results →
        Careful setup session pieceIndex blockOffset data) ∧ Flushing setup session event)
      ?_ ?_ fun x member => ⟨unfailing x member, careful x member, flushing x member⟩
    · exact ⟨runs.1.holding, fun pieceIndex done => absurd done (runs.1.incomplete pieceIndex)⟩
    · rintro history session event next run ⟨holding, secured⟩ ⟨unfailing, careful, flushing⟩ taken
      have regular := Runs.regular ⟨runs.1, run⟩
      exact ⟨holding.step addressable regular unfailing careful taken,
        secured.step holding addressable regular unfailing careful flushing taken⟩
  have bound := runs.regular.sound.index_lt (isCompleted_lt completed)
  rw [runs.regular.torrent] at bound
  obtain ⟨bytes, held, hash⟩ := holding.completed pieceIndex completed
  refine ⟨bytes, ?_, hash⟩
  rw [← pieceSize_eq addressable bound, ← held]
  apply List.map_congr_left
  intro j member
  have inside := List.mem_range.mp member
  obtain ⟨byte, here⟩ := byteAt_of_heldRange held inside
  rw [here]
  exact (secured pieceIndex completed _ ⟨Nat.le_add_right .., Nat.add_lt_add_left inside _⟩).storedAt
    here

theorem addressable_oneByte :
    Addressable oneByte.torrent oneByte.downloadDir oneByte.workingDir where
  lengths := by decide
  size := by decide
  distinct := by decide
  pieceLength := by decide
  pieces := by decide
  small := by decide

theorem unfailing_receive (connection : Bool) (msg : PeerMessage) :
    Unfailing (receive connection msg) := by
  rintro pieceIndex blockOffset data results ⟨delivers⟩
  nofun

/-- Streams that keep nothing, with nothing in any put area before. -/
theorem flushing_of_empty {setup : Setup} {session : Session Bool}
    (empty : ∀ cell, session.disk.pending cell = none) (connection : Bool) (msg : PeerMessage) :
    Flushing setup session (receive connection msg) := by
  rintro pieceIndex blockOffset data results active k block ⟨delivers⟩ _ _ _
  exact ⟨nofun, fun _ cell _ _ _ => empty cell⟩

/-- While nothing but one block is requested, any data of its length is careful. -/
theorem careful_requesting {setup : Setup} {session : Session Bool} {pieceIndex blockOffset : Nat}
    {data : Bytes} (active : session.pieces.activePieces.entries = [⟨0, requestedPiece⟩])
    (completed : session.pieces.picker.completedPieces = [false]) (length : data.length = 1) :
    Careful setup session pieceIndex blockOffset data := by
  have only : ∀ {index active k block}, session.pieces.BlockAt index active k block →
      block = requestedBlock := by
    intro index piece k block at_
    have member := List.of_mem_dlookup (Option.mem_def.mpr at_.found)
    rw [active, List.mem_singleton] at member
    cases member
    exact List.mem_singleton.mp (List.mem_of_getElem? at_.at_)
  refine ⟨fun piece k block takes => ?_, fun k byte _ held => ?_⟩
  · rw [only takes.at_]
    exact length
  · cases held with
    | @piece index done =>
      rw [PiecePicker.isCompleted, completed] at done
      cases index <;> cases done
    | block at_ downloaded =>
      rw [only at_] at downloaded
      cases downloaded

/-- A download of one byte. -/
theorem completed_intact_oneByte :
    ∃ history final, Runs oneByte (waiting oneByte) history final ∧
      final.pieces.picker.isCompleted 0 = true ∧
      ∃ bytes, oneByte.disk.storedRange final.disk (0 * oneByte.torrent.pieceWidth)
          (min oneByte.torrent.pieceWidth
            (oneByte.torrent.size - 0 * oneByte.torrent.pieceWidth)) = bytes.map some ∧
        oneByte.torrent.pieces[0]? = some (oneByte.sha1 bytes) := by
  have runs := runs_of_replay oneByte
    (unchoking ++ [receive true (blockMessage 0 0 [1])]) rfl
  refine ⟨_, _, runs, by decide +kernel, completed_intact addressable_oneByte runs ?_ ?_ ?_
    (by decide +kernel)⟩
  · simp only [List.forall_mem_cons]
    exact ⟨unfailing_receive _ _, unfailing_receive _ _, unfailing_receive _ _, nofun,
      List.forall_mem_nil _⟩
  · refine List.forall_mem_cons.mpr ⟨?_, List.forall_mem_cons.mpr ⟨?_, List.forall_mem_cons.mpr
      ⟨?_, List.forall_mem_cons.mpr ⟨?_, List.forall_mem_nil _⟩⟩⟩⟩
    · intro pieceIndex blockOffset data results carries
      have whole : Delivers (blockMessage 0 0 [1]) 0 0 [1] := ⟨rfl, by decide, rfl, rfl, rfl⟩
      obtain ⟨rfl, rfl, rfl, rfl⟩ := carries.unique (.message whole)
      exact careful_requesting (by decide +kernel) (by decide +kernel) rfl
    · exact fun _ _ _ _ carries => nomatch carries.id
    · exact fun _ _ _ _ carries => nomatch carries.id
    · exact fun _ _ _ _ carries => nomatch carries
  · simp only [List.forall_mem_cons]
    exact ⟨flushing_of_empty (fun _ => rfl) _ _, flushing_of_empty (fun _ => rfl) _ _,
      flushing_of_empty (fun _ => rfl) _ _, nofun, List.forall_mem_nil _⟩

/-- A block that comes once more, with another byte, replaces the verified one. -/
theorem completed_overwritten :
    Addressable oneByte.torrent oneByte.downloadDir oneByte.workingDir ∧
      ∃ history final, Runs oneByte (waiting oneByte) history final ∧
        (∀ x ∈ history, Unfailing x.event) ∧
        final.pieces.picker.isCompleted 0 = true ∧
        oneByte.disk.storedRange final.disk 0 1 = [some 2] ∧
        oneByte.torrent.pieces[0]? ≠ some (oneByte.sha1 [2]) := by
  refine ⟨addressable_oneByte, _, _, runs_of_replay oneByte (unchoking ++
    [receive true (blockMessage 0 0 [1]), receive true (blockMessage 0 0 [2])]) rfl, ?_,
    by decide +kernel, by decide +kernel, by decide +kernel⟩
  simp only [List.forall_mem_cons]
  exact ⟨unfailing_receive _ _, unfailing_receive _ _, unfailing_receive _ _, unfailing_receive _ _,
    nofun, List.forall_mem_nil _⟩

end Session

end K0Torrent
