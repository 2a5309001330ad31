import K0Torrent.Disk.Places
import K0Torrent.Library.Machine

/-! Reading blocks back (`read_block`).

Reading and writing share the cached streams, and a seek for a read empties the put area too. A
read that reaches the end of its file leaves the stream failed, and nothing clears it. As long as
no read does, a read of bytes that were written returns what was written last.
-/

set_option autoImplicit false

namespace K0Torrent

open FileStore Machine

/-- The exceptions that leave `read_block`: those of `get_or_open_file`, and its own. -/
inductive ReadFailure where
  | filesystem
  | failedToRead (path : Bytes)
  deriving DecidableEq

/-- The text of the exception `read_block` throws itself. -/
def ReadFailure.what : ReadFailure → Option Bytes
  | filesystem => none
  | failedToRead path => some (ascii "Failed to read from file: " ++ path)

namespace DiskManager

variable (manager : DiskManager)

/-- `seekg` and `read` of one slice, `none` if the stream has failed then. A transfer that is given
as failing fails the read. -/
def readSlice (disk : Disk) (slice : FileSlice) (stream : StreamState) (result : SliceResult) :
    Option Bytes × Disk :=
  match stream with
  | .failed => (none, disk)
  | .good area =>
    match result.flushed with
    | some count =>
      (none, (manager.pass disk slice.filePath area.offset (area.bytes.take count)).setStream
        slice.filePath .failed)
    | none =>
      let disk := manager.seek disk slice.filePath area
      let bytes := ((disk.stored (manager.file slice.filePath)).drop slice.fileOffset).take slice.size
      -- So does the end of the file.
      if result.moved ≠ none ∨ bytes.length < slice.size then
        (none, disk.setStream slice.filePath .failed)
      else (some bytes, disk)

/-- The loop of `read_block`. Slices without a result of their own are read. -/
def readSlices : List FileSlice → List SliceResult → Disk → Except ReadFailure Bytes × Disk
  | [], _, disk => (.ok [], disk)
  | slice :: rest, results, disk =>
    let result := results.headD .done
    match getOrOpenFile disk slice.filePath result.opening with
    | none => (.error .filesystem, disk)
    | some (stream, disk) =>
      match manager.readSlice disk slice stream result with
      | (none, disk) => (.error (.failedToRead slice.filePath), disk)
      | (some bytes, disk) =>
        match readSlices rest results.tail disk with
        | (.error e, disk) => (.error e, disk)
        | (.ok later, disk) => (.ok (bytes ++ later), disk)

def readBlock (disk : Disk) (pieceIndex blockOffset length : Nat) (results : List SliceResult) :
    Except ReadFailure Bytes × Disk :=
  let slices := manager.fileMap.mapBlock (manager.globalOffset pieceIndex blockOffset) length
  match manager.readSlices slices results disk with
  | (.error e, disk) => (.error e, disk)
  -- What the slices do not fill of the vector stays zero.
  | (.ok bytes, disk) => (.ok (bytes ++ List.replicate (length - bytes.length) 0), disk)

/-! ## Seeking -/

/-- The file has the cell, once its stream has passed on what it holds. -/
def InReach (disk : Disk) (cell : Bytes × Nat) : Prop :=
  (manager.flushed disk cell.1)[cell.2]? ≠ none

instance (disk : Disk) (cell : Bytes × Nat) : Decidable (manager.InReach disk cell) :=
  inferInstanceAs (Decidable (_ ≠ _))

/-- Streams can be used, and pass on bytes of the torrent only. -/
structure Usable (disk : Disk) : Prop where
  streams : ∀ path, disk.openFiles path ≠ some .failed
  tidy : manager.Tidy disk

/-- At most, streams have been opened and have passed on what they held. -/
structure Passed (disk disk' : Disk) : Prop where
  usable : manager.Usable disk'
  reaches : ∀ cell, manager.InReach disk cell → manager.InReach disk' cell
  bytes : ∀ {position cell byte}, locate manager.fileMap.files position = some cell →
    manager.byteOf disk cell = some byte → manager.byteOf disk' cell = some byte

section
variable {manager} {disk disk' : Disk} {path : Bytes}

theorem Usable.refl (usable : manager.Usable disk) : manager.Passed disk disk :=
  ⟨usable, fun _ => id, fun _ => id⟩

theorem Passed.trans {final : Disk} (first : manager.Passed disk disk')
    (second : manager.Passed disk' final) : manager.Passed disk final where
  usable := second.usable
  reaches cell reached := second.reaches cell (first.reaches cell reached)
  bytes here held := second.bytes here (first.bytes here held)

theorem flushed_getOrOpenFile {opening : Opening} {stream : StreamState}
    (found : getOrOpenFile disk path opening = some (stream, disk')) (other : Bytes) :
    manager.flushed disk' other = manager.flushed disk other := by
  have kept (stream : StreamState) (different : other ≠ path) :
      manager.flushed (disk.setStream path stream) other = manager.flushed disk other := by
    simp only [flushed, Disk.setStream, Function.update_of_ne different]
  unfold getOrOpenFile at found
  split at found
  · cases found
    rfl
  · rename_i unopened
    cases found
    by_cases same : other = path
    · subst same
      simp only [flushed, Disk.setStream, Function.update_self, unopened, writeAt, if_true]
    · exact kept _ same
  · rename_i unopened
    cases found
    by_cases same : other = path
    · subst same
      simp only [flushed, Disk.setStream, Function.update_self, unopened]
    · exact kept _ same
  · cases found

theorem passed_getOrOpenFile (usable : manager.Usable disk) :
    ∃ area disk', getOrOpenFile disk path .opened = some (.good area, disk') ∧
      manager.Passed disk disk' := by
  obtain ⟨area, disk', found, failed⟩ := getOrOpenFile_opened succeeds_done (usable.streams path)
  refine ⟨area, disk', found, ⟨fun other cached => usable.streams other (failed other cached), ?_⟩,
    ?_, ?_⟩
  · intro cell byte pends
    rw [pending_getOrOpenFile found] at pends
    exact usable.tidy cell byte pends
  · intro cell reached
    rwa [InReach, flushed_getOrOpenFile found]
  · intro position cell byte _ held
    rwa [byteOf, pending_getOrOpenFile found, stored_getOrOpenFile found]

variable {area : PutArea} (cached : disk.openFiles path = some (.good area))
include cached

/-- A seek leaves what all files come to, or makes them longer. -/
theorem length_flushed_seek (other : Bytes) : (manager.flushed disk other).length ≤
    (manager.flushed (manager.seek disk path area) other).length := by
  by_cases same : other = path
  · subst same
    rw [flushed_of_good cached, flushed]
    simp only [seek, Disk.setStream, Function.update_self, writeAt, if_true, Nat.le_refl]
  · have streams : (manager.seek disk path area).openFiles other = disk.openFiles other :=
      Function.update_of_ne same ..
    have grows := length_le_store 0 disk.stored
      (manager.onDisk ⟨path, area.offset, area.bytes⟩) (manager.file other)
    unfold flushed
    rw [streams]
    split
    · rw [length_writeAt, length_writeAt]
      split
      · exact grows
      · exact max_le_max_right _ grows
    · exact grows
    · exact grows

theorem passed_seek (separates : manager.Separates) (usable : manager.Usable disk) :
    manager.Passed disk (manager.seek disk path area) where
  usable :=
    { streams := fun other failed => by
        by_cases same : other = path
        · subst same
          simp only [seek, Disk.setStream, Function.update_self] at failed
          cases failed
        · simp only [seek, pass, Disk.setStream, Function.update_of_ne same] at failed
          exact usable.streams other failed
      tidy := fun cell byte pends => by
        by_cases same : cell.1 = path
        · subst same
          rw [seek, pending_setStream_good, itemAt_empty] at pends
          cases pends
        · rw [seek, pending_setStream_of_ne _ _ same] at pends
          exact usable.tidy cell byte pends }
  reaches cell reached := by
    rw [InReach, ne_eq, List.getElem?_eq_none_iff, Nat.not_le] at reached ⊢
    exact Nat.lt_of_lt_of_le reached (length_flushed_seek cached cell.1)
  bytes here held := byteOf_seek separates here usable.tidy cached held

end

/-! ## Reads that stay within the files -/

theorem readSlice_of_reaches {disk : Disk} {area : PutArea} {slice : FileSlice}
    (cached : disk.openFiles slice.filePath = some (.good area))
    (within : ∀ cell ∈ slice.cells, manager.InReach disk cell) :
    ∃ bytes, manager.readSlice disk slice (.good area) .done =
        (some bytes, manager.seek disk slice.filePath area) ∧ bytes.length = slice.size ∧
      ∀ k < slice.size,
        bytes[k]? = (manager.flushed disk slice.filePath)[slice.fileOffset + k]? := by
  have long : slice.size = 0 ∨
      slice.fileOffset + slice.size ≤ (manager.flushed disk slice.filePath).length := by
    rcases Nat.eq_zero_or_pos slice.size with empty | positive
    · exact .inl empty
    · have last := within (slice.filePath, slice.fileOffset + (slice.size - 1))
        (List.mem_of_getElem? (getElem?_cells (by omega)))
      rw [InReach, ne_eq, List.getElem?_eq_none_iff] at last
      dsimp only at last
      omega
  have whole : (((manager.flushed disk slice.filePath).drop slice.fileOffset).take
      slice.size).length = slice.size := by
    rw [List.length_take, List.length_drop]
    omega
  refine ⟨_, ?_, whole, fun k bound => ?_⟩
  · rw [flushed_of_good cached] at whole ⊢
    simp only [readSlice, SliceResult.done, ne_eq, not_true_eq_false, false_or, whole,
      Nat.lt_irrefl, if_false]
  · rw [List.getElem?_take_of_lt bound, List.getElem?_drop]

/-- If no stream has failed and the files reach as far as the slices, the read returns what the
files and put areas hold, and streams pass on what they held, at most. -/
theorem readSlices_of_reaches (separates : manager.Separates) (slices : List FileSlice) :
    ∀ {disk : Disk}, manager.Usable disk →
    (∀ cell ∈ slices.flatMap FileSlice.cells, manager.InReach disk cell) →
    ∃ bytes disk', manager.readSlices slices [] disk = (.ok bytes, disk') ∧
      manager.Passed disk disk' ∧
      bytes.length = (slices.flatMap FileSlice.cells).length ∧
      ∀ {k position : Nat} {cell byte}, (slices.flatMap FileSlice.cells)[k]? = some cell →
        locate manager.fileMap.files position = some cell →
        manager.byteOf disk cell = some byte → bytes[k]? = some byte := by
  induction slices with
  | nil => exact fun {disk} usable _ => ⟨[], disk, rfl, usable.refl, rfl, nofun⟩
  | cons slice rest ih =>
    intro disk usable within
    rw [List.flatMap_cons] at within ⊢
    obtain ⟨area, opened, found, opens⟩ := manager.passed_getOrOpenFile usable
    have cached := cached_getOrOpenFile found
    have seeks := passed_seek cached separates opens.usable
    obtain ⟨bytes, read, size, bytesAre⟩ := manager.readSlice_of_reaches cached fun cell member =>
      opens.reaches cell (within cell (List.mem_append_left _ member))
    obtain ⟨later, disk', readLater, passes, sizeLater, laterAre⟩ := ih seeks.usable
      fun cell member => seeks.reaches cell (opens.reaches cell
        (within cell (List.mem_append_right _ member)))
    refine ⟨bytes ++ later, disk', ?_, (opens.trans seeks).trans passes, ?_, ?_⟩
    · simp only [SliceResult.done] at read
      simp only [readSlices, List.headD_nil, List.tail_nil, SliceResult.done, found, read, readLater]
    · rw [List.length_append, List.length_append, size, sizeLater, FileSlice.length_cells]
    · intro k position cell byte at_ here held
      by_cases bound : k < slice.size
      · rw [List.getElem?_append_left (by rwa [FileSlice.length_cells]), getElem?_cells bound] at at_
        cases at_
        rw [List.getElem?_append_left (by rwa [size]), bytesAre k bound]
        exact getElem?_flushed (opens.bytes here held)
      · rw [List.getElem?_append_right (by rw [FileSlice.length_cells]; omega),
          FileSlice.length_cells] at at_
        rw [List.getElem?_append_right (by omega), size]
        exact laterAre at_ here ((opens.trans seeks).bytes here held)

end DiskManager

/-! ## Runs of writes and reads -/

/-- With a write goes how much of each slice its stream keeps. -/
inductive DiskCall where
  | write (pieceIndex blockOffset : Nat) (data : Bytes) (held : List Nat)
  | read (pieceIndex blockOffset length : Nat)
  deriving DecidableEq

namespace DiskManager

variable (manager : DiskManager)

/-- Nothing fails, and the streams keep that much. -/
def keeping (held : List Nat) : List SliceResult :=
  held.map fun count => { SliceResult.done with held := count }

theorem succeed_keeping (held : List Nat) : Succeed (keeping held) :=
  List.forall_mem_map.mpr fun _ _ => ⟨rfl, rfl, rfl⟩

/-- A call while storage does not fail. An exception of a read ends with the call. -/
def call (disk : Disk) : DiskCall → Option Disk
  | .write pieceIndex blockOffset data held =>
    some (manager.writeBlock disk pieceIndex blockOffset data (keeping held))
  | .read pieceIndex blockOffset length =>
    some (manager.readBlock disk pieceIndex blockOffset length []).2

/-- The byte that the latest write to cover the position has for it, latest call first. -/
def lastWritten (position : Nat) : List DiskCall → Option UInt8
  | [] => none
  | .write pieceIndex blockOffset data _ :: earlier =>
    let start := manager.globalOffset pieceIndex blockOffset
    if start ≤ position ∧ position < start + data.length then data[position - start]?
    else lastWritten position earlier
  | .read .. :: earlier => lastWritten position earlier

/-- A read stays within the files as they are: each byte it maps to is there. -/
def EndsWithin (disk : Disk) : DiskCall → Prop
  | .write .. => True
  | .read pieceIndex blockOffset length =>
    ∀ cell ∈ (manager.fileMap.mapBlock (manager.globalOffset pieceIndex blockOffset) length).flatMap
      FileSlice.cells, manager.InReach disk cell

/-- The streams can be used, and the files and put areas hold what was written last. -/
structure UpToDate (calls : List DiskCall) (disk : Disk) : Prop where
  usable : manager.Usable disk
  bytes : ∀ {position byte}, position < manager.fileMap.totalSize →
    manager.lastWritten position calls = some byte → manager.byteAt disk position = some byte

section
variable {manager} {calls : List DiskCall} {disk : Disk}

theorem locate_of_inside {position : Nat} (inside : position < manager.fileMap.totalSize) :
    locate manager.fileMap.files position ≠ none :=
  locate_ne_none manager.fileMap.consecutive (Nat.zero_le _) inside

theorem readBlock_of_endsWithin {pieceIndex blockOffset length : Nat}
    (separates : manager.Separates) (usable : manager.Usable disk)
    (within : manager.EndsWithin disk (.read pieceIndex blockOffset length)) :
    ∃ bytes disk', manager.readBlock disk pieceIndex blockOffset length [] =
        (.ok (bytes ++ List.replicate (length - bytes.length) 0), disk') ∧
      manager.Passed disk disk' ∧ bytes.length =
        (span manager.fileMap.files (manager.globalOffset pieceIndex blockOffset) length).length ∧
      ∀ {k : Nat} {cell byte},
        (span manager.fileMap.files (manager.globalOffset pieceIndex blockOffset) length)[k]? =
          some cell → manager.byteOf disk cell = some byte → bytes[k]? = some byte := by
  obtain ⟨bytes, disk', read, passes, size, bytesAre⟩ :=
    manager.readSlices_of_reaches separates _ usable within
  rw [cells_mapBlock] at size
  refine ⟨bytes, disk', ?_, passes, size, fun {k cell byte} at_ held => ?_⟩
  · simp only [readBlock, read]
  · refine bytesAre ?_ (locate_of_span at_).2 held
    rw [cells_mapBlock, at_]

theorem UpToDate.write (separates : manager.Separates) (upToDate : manager.UpToDate calls disk)
    (pieceIndex blockOffset : Nat) (data : Bytes) (held : List Nat) :
    manager.UpToDate (.write pieceIndex blockOffset data held :: calls)
      (manager.writeBlock disk pieceIndex blockOffset data (keeping held)) where
  usable := ⟨sound_writeBlock (succeed_keeping held) upToDate.usable.streams,
    tidy_writeBlock upToDate.usable.tidy⟩
  bytes {position byte} inside written := by
    have succeed := succeed_keeping held
    obtain ⟨streams, tidy⟩ := upToDate.usable
    rw [lastWritten] at written
    split at written
    · rename_i covered
      obtain ⟨k, rfl⟩ := Nat.exists_eq_add_of_le covered.1
      rw [Nat.add_sub_cancel_left] at written
      exact byteAt_writeBlock_inside separates succeed streams tidy written fun j _ =>
        locate_of_inside (by omega)
    · exact byteAt_writeBlock_outside separates succeed streams tidy (by omega)
        (upToDate.bytes inside written)

theorem UpToDate.read (separates : manager.Separates) (upToDate : manager.UpToDate calls disk)
    {pieceIndex blockOffset length : Nat}
    (within : manager.EndsWithin disk (.read pieceIndex blockOffset length)) :
    manager.UpToDate (.read pieceIndex blockOffset length :: calls)
      (manager.readBlock disk pieceIndex blockOffset length []).2 := by
  obtain ⟨bytes, disk', read, passes, -, -⟩ :=
    readBlock_of_endsWithin separates upToDate.usable within
  rw [read]
  refine ⟨passes.usable, fun inside written => ?_⟩
  obtain ⟨cell, here, held⟩ := Option.bind_eq_some_iff.mp (upToDate.bytes inside written)
  rw [byteAt, here, Option.bind_some]
  exact passes.bytes here held

theorem upToDate_of_run (separates : manager.Separates) {start : Disk}
    (fresh : ∀ path, start.openFiles path = none) {history : List (Transition Disk DiskCall)}
    (run : Run manager.call start history disk)
    (within : ∀ x ∈ history, manager.EndsWithin x.before x.event) :
    manager.UpToDate (history.map Transition.event) disk := by
  refine run.invariant_of_guard (fun history disk => manager.UpToDate (history.map Transition.event) disk)
    manager.EndsWithin ⟨⟨fun path failed => ?_, tidy_of_unopened fresh⟩, nofun⟩ ?_ within
  · rw [fresh] at failed
    cases failed
  · intro history s e t _ upToDate ends taken
    cases e with
    | write pieceIndex blockOffset data held =>
      obtain rfl := Option.some.inj taken
      exact upToDate.write separates ..
    | read pieceIndex blockOffset length =>
      obtain rfl := Option.some.inj taken
      exact upToDate.read separates ends

/-- A read of bytes that were all written finds each of them. -/
theorem UpToDate.endsWithin (upToDate : manager.UpToDate calls disk)
    {pieceIndex blockOffset length : Nat}
    (inRange : manager.globalOffset pieceIndex blockOffset + length ≤ manager.fileMap.totalSize)
    (written : ∀ k < length,
      manager.lastWritten (manager.globalOffset pieceIndex blockOffset + k) calls ≠ none) :
    manager.EndsWithin disk (.read pieceIndex blockOffset length) := by
  intro cell member
  rw [cells_mapBlock] at member
  obtain ⟨k, found⟩ := List.mem_iff_getElem?.mp member
  obtain ⟨bound, here⟩ := locate_of_span found
  obtain ⟨byte, last⟩ := Option.ne_none_iff_exists'.mp (written k bound)
  have held := upToDate.bytes (by omega) last
  rw [byteAt, here, Option.bind_some] at held
  rw [InReach, getElem?_flushed held]
  exact Option.some_ne_none byte

theorem UpToDate.readBlock (separates : manager.Separates) (upToDate : manager.UpToDate calls disk)
    {pieceIndex blockOffset length : Nat}
    (inRange : manager.globalOffset pieceIndex blockOffset + length ≤ manager.fileMap.totalSize)
    (written : ∀ k < length,
      manager.lastWritten (manager.globalOffset pieceIndex blockOffset + k) calls ≠ none) :
    ∃ bytes, (manager.readBlock disk pieceIndex blockOffset length []).1 = .ok bytes ∧
      bytes.length = length ∧ ∀ k < length,
        bytes[k]? = manager.lastWritten (manager.globalOffset pieceIndex blockOffset + k) calls := by
  obtain ⟨bytes, disk', read, -, size, bytesAre⟩ :=
    readBlock_of_endsWithin separates upToDate.usable (upToDate.endsWithin inRange written)
  have each : ∀ k < length, bytes[k]? =
      manager.lastWritten (manager.globalOffset pieceIndex blockOffset + k) calls := by
    intro k bound
    obtain ⟨byte, last⟩ := Option.ne_none_iff_exists'.mp (written k bound)
    obtain ⟨cell, here, held⟩ := Option.bind_eq_some_iff.mp (upToDate.bytes (by omega) last)
    rw [last]
    refine bytesAre ?_ held
    rw [span_of_locate (fun j _ => locate_of_inside (by omega)) bound, here]
  have whole : bytes.length = length := by
    apply Nat.le_antisymm
    · rw [size]
      exact length_span_le ..
    · refine Nat.not_lt.mp fun short => written bytes.length short ?_
      rw [← each _ short, List.getElem?_eq_none (Nat.le_refl _)]
  rw [whole, Nat.sub_self, List.replicate_zero, List.append_nil] at read
  exact ⟨bytes, congrArg Prod.fst read, whole, each⟩

/-- If no read of a run has reached beyond the end of a file, a read of bytes that were all written
returns what was written last, however much the streams keep to themselves. -/
theorem readBlock_lastWritten {torrent : TorrentFile} {downloadDir workingDir : Bytes}
    (apart : TellsApart (fun path => resolve workingDir (joinPath downloadDir path)) torrent)
    {start disk : Disk} (fresh : ∀ path, start.openFiles path = none)
    {history : List (Transition Disk DiskCall)}
    (run : Run (DiskManager.new torrent downloadDir workingDir).call start history disk)
    (within : ∀ x ∈ history,
      (DiskManager.new torrent downloadDir workingDir).EndsWithin x.before x.event)
    {pieceIndex blockOffset length : Nat}
    (inRange : (DiskManager.new torrent downloadDir workingDir).globalOffset pieceIndex blockOffset +
      length ≤ castU64 torrent.totalSize)
    (written : ∀ k < length, (DiskManager.new torrent downloadDir workingDir).lastWritten
      ((DiskManager.new torrent downloadDir workingDir).globalOffset pieceIndex blockOffset + k)
      (history.map Transition.event) ≠ none) :
    ∃ bytes, ((DiskManager.new torrent downloadDir workingDir).readBlock disk pieceIndex blockOffset
        length []).1 = .ok bytes ∧ bytes.length = length ∧
      ∀ k < length, bytes[k]? = (DiskManager.new torrent downloadDir workingDir).lastWritten
        ((DiskManager.new torrent downloadDir workingDir).globalOffset pieceIndex blockOffset + k)
        (history.map Transition.event) :=
  (upToDate_of_run apart.separates fresh run within).readBlock apart.separates
    (by rwa [totalSize_new]) written

end

instance (disk : Disk) (call : DiskCall) : Decidable (manager.EndsWithin disk call) :=
  match call with
  | .write .. => inferInstanceAs (Decidable True)
  | .read .. => inferInstanceAs (Decidable (∀ cell ∈ _, manager.InReach _ _))

def untouched : Disk := .fresh fun _ => []

/-- Two writes over both files, the second over a part of the first, with the first still in the
put areas when it is read. -/
theorem readBlock_lastWritten_twoFiles :
    ∃ history disk, Run (DiskManager.new twoFiles [] []).call untouched history disk ∧
      history.map Transition.event = [.write 0 1 [3] [1], .read 0 0 2, .write 0 0 [1, 2] [1, 1]] ∧
      ∃ bytes, ((DiskManager.new twoFiles [] []).readBlock disk 0 0 2 []).1 = .ok bytes ∧
        bytes.length = 2 ∧ ∀ k < 2, bytes[k]? = (DiskManager.new twoFiles [] []).lastWritten (0 + k)
          [.write 0 1 [3] [1], .read 0 0 2, .write 0 0 [1, 2] [1, 1]] := by
  refine ⟨_, _, .next (.next (.next .start rfl) rfl) rfl, rfl, ?_⟩
  exact @readBlock_lastWritten twoFiles [] [] (by decide +kernel) untouched _ (fun _ => rfl) _
    (.next (.next (.next .start rfl) rfl) rfl) (by decide +kernel) 0 0 2 (by decide +kernel)
    (by decide +kernel)

/-- A read of a byte that nobody has written yet fails, and after it that byte can
be neither written nor read. -/
theorem lost_after_early_read :
    TellsApart (fun path => resolve [] (joinPath [] path)) twoFiles ∧
      ∃ history disk, Run (DiskManager.new twoFiles [] []).call untouched history disk ∧
        history.map Transition.event = [.write 0 0 [1] [], .read 0 0 1] ∧
        castU64 twoFiles.totalSize = 2 ∧
        (DiskManager.new twoFiles [] []).lastWritten 0 [.write 0 0 [1] [], .read 0 0 1] = some 1 ∧
        ((DiskManager.new twoFiles [] []).readBlock disk 0 0 1 []).1 =
          .error (.failedToRead (ascii "a/b")) := by
  refine ⟨by decide +kernel, _, _, .next (.next .start rfl) rfl, rfl, by decide +kernel,
    by decide +kernel, ?_⟩
  rfl

end DiskManager

end K0Torrent
