import K0Torrent.Disk.DiskManager
import K0Torrent.Disk.Span

/-! What `write_block` does to the files and to the put areas.

Its effect on the files is that of parts, written one after the other: what the streams had in
their put areas, and what they pass on of the block. A byte of either is one of the block, at the
place that the map gives it, or was in a put area before.
-/

set_option autoImplicit false

namespace K0Torrent

open LexicalPath FileStore

/-- What the stream of a path has in its put area for an offset. -/
def Disk.pending (disk : Disk) (cell : Bytes × Nat) : Option UInt8 :=
  match disk.openFiles cell.1 with
  | some (.good area) => Part.itemAt ⟨cell.1, area.offset, area.bytes⟩ cell
  | some .failed | none => none

section
variable (disk : Disk) {path : Bytes} {cell : Bytes × Nat}

theorem pending_of_unopened (unopened : disk.openFiles cell.1 = none) : disk.pending cell = none := by
  rw [Disk.pending, unopened]

theorem pending_of_good {area : PutArea} (cached : disk.openFiles cell.1 = some (.good area)) :
    disk.pending cell = Part.itemAt ⟨cell.1, area.offset, area.bytes⟩ cell := by
  rw [Disk.pending, cached]

theorem pending_setStream_of_ne (stream : StreamState) (other : cell.1 ≠ path) :
    (disk.setStream path stream).pending cell = disk.pending cell := by
  simp only [Disk.pending, Disk.setStream, Function.update_of_ne other]

theorem pending_setStream_good (area : PutArea) : (disk.setStream cell.1 (.good area)).pending cell =
    Part.itemAt ⟨cell.1, area.offset, area.bytes⟩ cell := by
  simp only [Disk.pending, Disk.setStream, Function.update_self]

theorem pending_setStream_failed : (disk.setStream cell.1 .failed).pending cell = none := by
  simp only [Disk.pending, Disk.setStream, Function.update_self]

theorem itemAt_empty (key : Bytes) (offset : Nat) : Part.itemAt ⟨key, offset, ([] : Bytes)⟩ cell =
    none := by
  unfold Part.itemAt
  split
  · exact List.getElem?_nil
  · rfl

end

/-! ## Opening -/

section
variable {disk disk' : Disk} {path : Bytes} {opening : Opening} {stream : StreamState}
  (found : getOrOpenFile disk path opening = some (stream, disk'))
include found

theorem contents_getOrOpenFile : disk'.contents = disk.contents := by
  unfold getOrOpenFile at found
  split at found <;> cases found <;> rfl

theorem stored_getOrOpenFile : disk'.stored = disk.stored := by
  unfold getOrOpenFile at found
  split at found <;> cases found <;> rfl

theorem cached_getOrOpenFile : disk'.openFiles path = some stream := by
  unfold getOrOpenFile at found
  split at found
  · rename_i cached
    cases found
    exact cached
  · cases found
    exact Function.update_self ..
  · cases found
    exact Function.update_self ..
  · cases found

/-- A file that is opened has an empty put area. -/
theorem pending_getOrOpenFile (cell : Bytes × Nat) : disk'.pending cell = disk.pending cell := by
  unfold getOrOpenFile at found
  split at found
  · cases found
    rfl
  · rename_i unopened
    cases found
    by_cases same : cell.1 = path
    · subst same
      rw [pending_setStream_good, pending_of_unopened disk unopened]
      exact itemAt_empty ..
    · exact pending_setStream_of_ne disk _ same
  · rename_i unopened
    cases found
    by_cases same : cell.1 = path
    · subst same
      rw [pending_setStream_failed, pending_of_unopened disk unopened]
    · exact pending_setStream_of_ne disk _ same
  · cases found

end

/-! ## The parts of a block -/

/-- The data has the byte for the cell of a file. -/
def Brought (slices : List FileSlice) (data : Bytes) (cell : Bytes × Nat) (byte : UInt8) : Prop :=
  ∃ k : Nat, (slices.flatMap FileSlice.cells)[k]? = some cell ∧ data[k]? = some byte

theorem getElem?_cells {slice : FileSlice} {k : Nat} (bound : k < slice.size) :
    slice.cells[k]? = some (slice.filePath, slice.fileOffset + k) := by
  rw [FileSlice.cells, List.getElem?_map, List.getElem?_range bound]
  rfl

section
variable {slice : FileSlice} {rest : List FileSlice} {data : Bytes} {cell : Bytes × Nat} {byte : UInt8}

theorem brought_head
    (put : Part.itemAt ⟨slice.filePath, slice.fileOffset, data.take slice.size⟩ cell = some byte) :
    Brought (slice :: rest) data cell byte := by
  unfold Part.itemAt at put
  split at put
  · rename_i reached
    obtain ⟨path, offset⟩ := cell
    obtain ⟨rfl, behind⟩ := reached
    have bound := (List.getElem?_eq_some_iff.mp put).1
    rw [List.length_take] at bound
    dsimp only at behind bound put
    refine ⟨offset - slice.fileOffset, ?_, ?_⟩
    · rw [List.flatMap_cons, List.getElem?_append_left (by rw [FileSlice.length_cells]; omega),
        getElem?_cells (by omega), Nat.add_sub_cancel' behind]
    · rwa [List.getElem?_take_of_lt (by omega)] at put
  · cases put

theorem Brought.tail (brought : Brought rest (data.drop slice.size) cell byte) :
    Brought (slice :: rest) data cell byte := by
  obtain ⟨k, found, value⟩ := brought
  refine ⟨slice.size + k, ?_, ?_⟩
  · rw [List.flatMap_cons, List.getElem?_append_right (by rw [FileSlice.length_cells]; omega),
      FileSlice.length_cells, Nat.add_sub_cancel_left, found]
  · rw [← value, List.getElem?_drop]

/-- What a block has for a cell is in its first slice or in a later one. -/
theorem Brought.cases (brought : Brought (slice :: rest) data cell byte) :
    Part.itemAt ⟨slice.filePath, slice.fileOffset, data.take slice.size⟩ cell = some byte ∨
      Brought rest (data.drop slice.size) cell byte := by
  obtain ⟨k, found, value⟩ := brought
  rw [List.flatMap_cons] at found
  by_cases bound : k < slice.size
  · left
    rw [List.getElem?_append_left (by rwa [FileSlice.length_cells]), getElem?_cells bound] at found
    obtain rfl := Option.some.inj found
    rw [Part.itemAt, if_pos ⟨rfl, Nat.le_add_right ..⟩, Nat.add_sub_cancel_left,
      List.getElem?_take_of_lt bound, value]
  · right
    rw [List.getElem?_append_right (by rw [FileSlice.length_cells]; omega),
      FileSlice.length_cells] at found
    refine ⟨k - slice.size, found, ?_⟩
    rw [List.getElem?_drop, Nat.add_sub_cancel' (Nat.not_lt.mp bound), value]

end

/-- The bytes of a part that the stream takes. -/
def acceptedBytes (stream : StreamState) (part : Bytes) (result : SliceResult) : Bytes :=
  match stream, result.flushed, result.moved with
  | .failed, _, _ => []
  | .good _, some _, _ => []
  | .good _, none, some count => part.take count
  | .good _, none, none => part

/-- What reaches the file while one slice is written: bytes of the put area, and of the part. -/
def passedOf (slice : FileSlice) (stream : StreamState) (part : Bytes) (result : SliceResult) :
    List (Part Bytes UInt8) :=
  match stream, result.flushed with
  | .failed, _ => []
  | .good area, some count => [⟨slice.filePath, area.offset, area.bytes.take count⟩]
  | .good area, none =>
    [⟨slice.filePath, area.offset, area.bytes⟩,
      ⟨slice.filePath, slice.fileOffset,
        part.take (result.moved.getD (part.length - result.held))⟩]

namespace DiskManager

variable (manager : DiskManager)

/-- A position of a registered file, as a position of a file on disk. -/
def place (cell : Bytes × Nat) : Place Bytes × Nat := (manager.file cell.1, cell.2)

def onDisk (part : Part Bytes UInt8) : Part (Place Bytes) UInt8 :=
  ⟨manager.file part.key, part.offset, part.items⟩

section
variable {part : Part Bytes UInt8} {byte : UInt8}

theorem itemAt_onDisk {cell : Bytes × Nat} (put : part.itemAt cell = some byte) :
    (manager.onDisk part).itemAt (manager.place cell) = some byte := by
  unfold Part.itemAt at *
  split at put
  · rename_i reached
    rw [if_pos ⟨congrArg manager.file reached.1, reached.2⟩]
    exact put
  · cases put

theorem exists_of_onDisk {cell : Place Bytes × Nat} (put : (manager.onDisk part).itemAt cell = some byte) :
    ∃ source, manager.place source = cell ∧ part.itemAt source = some byte := by
  unfold Part.itemAt at put
  split at put
  · rename_i reached
    refine ⟨(part.key, cell.2), Prod.ext reached.1.symm rfl, ?_⟩
    rw [Part.itemAt, if_pos ⟨rfl, reached.2⟩]
    exact put
  · cases put

/-- What a cell is given last, it is given by one of the parts. -/
theorem exists_of_lastPut {parts : List (Part Bytes UInt8)} {cell : Place Bytes × Nat}
    (put : lastPut cell (parts.map manager.onDisk) = some byte) :
    ∃ part ∈ parts, ∃ source, manager.place source = cell ∧ part.itemAt source = some byte := by
  obtain ⟨last, member, here⟩ := mem_of_lastPut put
  obtain ⟨part, inside, rfl⟩ := List.mem_map.mp member
  exact ⟨part, inside, manager.exists_of_onDisk here⟩

end

/-- The parts of `data` that the streams take. -/
def acceptedParts : List FileSlice → Bytes → List SliceResult → Disk → List (Part Bytes UInt8)
  | [], _, _, _ => []
  | slice :: rest, data, results, disk =>
    let result := results.headD .done
    match getOrOpenFile disk slice.filePath result.opening with
    | none => []
    | some (stream, disk) =>
      let part := data.take slice.size
      ⟨slice.filePath, slice.fileOffset, acceptedBytes stream part result⟩ ::
        acceptedParts rest (data.drop slice.size) results.tail
          (manager.writeSlice disk slice stream part result)

/-- The parts that reach the files meanwhile. -/
def passedParts : List FileSlice → Bytes → List SliceResult → Disk → List (Part Bytes UInt8)
  | [], _, _, _ => []
  | slice :: rest, data, results, disk =>
    let result := results.headD .done
    match getOrOpenFile disk slice.filePath result.opening with
    | none => []
    | some (stream, disk) =>
      let part := data.take slice.size
      passedOf slice stream part result ++
        passedParts rest (data.drop slice.size) results.tail
          (manager.writeSlice disk slice stream part result)

/-! ## One slice -/

section
variable {manager} {disk : Disk} {slice : FileSlice} {stream : StreamState} {part : Bytes}
  {result : SliceResult}

theorem contents_writeSlice : (manager.writeSlice disk slice stream part result).contents =
    store 0 disk.contents
      (manager.onDisk ⟨slice.filePath, slice.fileOffset, acceptedBytes stream part result⟩) := by
  unfold writeSlice acceptedBytes
  cases stream with
  | failed => exact (store_nil 0 disk.contents _ _).symm
  | good area =>
    cases flushed : result.flushed with
    | some count => exact (store_nil 0 disk.contents _ _).symm
    | none =>
      simp only [put]
      cases moved : result.moved <;> rfl

theorem stored_writeSlice : (manager.writeSlice disk slice stream part result).stored =
    storeAll 0 ((passedOf slice stream part result).map manager.onDisk) disk.stored := by
  unfold writeSlice passedOf
  cases stream with
  | failed => rfl
  | good area =>
    cases flushed : result.flushed with
    | some count => rfl
    | none =>
      simp only [put]
      cases moved : result.moved <;> rfl

theorem openFiles_writeSlice_of_ne {path : Bytes} (other : path ≠ slice.filePath) :
    (manager.writeSlice disk slice stream part result).openFiles path = disk.openFiles path := by
  unfold writeSlice
  cases stream with
  | failed => rfl
  | good area =>
    cases flushed : result.flushed with
    | some count => exact Function.update_of_ne other ..
    | none =>
      simp only [put]
      cases moved : result.moved with
      | some count =>
        exact (Function.update_of_ne other ..).trans (Function.update_of_ne other ..)
      | none => exact (Function.update_of_ne other ..).trans (Function.update_of_ne other ..)

variable {cell : Bytes × Nat} {byte : UInt8} (cached : disk.openFiles slice.filePath = some stream)
include cached

/-- A put area takes bytes of the slice that is written, and of no other. -/
theorem pending_writeSlice_cases
    (pends : (manager.writeSlice disk slice stream part result).pending cell = some byte) :
    disk.pending cell = some byte ∨
      Part.itemAt ⟨slice.filePath, slice.fileOffset, part⟩ cell = some byte := by
  by_cases same : cell.1 = slice.filePath
  · unfold writeSlice at pends
    cases stream with
    | failed => exact .inl pends
    | good area =>
      rw [← same] at pends cached ⊢
      cases flushed : result.flushed with
      | some count =>
        rw [flushed] at pends
        dsimp only at pends
        rw [pending_setStream_failed] at pends
        cases pends
      | none =>
        rw [flushed] at pends
        simp only [put] at pends
        cases moved : result.moved with
        | some count =>
          rw [moved] at pends
          dsimp only at pends
          rw [pending_setStream_failed] at pends
          cases pends
        | none =>
          rw [moved] at pends
          dsimp only at pends
          rw [pending_setStream_good] at pends
          exact .inr (itemAt_drop pends)
  · left
    unfold Disk.pending at pends ⊢
    rwa [openFiles_writeSlice_of_ne same] at pends

theorem passedOf_cases {passed : Part Bytes UInt8} (member : passed ∈ passedOf slice stream part result)
    (put : passed.itemAt cell = some byte) :
    disk.pending cell = some byte ∨
      Part.itemAt ⟨slice.filePath, slice.fileOffset, part⟩ cell = some byte := by
  have held : ∀ {area : PutArea}, stream = .good area →
      Part.itemAt ⟨slice.filePath, area.offset, area.bytes⟩ cell = some byte →
      disk.pending cell = some byte := by
    rintro area rfl here
    have same := key_of_itemAt here
    dsimp only at same
    rw [← same] at here cached
    rw [pending_of_good disk cached, here]
  cases stream with
  | failed => exact absurd member List.not_mem_nil
  | good area =>
    unfold passedOf at member
    cases flushed : result.flushed with
    | some count =>
      rw [flushed] at member
      obtain rfl := List.mem_singleton.mp member
      exact .inl (held rfl (itemAt_take put))
    | none =>
      rw [flushed] at member
      rcases List.mem_cons.mp member with rfl | later
      · exact .inl (held rfl put)
      · obtain rfl := List.mem_singleton.mp later
        exact .inr (itemAt_take put)

end

/-! ## A block -/

theorem contents_writeSlices (slices : List FileSlice) : ∀ (data : Bytes)
    (results : List SliceResult) (disk : Disk),
    (manager.writeSlices slices data results disk).contents =
      storeAll 0 ((manager.acceptedParts slices data results disk).map manager.onDisk)
        disk.contents := by
  induction slices with
  | nil => exact fun _ _ _ => rfl
  | cons slice rest ih =>
    intro data results disk
    simp only [writeSlices, acceptedParts]
    cases found : getOrOpenFile disk slice.filePath (results.headD .done).opening with
    | none => rfl
    | some opened =>
      obtain ⟨stream, disk'⟩ := opened
      simp only [ih, contents_writeSlice, contents_getOrOpenFile found]
      rfl

theorem stored_writeSlices (slices : List FileSlice) : ∀ (data : Bytes)
    (results : List SliceResult) (disk : Disk),
    (manager.writeSlices slices data results disk).stored =
      storeAll 0 ((manager.passedParts slices data results disk).map manager.onDisk)
        disk.stored := by
  induction slices with
  | nil => exact fun _ _ _ => rfl
  | cons slice rest ih =>
    intro data results disk
    simp only [writeSlices, passedParts]
    cases found : getOrOpenFile disk slice.filePath (results.headD .done).opening with
    | none => rfl
    | some opened =>
      obtain ⟨stream, disk'⟩ := opened
      simp only [ih, stored_writeSlice, stored_getOrOpenFile found, List.map_append,
        storeAll_append]

/-- Whatever the operations come to, what the streams take is of the block. -/
theorem accepted_cases (slices : List FileSlice) : ∀ {data : Bytes} {results : List SliceResult}
    {disk : Disk} {part : Part Bytes UInt8} {cell : Bytes × Nat} {byte : UInt8},
    part ∈ manager.acceptedParts slices data results disk → part.itemAt cell = some byte →
    Brought slices data cell byte := by
  induction slices with
  | nil => exact fun member => absurd member List.not_mem_nil
  | cons slice rest ih =>
    intro data results disk part cell byte member put
    simp only [acceptedParts] at member
    cases found : getOrOpenFile disk slice.filePath (results.headD .done).opening with
    | none =>
      rw [found] at member
      exact absurd member List.not_mem_nil
    | some opened =>
      obtain ⟨stream, disk'⟩ := opened
      rw [found] at member
      rcases List.mem_cons.mp member with rfl | later
      · unfold acceptedBytes at put
        split at put
        · rw [itemAt_empty] at put
          cases put
        · rw [itemAt_empty] at put
          cases put
        · exact brought_head (itemAt_take put)
        · exact brought_head put
      · exact (ih later put).tail

/-- So is what the put areas have then, unless they had it before. -/
theorem pending_writeSlices_cases (slices : List FileSlice) : ∀ {data : Bytes}
    {results : List SliceResult} {disk : Disk} {cell : Bytes × Nat} {byte : UInt8},
    (manager.writeSlices slices data results disk).pending cell = some byte →
    disk.pending cell = some byte ∨ Brought slices data cell byte := by
  induction slices with
  | nil => exact fun pends => .inl pends
  | cons slice rest ih =>
    intro data results disk cell byte pends
    simp only [writeSlices] at pends
    cases found : getOrOpenFile disk slice.filePath (results.headD .done).opening with
    | none =>
      rw [found] at pends
      exact .inl pends
    | some opened =>
      obtain ⟨stream, disk'⟩ := opened
      rw [found] at pends
      rcases ih pends with before | brought
      · rcases pending_writeSlice_cases (cached_getOrOpenFile found) before with old | put
        · exact .inl ((pending_getOrOpenFile found cell).symm.trans old)
        · exact .inr (brought_head put)
      · exact .inr brought.tail

theorem passed_cases (slices : List FileSlice) : ∀ {data : Bytes} {results : List SliceResult}
    {disk : Disk} {part : Part Bytes UInt8} {cell : Bytes × Nat} {byte : UInt8},
    part ∈ manager.passedParts slices data results disk → part.itemAt cell = some byte →
    disk.pending cell = some byte ∨ Brought slices data cell byte := by
  induction slices with
  | nil => exact fun member => absurd member List.not_mem_nil
  | cons slice rest ih =>
    intro data results disk part cell byte member put
    simp only [passedParts] at member
    cases found : getOrOpenFile disk slice.filePath (results.headD .done).opening with
    | none =>
      rw [found] at member
      exact absurd member List.not_mem_nil
    | some opened =>
      obtain ⟨stream, disk'⟩ := opened
      rw [found] at member
      have cached := cached_getOrOpenFile found
      rcases List.mem_append.mp member with here | later
      · rcases passedOf_cases cached here put with old | whole
        · exact .inl ((pending_getOrOpenFile found cell).symm.trans old)
        · exact .inr (brought_head whole)
      · rcases ih later put with before | brought
        · rcases pending_writeSlice_cases cached before with old | whole
          · exact .inl ((pending_getOrOpenFile found cell).symm.trans old)
          · exact .inr (brought_head whole)
        · exact .inr brought.tail

/-- The slices of a block. -/
def slicesOf (pieceIndex blockOffset : Nat) (data : Bytes) : List FileSlice :=
  manager.fileMap.mapBlock (manager.globalOffset pieceIndex blockOffset) data.length

/-- The parts of a block that the streams take, as parts of files on disk. -/
def blockParts (disk : Disk) (pieceIndex blockOffset : Nat) (data : Bytes)
    (results : List SliceResult) : List (Part (Place Bytes) UInt8) :=
  (manager.acceptedParts (manager.slicesOf pieceIndex blockOffset data) data results disk).map
    manager.onDisk

/-- The parts that reach the files while it is written. -/
def passedBlock (disk : Disk) (pieceIndex blockOffset : Nat) (data : Bytes)
    (results : List SliceResult) : List (Part (Place Bytes) UInt8) :=
  (manager.passedParts (manager.slicesOf pieceIndex blockOffset data) data results disk).map
    manager.onDisk

theorem contents_writeBlock (disk : Disk) (pieceIndex blockOffset : Nat) (data : Bytes)
    (results : List SliceResult) :
    (manager.writeBlock disk pieceIndex blockOffset data results).contents =
      storeAll 0 (manager.blockParts disk pieceIndex blockOffset data results) disk.contents :=
  manager.contents_writeSlices _ data results disk

theorem stored_writeBlock (disk : Disk) (pieceIndex blockOffset : Nat) (data : Bytes)
    (results : List SliceResult) :
    (manager.writeBlock disk pieceIndex blockOffset data results).stored =
      storeAll 0 (manager.passedBlock disk pieceIndex blockOffset data results) disk.stored :=
  manager.stored_writeSlices _ data results disk

theorem locate_of_brought {pieceIndex blockOffset : Nat} {data : Bytes} {cell : Bytes × Nat}
    {byte : UInt8} (brought : Brought (manager.slicesOf pieceIndex blockOffset data) data cell byte) :
    ∃ k : Nat, locate manager.fileMap.files (manager.globalOffset pieceIndex blockOffset + k) =
      some cell ∧ data[k]? = some byte := by
  obtain ⟨k, found, value⟩ := brought
  rw [slicesOf, cells_mapBlock] at found
  exact ⟨k, (locate_of_span found).2, value⟩

end DiskManager

end K0Torrent
