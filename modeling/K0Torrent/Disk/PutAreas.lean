import K0Torrent.Disk.Stored

/-! Writes whose operations succeed, however much the streams keep to themselves.

The byte of a position is in the put area of the stream of its file, or else in the file. Where no
two positions share a place on disk, seeking moves it from the one to the other, and only a block
that reaches the position changes it.
-/

set_option autoImplicit false

namespace K0Torrent

open FileStore

structure SliceResult.Succeeds (result : SliceResult) : Prop where
  opening : result.opening = .opened
  flushed : result.flushed = none
  moved : result.moved = none

theorem succeeds_done : SliceResult.done.Succeeds := ⟨rfl, rfl, rfl⟩

namespace DiskManager

/-- Every operation the results speak of succeeds. -/
def Succeed (results : List SliceResult) : Prop := ∀ result ∈ results, result.Succeeds

/-- The streams pass on at once all that they take. -/
def PassOn (results : List SliceResult) : Prop := ∀ result ∈ results, result.held = 0

theorem forall_headD {results : List SliceResult} {P : SliceResult → Prop} (done : P .done)
    (all : ∀ result ∈ results, P result) : P (results.headD .done) := by
  cases results with
  | nil => exact done
  | cons result rest => exact all result (List.mem_cons_self ..)

theorem forall_tail {results : List SliceResult} {P : SliceResult → Prop}
    (all : ∀ result ∈ results, P result) : ∀ result ∈ results.tail, P result :=
  fun result member => all result (List.mem_of_mem_tail member)

theorem getOrOpenFile_opened {disk : Disk} {path : Bytes} {result : SliceResult}
    (succeeds : result.Succeeds) (sound : disk.openFiles path ≠ some .failed) :
    ∃ area disk', getOrOpenFile disk path result.opening = some (.good area, disk') ∧
      ∀ other, disk'.openFiles other = some .failed → disk.openFiles other = some .failed := by
  rw [succeeds.opening]
  unfold getOrOpenFile
  cases cached : disk.openFiles path with
  | none =>
    refine ⟨_, _, rfl, fun other failed => ?_⟩
    by_cases same : other = path
    · subst same
      simp only [Disk.setStream, Function.update_self] at failed
      cases failed
    · simpa only [Disk.setStream, Function.update_of_ne same] using failed
  | some stream =>
    cases stream with
    | good area => exact ⟨area, disk, rfl, fun _ => id⟩
    | failed => exact absurd cached sound

variable {manager : DiskManager}

section
variable {disk : Disk} {slice : FileSlice} {area : PutArea} {part : Bytes} {result : SliceResult}
  (succeeds : result.Succeeds)
include succeeds

theorem writeSlice_of_succeeds : manager.writeSlice disk slice (.good area) part result =
    manager.put (manager.seek disk slice.filePath area) slice.filePath slice.fileOffset part
      result := by
  rw [writeSlice, succeeds.flushed]

theorem openFiles_put {path : Bytes} {offset : Nat} :
    (manager.put disk path offset part result).openFiles = Function.update disk.openFiles path
      (some (.good ⟨offset + (part.take (part.length - result.held)).length,
        part.drop (part.length - result.held)⟩)) := by
  rw [put, succeeds.moved]
  rfl

theorem stored_put {path : Bytes} {offset : Nat} :
    (manager.put disk path offset part result).stored = store 0 disk.stored
      (manager.onDisk ⟨path, offset, part.take (part.length - result.held)⟩) := by
  rw [put, succeeds.moved]
  rfl

theorem openFiles_writeSlice_ne_failed {path : Bytes} (sound : disk.openFiles path ≠ some .failed) :
    (manager.writeSlice disk slice (.good area) part result).openFiles path ≠ some .failed := by
  rw [writeSlice_of_succeeds succeeds, openFiles_put succeeds]
  by_cases same : path = slice.filePath
  · subst same
    rw [Function.update_self]
    nofun
  · rw [Function.update_of_ne same]
    simpa only [seek, pass, Disk.setStream, Function.update_of_ne same] using sound

end

/-- No stream fails if nothing does. -/
theorem openFiles_writeSlices_ne_failed (slices : List FileSlice) : ∀ {data : Bytes}
    {results : List SliceResult} {disk : Disk}, Succeed results →
    (∀ path, disk.openFiles path ≠ some .failed) →
    ∀ path, (manager.writeSlices slices data results disk).openFiles path ≠ some .failed := by
  induction slices with
  | nil => exact fun _ sound => sound
  | cons slice rest ih =>
    intro data results disk succeed sound
    have succeeds := forall_headD succeeds_done succeed
    obtain ⟨area, disk', opened, failed⟩ := getOrOpenFile_opened succeeds (sound slice.filePath)
    simp only [writeSlices, opened]
    exact ih (forall_tail succeed) fun path => openFiles_writeSlice_ne_failed succeeds
      fun cached => sound path (failed path cached)

/-! ## Bytes by cell -/

/-- The byte of a cell: that in the put area of its stream, or else that in its file. -/
def byteOf (manager : DiskManager) (disk : Disk) (cell : Bytes × Nat) : Option UInt8 :=
  disk.pending cell <|> disk.stored.at (manager.place cell)

theorem byteOf_eq_some {disk : Disk} {cell : Bytes × Nat} {byte : UInt8} :
    manager.byteOf disk cell = some byte ↔ disk.pending cell = some byte ∨
      disk.pending cell = none ∧ disk.stored.at (manager.place cell) = some byte := by
  unfold byteOf
  cases disk.pending cell <;> simp

/-- The file of a path once its stream has been flushed. -/
def flushed (manager : DiskManager) (disk : Disk) (path : Bytes) : Bytes :=
  match disk.openFiles path with
  | some (.good area) => writeAt 0 (disk.stored (manager.file path)) area.offset area.bytes
  | some .failed | none => disk.stored (manager.file path)

theorem flushed_of_good {disk : Disk} {path : Bytes} {area : PutArea}
    (cached : disk.openFiles path = some (.good area)) :
    manager.flushed disk path = (manager.seek disk path area).stored (manager.file path) := by
  rw [flushed, cached]
  simp only [seek, pass, Disk.setStream, store, Function.update_self]

/-- A flush brings each byte to its cell. -/
theorem getElem?_flushed {disk : Disk} {cell : Bytes × Nat} {byte : UInt8}
    (held : manager.byteOf disk cell = some byte) :
    (manager.flushed disk cell.1)[cell.2]? = some byte := by
  rw [byteOf_eq_some] at held
  cases cached : disk.openFiles cell.1 with
  | none =>
    rw [pending_of_unopened disk cached] at held
    rw [flushed, cached]
    exact (held.resolve_left nofun).2
  | some stream =>
    cases stream with
    | failed =>
      have none_ : disk.pending cell = none := by rw [Disk.pending, cached]
      rw [none_] at held
      rw [flushed, cached]
      exact (held.resolve_left nofun).2
    | good area =>
      rw [pending_of_good disk cached] at held
      rw [flushed_of_good cached]
      change Files.at (store 0 disk.stored (manager.onDisk ⟨cell.1, area.offset, area.bytes⟩))
        (manager.place cell) = some byte
      rcases held with put | ⟨none_, old⟩
      · exact at_store_of_put 0 _ _ (manager.itemAt_onDisk put)
      · refine at_store_of_kept 0 _ _ ?_ old
        -- A part of the very file reaches the place only where it reaches the cell.
        unfold Part.itemAt at none_ ⊢
        split
        · rename_i reached
          rwa [if_pos ⟨rfl, reached.2⟩] at none_
        · rfl

/-- No two positions share a place on disk. -/
def Separates (manager : DiskManager) : Prop :=
  ∀ ⦃first second : Nat⦄ ⦃cell cell' : Bytes × Nat⦄,
    locate manager.fileMap.files first = some cell →
    locate manager.fileMap.files second = some cell' →
    manager.place cell = manager.place cell' → first = second

/-- The put areas hold bytes of the torrent only. -/
def Tidy (manager : DiskManager) (disk : Disk) : Prop :=
  ∀ cell byte, disk.pending cell = some byte →
    ∃ position, locate manager.fileMap.files position = some cell

theorem tidy_of_unopened {disk : Disk} (unopened : ∀ path, disk.openFiles path = none) :
    manager.Tidy disk := by
  intro cell byte pends
  rw [pending_of_unopened disk (unopened _)] at pends
  cases pends

/-- Whatever the operations come to. -/
theorem tidy_writeBlock {disk : Disk} {pieceIndex blockOffset : Nat} {data : Bytes}
    {results : List SliceResult} (tidy : manager.Tidy disk) :
    manager.Tidy (manager.writeBlock disk pieceIndex blockOffset data results) := by
  intro cell byte pends
  rcases manager.pending_writeSlices_cases _ pends with before | brought
  · exact tidy cell byte before
  · obtain ⟨k, here, -⟩ := manager.locate_of_brought brought
    exact ⟨_, here⟩

/-- The part lies in registered files. -/
def InMap (manager : DiskManager) (part : Part Bytes UInt8) : Prop :=
  ∀ cell byte, part.itemAt cell = some byte →
    ∃ position, locate manager.fileMap.files position = some cell

theorem Tidy.inMap {disk : Disk} (tidy : manager.Tidy disk) {path : Bytes} {area : PutArea}
    (cached : disk.openFiles path = some (.good area)) :
    manager.InMap ⟨path, area.offset, area.bytes⟩ := by
  intro cell byte put
  refine tidy cell byte ?_
  have same : cell.1 = path := key_of_itemAt put
  subst same
  rw [pending_of_good disk cached, put]

section
variable (separates : manager.Separates) {disk : Disk} {position : Nat} {cell : Bytes × Nat}
  (here : locate manager.fileMap.files position = some cell)
include separates here

/-- On disk a part reaches the place of a position only if it reaches its cell. -/
theorem itemAt_place {part : Part Bytes UInt8} (inMap : manager.InMap part) :
    (manager.onDisk part).itemAt (manager.place cell) = part.itemAt cell := by
  cases put : part.itemAt cell with
  | some byte => exact manager.itemAt_onDisk put
  | none =>
    by_contra reached
    obtain ⟨byte, reached⟩ := Option.ne_none_iff_exists'.mp reached
    obtain ⟨source, same, value⟩ := manager.exists_of_onDisk reached
    obtain ⟨other, there⟩ := inMap source byte value
    obtain rfl := separates there here same
    cases here.symm.trans there
    cases put.symm.trans value

theorem byteOf_seek {path : Bytes} {area : PutArea} {byte : UInt8} (tidy : manager.Tidy disk)
    (cached : disk.openFiles path = some (.good area)) (held : manager.byteOf disk cell = some byte) :
    manager.byteOf (manager.seek disk path area) cell = some byte := by
  have place := itemAt_place separates here (tidy.inMap cached)
  have stored : (manager.seek disk path area).stored =
      store 0 disk.stored (manager.onDisk ⟨path, area.offset, area.bytes⟩) := rfl
  rw [byteOf_eq_some, stored]
  rw [byteOf_eq_some] at held
  by_cases same : cell.1 = path
  · -- What was in the put area is in the file then.
    subst same
    have pends := pending_of_good disk cached
    refine .inr ⟨(pending_setStream_good ..).trans (itemAt_empty ..), ?_⟩
    rcases held with area_ | ⟨none_, old⟩
    · exact at_store_of_put 0 _ _ (place.trans (pends.symm.trans area_))
    · exact at_store_of_kept 0 _ _ (place.trans (pends.symm.trans none_)) old
  · have kept : (manager.seek disk path area).pending cell = disk.pending cell :=
      pending_setStream_of_ne _ _ same
    have none_ : Part.itemAt ⟨path, area.offset, area.bytes⟩ cell = none := by
      rw [Part.itemAt, if_neg fun reached => same reached.1]
    rw [kept]
    refine held.imp_right fun old => ⟨old.1, ?_⟩
    exact at_store_of_kept 0 _ _ (place.trans none_) old.2

theorem byteOf_put {path : Bytes} {offset : Nat} {part : Bytes} {result : SliceResult}
    {byte : UInt8} (succeeds : result.Succeeds) (inMap : manager.InMap ⟨path, offset, part⟩)
    (empty : cell.1 = path → disk.pending cell = none)
    (value : (Part.itemAt ⟨path, offset, part⟩ cell <|> manager.byteOf disk cell) = some byte) :
    manager.byteOf (manager.put disk path offset part result) cell = some byte := by
  -- The front of the part is passed on, and the rest stays.
  generalize count : part.length - result.held = n
  have front : manager.InMap ⟨path, offset, part.take n⟩ := fun cell byte put =>
    inMap cell byte (@itemAt_take _ _ _ ⟨path, offset, part⟩ cell byte n put)
  have place := itemAt_place separates here front
  have pends : (manager.put disk path offset part result).pending cell = if cell.1 = path then
      Part.itemAt ⟨path, offset + (part.take n).length, part.drop n⟩ cell else disk.pending cell := by
    rw [put, succeeds.moved]
    dsimp only
    rw [count]
    by_cases same : cell.1 = path
    · subst same
      rw [if_pos rfl]
      exact pending_setStream_good ..
    · rw [if_neg same]
      exact pending_setStream_of_ne _ _ same
  have stored := @stored_put manager disk part result succeeds path offset
  rw [count] at stored
  rw [byteOf_eq_some, pends, stored]
  cases put : Part.itemAt ⟨path, offset, part⟩ cell with
  | some other =>
    rw [put] at value
    obtain rfl : other = byte := Option.some.inj value
    have same : cell.1 = path := key_of_itemAt put
    rw [if_pos same]
    cases rest : Part.itemAt ⟨path, offset + (part.take n).length, part.drop n⟩ cell with
    | some last =>
      have whole := @itemAt_drop _ _ _ ⟨path, offset, part⟩ cell last n rest
      exact .inl (whole.symm.trans put)
    | none =>
      have passed := (@itemAt_split _ _ _ ⟨path, offset, part⟩ cell _ n put).resolve_right
        (by rw [rest]; exact (Option.some_ne_none _).symm)
      exact .inr ⟨rfl, at_store_of_put 0 _ _ (place.trans passed)⟩
  | none =>
    rw [put] at value
    have missed : ∀ {half : Option UInt8}, (∀ other, half = some other →
        Part.itemAt ⟨path, offset, part⟩ cell = some other) → half = none := by
      intro half reached
      refine Option.eq_none_iff_forall_ne_some.mpr fun other there => ?_
      cases put.symm.trans (reached other there)
    have frontNone : Part.itemAt ⟨path, offset, part.take n⟩ cell = none :=
      missed fun other => @itemAt_take _ _ _ ⟨path, offset, part⟩ cell other n
    have restNone : Part.itemAt ⟨path, offset + (part.take n).length, part.drop n⟩ cell = none :=
      missed fun other => @itemAt_drop _ _ _ ⟨path, offset, part⟩ cell other n
    have kept : ∀ {byte}, disk.stored.at (manager.place cell) = some byte →
        Files.at (store 0 disk.stored (manager.onDisk ⟨path, offset, part.take n⟩))
          (manager.place cell) = some byte :=
      fun old => at_store_of_kept 0 _ _ (place.trans frontNone) old
    have value : manager.byteOf disk cell = some byte := value
    rw [byteOf_eq_some] at value
    split
    · rename_i same
      rw [empty same] at value
      exact .inr ⟨restNone, kept (value.resolve_left (by simp)).2⟩
    · exact value.imp_right fun old => ⟨old.1, kept old.2⟩

end

/-- The parts of `data` by slice. -/
def wholeParts : List FileSlice → Bytes → List (Part Bytes UInt8)
  | [], _ => []
  | slice :: rest, data =>
    ⟨slice.filePath, slice.fileOffset, data.take slice.size⟩ :: wholeParts rest (data.drop slice.size)

theorem brought_of_lastPut (slices : List FileSlice) : ∀ {data : Bytes} {cell : Bytes × Nat}
    {byte : UInt8}, lastPut cell (wholeParts slices data) = some byte →
    Brought slices data cell byte := by
  induction slices with
  | nil => exact fun put => nomatch put
  | cons slice rest ih =>
    intro data cell byte put
    rw [wholeParts, lastPut] at put
    cases later : lastPut cell (wholeParts rest (data.drop slice.size)) with
    | some other =>
      rw [later] at put
      exact (ih (later.trans put)).tail
    | none =>
      rw [later] at put
      exact brought_head put

theorem Brought.mem_wholeParts (slices : List FileSlice) : ∀ {data : Bytes} {cell : Bytes × Nat}
    {byte : UInt8}, Brought slices data cell byte →
    ∃ part ∈ wholeParts slices data, part.itemAt cell = some byte := by
  induction slices with
  | nil =>
    rintro data cell byte ⟨k, found, -⟩
    cases found
  | cons slice rest ih =>
    intro data cell byte brought
    rcases brought.cases with put | later
    · exact ⟨_, List.mem_cons_self .., put⟩
    · obtain ⟨part, member, put⟩ := ih later
      exact ⟨part, List.mem_cons_of_mem _ member, put⟩

/-- Without failures a cell has then what the block puts there last, or what it had. -/
theorem byteOf_writeSlices (separates : manager.Separates) (slices : List FileSlice) :
    ∀ {data : Bytes} {results : List SliceResult} {disk : Disk}, Succeed results →
    (∀ path, disk.openFiles path ≠ some .failed) → manager.Tidy disk →
    (∀ cell byte, Brought slices data cell byte →
      ∃ position, locate manager.fileMap.files position = some cell) →
    ∀ {position cell byte}, locate manager.fileMap.files position = some cell →
      (lastPut cell (wholeParts slices data) <|> manager.byteOf disk cell) = some byte →
      manager.byteOf (manager.writeSlices slices data results disk) cell = some byte := by
  induction slices with
  | nil =>
    intro data results disk _ _ _ _ position cell byte _ value
    exact value
  | cons slice rest ih =>
    intro data results disk succeed sound tidy inMap position cell byte here value
    have succeeds := forall_headD succeeds_done succeed
    obtain ⟨area, disk', opened, failed⟩ := getOrOpenFile_opened succeeds (sound slice.filePath)
    have cached := cached_getOrOpenFile opened
    simp only [writeSlices, opened]
    have tidy' : manager.Tidy disk' := fun cell byte pends =>
      tidy cell byte ((pending_getOrOpenFile opened cell).symm.trans pends)
    have head : manager.InMap ⟨slice.filePath, slice.fileOffset, data.take slice.size⟩ :=
      fun cell byte put => inMap cell byte (brought_head put)
    refine ih (forall_tail succeed) ?_ ?_ ?_ here ?_
    · exact fun path => openFiles_writeSlice_ne_failed succeeds fun bad => sound path (failed path bad)
    · intro cell byte pends
      rcases pending_writeSlice_cases cached pends with before | put
      · exact tidy' cell byte before
      · exact head cell byte put
    · exact fun cell byte later => inMap cell byte later.tail
    · rw [wholeParts, lastPut] at value
      cases later : lastPut cell (wholeParts rest (data.drop slice.size)) with
      | some other =>
        rw [later] at value
        exact value
      | none =>
        rw [later] at value
        have same : manager.byteOf disk' cell = manager.byteOf disk cell := by
          rw [byteOf, byteOf, pending_getOrOpenFile opened, stored_getOrOpenFile opened]
        have value : (Part.itemAt ⟨slice.filePath, slice.fileOffset, data.take slice.size⟩ cell <|>
            manager.byteOf disk cell) = some byte := value
        rw [writeSlice_of_succeeds succeeds]
        refine byteOf_put separates here succeeds head ?_ ?_
        · intro same
          rw [← same, seek]
          exact (pending_setStream_good ..).trans (itemAt_empty ..)
        · cases put : Part.itemAt ⟨slice.filePath, slice.fileOffset, data.take slice.size⟩ cell with
          | some other =>
            rw [put] at value
            exact value
          | none =>
            rw [put] at value
            exact byteOf_seek separates here tidy' cached (same.trans value)

/-! ## Streams that keep nothing -/

section
variable (slices : List FileSlice)

/-- What is in a put area then is what a stream holds that the block does not reach. -/
theorem pending_of_pass : ∀ {data : Bytes} {results : List SliceResult} {disk : Disk},
    Succeed results → PassOn results → (∀ path, disk.openFiles path ≠ some .failed) →
    ∀ {cell byte}, (manager.writeSlices slices data results disk).pending cell = some byte →
      disk.pending cell = some byte ∧ ∀ slice ∈ slices, slice.filePath ≠ cell.1 := by
  induction slices with
  | nil =>
    intro data results disk _ _ _ cell byte pends
    exact ⟨pends, List.forall_mem_nil _⟩
  | cons slice rest ih =>
    intro data results disk succeed pass sound cell byte pends
    have succeeds := forall_headD succeeds_done succeed
    obtain ⟨area, disk', opened, failed⟩ := getOrOpenFile_opened succeeds (sound slice.filePath)
    simp only [writeSlices, opened] at pends
    obtain ⟨before, others⟩ := ih (forall_tail succeed) (forall_tail pass)
      (fun path => openFiles_writeSlice_ne_failed succeeds fun bad => sound path (failed path bad))
      pends
    have kept := forall_headD (P := fun result => result.held = 0) rfl pass
    have other : cell.1 ≠ slice.filePath := by
      intro same
      unfold Disk.pending at before
      rw [same, writeSlice_of_succeeds succeeds, openFiles_put succeeds, Function.update_self, kept,
        Nat.sub_zero, List.drop_length] at before
      dsimp only at before
      rw [itemAt_empty] at before
      cases before
    refine ⟨?_, List.forall_mem_cons.mpr ⟨other.symm, others⟩⟩
    rw [← pending_getOrOpenFile opened]
    unfold Disk.pending at before ⊢
    rwa [openFiles_writeSlice_of_ne other] at before

/-- All of the block reaches the files. -/
theorem mem_passedParts_of_pass : ∀ {data : Bytes} {results : List SliceResult} {disk : Disk},
    Succeed results → PassOn results →
    (∀ slice ∈ slices, disk.openFiles slice.filePath ≠ some .failed) →
    ∀ part ∈ wholeParts slices data, part ∈ manager.passedParts slices data results disk := by
  induction slices with
  | nil => exact fun _ _ _ _ member => absurd member List.not_mem_nil
  | cons slice rest ih =>
    intro data results disk succeed pass sound part member
    have succeeds := forall_headD succeeds_done succeed
    obtain ⟨area, disk', opened, failed⟩ :=
      getOrOpenFile_opened succeeds (sound slice (List.mem_cons_self ..))
    have kept := forall_headD (P := fun result => result.held = 0) rfl pass
    simp only [passedParts, opened]
    rcases List.mem_cons.mp member with rfl | later
    · have both : passedOf slice (.good area) (data.take slice.size) (results.headD .done) =
          [⟨slice.filePath, area.offset, area.bytes⟩,
            ⟨slice.filePath, slice.fileOffset, data.take slice.size⟩] := by
        simp only [passedOf, succeeds.flushed, succeeds.moved, kept, Option.getD_none, Nat.sub_zero,
          List.take_length]
      rw [both]
      exact List.mem_append_left _ (List.mem_cons_of_mem _ (List.mem_singleton_self _))
    · refine List.mem_append_right _ (ih (forall_tail succeed) (forall_tail pass) ?_ part later)
      exact fun other inRest => openFiles_writeSlice_ne_failed succeeds fun bad =>
        sound other (List.mem_cons_of_mem _ inRest) (failed _ bad)

end

/-! ## Bytes by position -/

/-- The byte that the files and put areas have for a position of the torrent. -/
def byteAt (manager : DiskManager) (disk : Disk) (position : Nat) : Option UInt8 :=
  (locate manager.fileMap.files position).bind (manager.byteOf disk)

section
variable {disk : Disk} {pieceIndex blockOffset : Nat} {data : Bytes} {results : List SliceResult}

theorem sound_writeBlock (succeed : Succeed results)
    (sound : ∀ path, disk.openFiles path ≠ some .failed) (path : Bytes) :
    (manager.writeBlock disk pieceIndex blockOffset data results).openFiles path ≠ some .failed :=
  openFiles_writeSlices_ne_failed _ succeed sound path

variable (separates : manager.Separates) (succeed : Succeed results)
  (sound : ∀ path, disk.openFiles path ≠ some .failed) (tidy : manager.Tidy disk)
include separates

/-- The last byte that a block puts into the cell of a position is the one that belongs there. -/
theorem lastPut_block {position : Nat} {cell : Bytes × Nat} {byte : UInt8}
    (here : locate manager.fileMap.files position = some cell)
    (put : lastPut cell (wholeParts (manager.slicesOf pieceIndex blockOffset data) data) = some byte) :
    manager.globalOffset pieceIndex blockOffset ≤ position ∧
      data[position - manager.globalOffset pieceIndex blockOffset]? = some byte := by
  obtain ⟨k, there, value⟩ := manager.locate_of_brought (brought_of_lastPut _ put)
  obtain rfl := separates there here rfl
  rw [Nat.add_sub_cancel_left]
  exact ⟨Nat.le_add_right .., value⟩

include succeed sound tidy

/-- After a write without failures the positions of the block have its bytes. -/
theorem byteAt_writeBlock_inside {k : Nat} {byte : UInt8} (value : data[k]? = some byte)
    (located : ∀ j ≤ k,
      locate manager.fileMap.files (manager.globalOffset pieceIndex blockOffset + j) ≠ none) :
    manager.byteAt (manager.writeBlock disk pieceIndex blockOffset data results)
        (manager.globalOffset pieceIndex blockOffset + k) = some byte := by
  have bound := (List.getElem?_eq_some_iff.mp value).1
  -- The positions before this one are mapped too, so the block is not cut short.
  have cells := span_of_locate located bound
  obtain ⟨cell, here⟩ := Option.ne_none_iff_exists'.mp (located k (Nat.le_refl _))
  rw [here, ← cells_mapBlock] at cells
  obtain ⟨part, member, put⟩ := Brought.mem_wholeParts
    (manager.slicesOf pieceIndex blockOffset data) ⟨k, cells, value⟩
  obtain ⟨last, lastIs⟩ := Option.ne_none_iff_exists'.mp
    (lastPut_ne_none member (by rw [put]; nofun))
  obtain ⟨-, value'⟩ := lastPut_block separates here lastIs
  rw [Nat.add_sub_cancel_left, value] at value'
  rw [byteAt, here, Option.bind_some]
  refine byteOf_writeSlices separates _ succeed sound tidy ?_ here ?_
  · intro cell byte brought
    obtain ⟨j, there, -⟩ := manager.locate_of_brought brought
    exact ⟨_, there⟩
  · change (lastPut cell (wholeParts (manager.slicesOf pieceIndex blockOffset data) data) <|> _) = _
    rw [lastIs]
    exact value'.symm

/-- Positions outside the block keep what they have. -/
theorem byteAt_writeBlock_outside {position : Nat} {byte : UInt8}
    (outside : position < manager.globalOffset pieceIndex blockOffset ∨
      manager.globalOffset pieceIndex blockOffset + data.length ≤ position)
    (stored : manager.byteAt disk position = some byte) :
    manager.byteAt (manager.writeBlock disk pieceIndex blockOffset data results) position =
      some byte := by
  obtain ⟨cell, here, holds⟩ := Option.bind_eq_some_iff.mp stored
  have none_ : lastPut cell (wholeParts (manager.slicesOf pieceIndex blockOffset data) data) = none := by
    by_contra put
    obtain ⟨last, lastIs⟩ := Option.ne_none_iff_exists'.mp put
    obtain ⟨reached, value⟩ := lastPut_block separates here lastIs
    have bound := (List.getElem?_eq_some_iff.mp value).1
    omega
  rw [byteAt, here, Option.bind_some]
  refine byteOf_writeSlices separates _ succeed sound tidy ?_ here ?_
  · intro cell byte brought
    obtain ⟨j, there, -⟩ := manager.locate_of_brought brought
    exact ⟨_, there⟩
  · change (lastPut cell (wholeParts (manager.slicesOf pieceIndex blockOffset data) data) <|> _) = _
    rw [none_]
    exact holds

end

end DiskManager

end K0Torrent
