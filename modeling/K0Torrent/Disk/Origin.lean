import K0Torrent.Disk.PutAreas

/-! Where the bytes of the files come from, whatever the file operations come to.

A write that fails has stored a front of its part, and a put area holds a part of a block, so a
byte that is put anywhere is still the byte of a block that belongs there. And no part of a block
reaches behind the end of a registered file.
-/

set_option autoImplicit false

namespace K0Torrent.DiskManager

open LexicalPath FileStore

variable (manager : DiskManager)

/-- The cell lies in a registered file. -/
def Reaches (cell : Place Bytes × Nat) : Prop :=
  ∃ file ∈ manager.fileMap.files, manager.file file.path = cell.1 ∧ cell.2 < file.length

/-- The byte stands in the block, and belongs into the cell. -/
structure Brings (pieceIndex blockOffset : Nat) (data : Bytes) (cell : Place Bytes × Nat)
    (byte : UInt8) : Prop where
  intro ::
  found : ∃ k source, data[k]? = some byte ∧
    locate manager.fileMap.files (manager.globalOffset pieceIndex blockOffset + k) = some source ∧
    manager.place source = cell

theorem reaches_of_locate {position : Nat} {source : Bytes × Nat}
    (located : locate manager.fileMap.files position = some source) :
    manager.Reaches (manager.place source) := by
  obtain ⟨file, member, holds, rfl⟩ := locate_eq_some located
  refine ⟨file, member, rfl, ?_⟩
  have whole := fileEnd_of_holds holds.1 holds.2
  have upper := holds.2
  have lower := holds.1
  simp only [place]
  omega

variable {manager} in
theorem Brings.reaches {pieceIndex blockOffset : Nat} {data : Bytes} {cell : Place Bytes × Nat}
    {byte : UInt8} (brings : manager.Brings pieceIndex blockOffset data cell byte) :
    manager.Reaches cell := by
  obtain ⟨k, source, -, located, rfl⟩ := brings.found
  exact manager.reaches_of_locate located

theorem brings_of_brought {pieceIndex blockOffset : Nat} {data : Bytes} {source : Bytes × Nat}
    {byte : UInt8}
    (brought : Brought (manager.slicesOf pieceIndex blockOffset data) data source byte) :
    manager.Brings pieceIndex blockOffset data (manager.place source) byte := by
  obtain ⟨k, here, value⟩ := manager.locate_of_brought brought
  exact ⟨k, source, value, here, rfl⟩

/-! ## Parts in registered files -/

section
variable {manager} {parts : List (Part Bytes UInt8)} {files : Files (Place Bytes) UInt8}
  {cell : Place Bytes × Nat} {byte : UInt8} (inMap : ∀ part ∈ parts, manager.InMap part)

include inMap in
theorem reaches_of_lastPut (put : lastPut cell (parts.map manager.onDisk) = some byte) :
    manager.Reaches cell := by
  obtain ⟨part, member, source, rfl, value⟩ := manager.exists_of_lastPut put
  obtain ⟨position, here⟩ := inMap part member source byte value
  exact manager.reaches_of_locate here

include inMap in
/-- A file holds what it held, what a part puts there, and zeros in a gap before that. -/
theorem at_storeAll_parts (filled : Files.at (storeAll 0 (parts.map manager.onDisk) files) cell =
      some byte) :
    files.at cell = some byte ∨
      (∃ part ∈ parts, ∃ source, manager.place source = cell ∧ part.itemAt source = some byte) ∨
      byte = 0 ∧ files.at cell = none ∧ manager.Reaches cell := by
  rcases at_storeAll_cases 0 _ _ filled with put | stored | ⟨zero, empty, further, behind, reached⟩
  · exact .inr (.inl (manager.exists_of_lastPut put))
  · exact .inl stored
  · refine .inr (.inr ⟨zero, empty, ?_⟩)
    obtain ⟨item, put⟩ := Option.ne_none_iff_exists'.mp reached
    obtain ⟨file, member, path, inside⟩ := reaches_of_lastPut inMap put
    exact ⟨file, member, path, Nat.lt_of_le_of_lt behind inside⟩

include inMap in
/-- What lies outside the registered files stays. -/
theorem at_storeAll_of_outside (outside : ¬ manager.Reaches cell)
    (stored : files.at cell = some byte) :
    Files.at (storeAll 0 (parts.map manager.onDisk) files) cell = some byte :=
  at_storeAll_of_kept 0 _ _ (Option.eq_none_iff_forall_ne_some.mpr fun _ put =>
    outside (reaches_of_lastPut inMap put)) stored

end

section
variable {manager} {disk : Disk} {pieceIndex blockOffset : Nat} {data : Bytes}
  {results : List SliceResult} {part : Part Bytes UInt8}

theorem inMap_accepted (member : part ∈ manager.acceptedParts
    (manager.slicesOf pieceIndex blockOffset data) data results disk) : manager.InMap part := by
  intro cell byte put
  obtain ⟨k, here, -⟩ := manager.locate_of_brought (manager.accepted_cases _ member put)
  exact ⟨_, here⟩

theorem inMap_passed (tidy : manager.Tidy disk) (member : part ∈ manager.passedParts
    (manager.slicesOf pieceIndex blockOffset data) data results disk) : manager.InMap part := by
  intro cell byte put
  rcases manager.passed_cases _ member put with pends | brought
  · exact tidy cell byte pends
  · obtain ⟨k, here, -⟩ := manager.locate_of_brought brought
    exact ⟨_, here⟩

end

end K0Torrent.DiskManager
