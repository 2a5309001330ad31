import K0Torrent.Disk.PutAreas

/-! Bytes that have left the put areas.

Once the byte of a position is in its file, it stays there as long as no block has another one
for the position, even if operations fail.
-/

set_option autoImplicit false

namespace K0Torrent

open FileStore

namespace DiskManager

variable (manager : DiskManager) (disk : Disk)

/-- The byte that a file has for a position of the torrent. -/
def storedAt (position : Nat) : Option UInt8 :=
  (locate manager.fileMap.files position).bind fun cell => disk.stored.at (manager.place cell)

/-- What the files have for a range of the torrent. -/
def storedRange (start count : Nat) : List (Option UInt8) :=
  (List.range count).map fun j => manager.storedAt disk (start + j)

/-- What the files and the put areas have for a range of the torrent. -/
def heldRange (start count : Nat) : List (Option UInt8) :=
  (List.range count).map fun j => manager.byteAt disk (start + j)

/-- The byte of the position is in its file. -/
def Settled (position : Nat) : Prop :=
  ∃ byte, manager.byteAt disk position = some byte ∧ manager.storedAt disk position = some byte

variable {manager disk}

theorem byteAt_of_heldRange {start count j : Nat} {bytes : Bytes}
    (held : manager.heldRange disk start count = bytes.map some) (bound : j < count) :
    ∃ byte, manager.byteAt disk (start + j) = some byte := by
  have here := congrArg (fun range => range[j]?) held
  simp only [heldRange, List.getElem?_map, List.getElem?_range bound, Option.map_some] at here
  obtain ⟨byte, -, same⟩ := Option.map_eq_some_iff.mp here.symm
  exact ⟨byte, same.symm⟩

theorem Settled.storedAt {position : Nat} {byte : UInt8} (settled : manager.Settled disk position)
    (held : manager.byteAt disk position = some byte) :
    manager.storedAt disk position = some byte := by
  obtain ⟨other, here, stored⟩ := settled
  cases held.symm.trans here
  exact stored

/-- What no put area has is in the file. -/
theorem settled_of_pending {position : Nat} {byte : UInt8}
    (held : manager.byteAt disk position = some byte)
    (passed : ∀ cell, locate manager.fileMap.files position = some cell →
      disk.pending cell = none) : manager.Settled disk position := by
  refine ⟨byte, held, ?_⟩
  obtain ⟨cell, here, value⟩ := Option.bind_eq_some_iff.mp held
  rw [DiskManager.storedAt, here, Option.bind_some]
  have none_ := passed cell here
  rcases byteOf_eq_some.mp value with pends | ⟨-, stored⟩
  · cases none_.symm.trans pends
  · exact stored

/-- What is in a file stays, whatever the operations come to, if the block that is written has
nothing else for the place. -/
theorem storedAt_writeBlock {pieceIndex blockOffset position : Nat} {data : Bytes}
    {results : List SliceResult} {byte : UInt8} (separates : manager.Separates)
    (tidy : manager.Tidy disk) (held : manager.byteAt disk position = some byte)
    (stored : manager.storedAt disk position = some byte)
    (agrees : ∀ k other, manager.globalOffset pieceIndex blockOffset + k = position →
      data[k]? = some other → other = byte) :
    manager.storedAt (manager.writeBlock disk pieceIndex blockOffset data results) position =
      some byte := by
  obtain ⟨cell, here, value⟩ := Option.bind_eq_some_iff.mp stored
  rw [byteAt, here, Option.bind_some] at held
  have only : ∀ other, lastPut (manager.place cell)
      (manager.passedBlock disk pieceIndex blockOffset data results) = some other → other = byte := by
    intro other put
    obtain ⟨last, member, reached⟩ := mem_of_lastPut put
    obtain ⟨part, inside, rfl⟩ := List.mem_map.mp member
    obtain ⟨source, same, put⟩ := manager.exists_of_onDisk reached
    rcases manager.passed_cases _ inside put with pends | brought
    · -- A put area that has the place is that of the position's own file.
      obtain ⟨first, there⟩ := tidy source other pends
      obtain rfl := separates there here same
      cases there.symm.trans here
      rw [byteOf, pends] at held
      exact Option.some.inj held
    · obtain ⟨k, there, given⟩ := manager.locate_of_brought brought
      exact agrees k other (separates there here same) given
  rw [DiskManager.storedAt, here, Option.bind_some, stored_writeBlock]
  cases put : lastPut (manager.place cell)
      (manager.passedBlock disk pieceIndex blockOffset data results) with
  | none => exact at_storeAll_of_kept 0 _ _ put value
  | some other =>
    rw [at_storeAll_of_put 0 _ _ put, only other put]

end DiskManager

end K0Torrent
