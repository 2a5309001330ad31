import K0Torrent.Disk.Layout
import K0Torrent.Library.Chunks

/-! The files of a torrent that is on disk as a whole.

Writes never make a file longer than it is registered. Once every position of the
torrent holds its byte, the files one after the other are the content.
-/

set_option autoImplicit false

namespace K0Torrent

open LexicalPath FileStore

/-! ## Files laid end to end -/

theorem globalOffset_entriesFrom {files : List (Bytes × Int)} {file : FileEntry} :
    ∀ {start : Nat}, start + (files.map fun file => castU64 file.2).sum < 2 ^ 64 →
      file ∈ entriesFrom start files → start ≤ file.globalOffset := by
  induction files with
  | nil => exact fun _ member => nomatch member
  | cons first rest ih =>
    intro start fits member
    simp only [List.map_cons, List.sum_cons] at fits
    have next : (start + castU64 first.2) % 2 ^ 64 = start + castU64 first.2 :=
      Nat.mod_eq_of_lt (by omega)
    rw [entriesFrom, next] at member
    rcases List.mem_cons.mp member with rfl | later
    · exact Nat.le_refl _
    · have behind := ih (by omega) later
      omega

/-- Without a wrap a position is found in the only file that holds it. -/
theorem locate_of_mem {files : List (Bytes × Int)} {file : FileEntry} {k : Nat}
    (inside : k < file.length) : ∀ {start : Nat},
      start + (files.map fun file => castU64 file.2).sum < 2 ^ 64 →
      file ∈ entriesFrom start files →
      locate (entriesFrom start files) (file.globalOffset + k) = some (file.path, k) := by
  induction files with
  | nil => exact fun _ member => nomatch member
  | cons first rest ih =>
    intro start fits member
    simp only [List.map_cons, List.sum_cons] at fits
    have next : (start + castU64 first.2) % 2 ^ 64 = start + castU64 first.2 :=
      Nat.mod_eq_of_lt (by omega)
    rw [entriesFrom, next] at member ⊢
    rcases List.mem_cons.mp member with rfl | later
    · -- The first file of the rest holds its own positions,
      have holds : FileEntry.Holds ⟨first.1, castU64 first.2, start, castU64_lt first.2⟩
          (start + k) := by
        refine ⟨Nat.le_add_right .., ?_⟩
        rw [FileEntry.fileEnd, next]
        exact Nat.add_lt_add_left inside start
      rw [locate, if_pos holds, Nat.add_sub_cancel_left]
    · -- and none of those that belong to a later file.
      have behind := globalOffset_entriesFrom (by omega) later
      rw [locate, if_neg, ih (by omega) later]
      intro holds
      have before := holds.2
      rw [FileEntry.fileEnd, next] at before
      omega

/-- Files that hold a sequence piece by piece are together the sequence. -/
theorem map_some_flatten_entriesFrom {files : List (Bytes × Int)} (contents : FileEntry → Bytes)
    (f : Nat → Option UInt8) : ∀ {start : Nat},
      start + (files.map fun file => castU64 file.2).sum < 2 ^ 64 →
      (∀ file ∈ entriesFrom start files, (contents file).map some =
        (List.range file.length).map fun k => f (file.globalOffset + k)) →
      ((entriesFrom start files).map contents).flatten.map some =
        (List.range (files.map fun file => castU64 file.2).sum).map fun k => f (start + k) := by
  induction files with
  | nil => exact fun _ _ => rfl
  | cons first rest ih =>
    intro start fits stored
    simp only [List.map_cons, List.sum_cons] at fits ⊢
    have next : (start + castU64 first.2) % 2 ^ 64 = start + castU64 first.2 :=
      Nat.mod_eq_of_lt (by omega)
    rw [entriesFrom, next] at stored ⊢
    have here := stored _ (List.mem_cons_self ..)
    have later := ih (by omega) fun file member => stored file (List.mem_cons_of_mem _ member)
    rw [List.map_cons, List.flatten_cons, List.map_append, here, later, List.range_add,
      List.map_append, List.map_map]
    simp only [Function.comp_def, Nat.add_assoc]

namespace DiskManager

/-- No file is longer than it is registered. -/
def Bounded (manager : DiskManager) (files : Files (Place Bytes) UInt8) : Prop :=
  ∀ file ∈ manager.fileMap.files, (files (manager.file file.path)).length ≤ file.length

section
variable {manager : DiskManager} {disk : Disk}
  (distinct : (manager.fileMap.files.map fun file => manager.file file.path).Nodup)
include distinct

/-- A position of the torrent that lies in a file lies within its length. -/
theorem lt_length_of_locate {file : FileEntry} (member : file ∈ manager.fileMap.files)
    {position : Nat} {cell : Bytes × Nat} (here : locate manager.fileMap.files position = some cell)
    (same : manager.file cell.1 = manager.file file.path) : cell.2 < file.length := by
  obtain ⟨other, member', holds, rfl⟩ := locate_eq_some here
  obtain rfl : other = file := List.inj_on_of_nodup_map distinct member' member same
  have whole := fileEnd_of_holds holds.1 holds.2
  have upper := holds.2
  have lower := holds.1
  dsimp only
  omega

theorem bounded_writeBlock {pieceIndex blockOffset : Nat} {data : Bytes}
    {results : List SliceResult} (bounded : manager.Bounded disk.stored) (tidy : manager.Tidy disk) :
    manager.Bounded (manager.writeBlock disk pieceIndex blockOffset data results).stored := by
  intro file member
  rw [stored_writeBlock]
  by_contra grown
  have few := bounded file member
  -- The file would have grown to a cell of the torrent, which lies within the file's length.
  have filled : Files.at (storeAll 0 (manager.passedBlock disk pieceIndex blockOffset data results)
      disk.stored) (manager.file file.path, file.length) ≠ none := by
    rw [Files.at, List.getElem?_eq_getElem (by dsimp only; omega)]
    exact Option.some_ne_none _
  have empty : disk.stored.at (manager.file file.path, file.length) = none :=
    List.getElem?_eq_none few
  obtain ⟨further, behind, put⟩ := at_storeAll_grows 0 _ _ filled empty
  obtain ⟨byte, last⟩ := Option.ne_none_iff_exists'.mp put
  obtain ⟨part, inside, source, same, value⟩ := manager.exists_of_lastPut last
  have located : ∃ position, locate manager.fileMap.files position = some source := by
    rcases manager.passed_cases _ inside value with pends | brought
    · exact tidy source byte pends
    · obtain ⟨k, here, -⟩ := manager.locate_of_brought brought
      exact ⟨_, here⟩
  obtain ⟨position, here⟩ := located
  obtain ⟨path, offset⟩ := Prod.mk.inj same
  have within := lt_length_of_locate distinct member here path
  dsimp only at behind offset
  omega

/-- Nor is one then that has been flushed. -/
theorem length_flushed_le (bounded : manager.Bounded disk.stored) (tidy : manager.Tidy disk)
    {file : FileEntry} (member : file ∈ manager.fileMap.files) :
    (manager.flushed disk file.path).length ≤ file.length := by
  have few := bounded file member
  unfold flushed
  split
  · rename_i area cached
    rw [length_writeAt]
    split
    · exact few
    · rename_i some_
      have positive := List.length_pos_iff.mpr some_
      have last : disk.pending (file.path, area.offset + (area.bytes.length - 1)) =
          area.bytes[area.bytes.length - 1]? := by
        rw [pending_of_good disk cached, Part.itemAt, if_pos ⟨rfl, Nat.le_add_right ..⟩,
          Nat.add_sub_cancel_left]
      rw [List.getElem?_eq_getElem (by omega)] at last
      obtain ⟨position, here⟩ := tidy _ _ last
      have within := lt_length_of_locate distinct member here rfl
      dsimp only at within
      omega
  · exact few
  · exact few

end

end DiskManager

section
variable {torrent : TorrentFile} {downloadDir workingDir : Bytes} {content : Bytes}
  (bytes : Bytes → Bytes) (consistent : Consistent torrent downloadDir workingDir)
  (bounded : ∀ file ∈ (DiskManager.new torrent downloadDir workingDir).fileMap.files,
    (bytes file.path).length ≤ file.length)
  (total : torrent.size = content.length)
  (holds : ∀ position cell,
    locate (DiskManager.new torrent downloadDir workingDir).fileMap.files position = some cell →
      (bytes cell.1)[cell.2]? = content[position]?)
include consistent bounded total holds

theorem bytes_of_holds {file : FileEntry}
    (member : file ∈ (DiskManager.new torrent downloadDir workingDir).fileMap.files) :
    (bytes file.path).map some =
      (List.range file.length).map fun k => content[file.globalOffset + k]? := by
  have small := size_lt consistent
  have sum := sum_lengths consistent
  apply List.ext_getElem?
  intro k
  rw [List.getElem?_map, List.getElem?_map]
  by_cases inside : k < file.length
  · have located : locate (DiskManager.new torrent downloadDir workingDir).fileMap.files
        (file.globalOffset + k) = some (file.path, k) := by
      rw [files_new] at member ⊢
      exact locate_of_mem inside (by omega) member
    have within := (consistent.covers.located (file.globalOffset + k)).mp (by rw [located]; nofun)
    have here := holds _ _ located
    dsimp only at here
    rw [here, List.getElem?_range inside, Option.map_some, List.getElem?_eq_getElem (by omega),
      Option.map_some]
  · -- Behind its registered end the file holds nothing.
    have few := bounded file member
    rw [List.getElem?_eq_none (by omega),
      List.getElem?_eq_none (by rw [List.length_range]; exact Nat.not_lt.mp inside)]
    rfl

/-- The files one after the other are the content. -/
theorem flatten_bytes :
    ((DiskManager.new torrent downloadDir workingDir).fileMap.files.map fun file =>
      bytes file.path).flatten = content := by
  have small := size_lt consistent
  have sum := sum_lengths consistent
  have stored : ∀ file ∈ entriesFrom 0 (registered torrent), (bytes file.path).map some =
      (List.range file.length).map fun k => content[file.globalOffset + k]? := by
    intro file member
    exact bytes_of_holds bytes consistent bounded total holds (files_new ▸ member)
  have whole := map_some_flatten_entriesFrom (fun file => bytes file.path)
    (fun position => content[position]?) (by omega) stored
  have same : content.map some = (List.range content.length).map fun k => content[k]? :=
    Chunks.map_some_eq rfl fun _ _ found => found
  rw [sum, total] at whole
  simp only [Nat.zero_add, ← same] at whole
  rw [files_new]
  exact List.map_injective_iff.mpr (fun _ _ => Option.some.inj) whole

end

end K0Torrent
