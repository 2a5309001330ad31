import K0Torrent.Disk.PutAreas
import Mathlib.Data.List.Nodup

/-! The files of a consistent torrent.

Each position of such a torrent belongs to one position of one file on disk, so
what is stored there can be read and written position by position.
-/

set_option autoImplicit false

namespace K0Torrent

structure Consistent (torrent : TorrentFile) (downloadDir workingDir : Bytes) : Prop where
  lengths : ∀ file ∈ registered torrent, 0 ≤ file.2
  size : torrent.totalSize < 2 ^ 63
  distinct : ((registered torrent).map fun file =>
    resolve workingDir (joinPath downloadDir file.1)).Nodup
  pieceLength : 0 < torrent.pieceLength ∧ torrent.pieceLength < 2 ^ 63
  pieces : (torrent.pieces.length : Int) =
    (torrent.totalSize + torrent.pieceLength - 1) / torrent.pieceLength

def TorrentFile.size (torrent : TorrentFile) : Nat := torrent.totalSize.toNat

theorem sum_registered (torrent : TorrentFile) :
    ((registered torrent).map Prod.snd).sum = torrent.totalSize := by
  unfold registered TorrentFile.totalSize
  cases torrent.isMultiFile with
  | true =>
    simp only [if_true, List.map_map]
    rfl
  | false => simp

theorem sum_nonneg {files : List (Bytes × Int)} (lengths : ∀ file ∈ files, 0 ≤ file.2) :
    0 ≤ (files.map Prod.snd).sum := by
  induction files with
  | nil => exact Int.le_refl _
  | cons file rest ih =>
    have here := lengths file (List.mem_cons_self ..)
    have later := ih fun other member => lengths other (List.mem_cons_of_mem _ member)
    simp only [List.map_cons, List.sum_cons]
    omega

theorem sum_castU64 {files : List (Bytes × Int)} (lengths : ∀ file ∈ files, 0 ≤ file.2)
    (small : (files.map Prod.snd).sum < 2 ^ 63) :
    ((files.map fun file => castU64 file.2).sum : Int) = (files.map Prod.snd).sum := by
  induction files with
  | nil => rfl
  | cons file rest ih =>
    have here := lengths file (List.mem_cons_self ..)
    have others : ∀ other ∈ rest, 0 ≤ other.2 := fun other member =>
      lengths other (List.mem_cons_of_mem _ member)
    have nonneg := sum_nonneg others
    simp only [List.map_cons, List.sum_cons] at small ⊢
    have same := ih others (by omega)
    have cast := castU64_of_range file.2 here (by omega)
    omega

theorem locate_entriesFrom_ne_none (files : List (Bytes × Int)) {start position : Nat}
    (fits : start + (files.map fun file => castU64 file.2).sum < 2 ^ 64) :
    locate (entriesFrom start files) position ≠ none ↔
      start ≤ position ∧ position < start + (files.map fun file => castU64 file.2).sum := by
  induction files generalizing start with
  | nil =>
    simp only [entriesFrom, locate, ne_eq, not_true_eq_false, List.map_nil, List.sum_nil,
      false_iff]
    omega
  | cons file rest ih =>
    simp only [List.map_cons, List.sum_cons] at fits ⊢
    have next : (start + castU64 file.2) % 2 ^ 64 = start + castU64 file.2 :=
      Nat.mod_eq_of_lt (by omega)
    have later := @ih (start + castU64 file.2) (by omega)
    rw [entriesFrom, locate, next]
    split
    · rename_i holds
      simp only [FileEntry.Holds, FileEntry.fileEnd, next] at holds
      simp only [ne_eq, reduceCtorEq, not_false_eq_true, true_iff]
      omega
    · rename_i beyond
      simp only [FileEntry.Holds, FileEntry.fileEnd, next] at beyond
      rw [later]
      omega

theorem paths_entriesFrom (files : List (Bytes × Int)) : ∀ start : Nat,
    (entriesFrom start files).map FileEntry.path = files.map Prod.fst := by
  induction files with
  | nil => exact fun _ => rfl
  | cons file rest ih => exact fun start => congrArg (List.cons file.1) (ih _)

section
variable {torrent : TorrentFile} {downloadDir workingDir : Bytes}

theorem files_new : (DiskManager.new torrent downloadDir workingDir).fileMap.files =
    entriesFrom 0 (registered torrent) := by
  rw [DiskManager.new, files_foldl_addRegistered]
  rfl

variable (consistent : Consistent torrent downloadDir workingDir)
include consistent

theorem sum_lengths : ((registered torrent).map fun file => castU64 file.2).sum = torrent.size := by
  have same := sum_castU64 consistent.lengths (by rw [sum_registered]; exact consistent.size)
  rw [sum_registered] at same
  unfold TorrentFile.size
  omega

theorem size_lt : torrent.size < 2 ^ 63 := by
  have small := consistent.size
  unfold TorrentFile.size
  omega

theorem distinct_places : ((DiskManager.new torrent downloadDir workingDir).fileMap.files.map fun file =>
    (DiskManager.new torrent downloadDir workingDir).file file.path).Nodup := by
  have paths := congrArg (List.map fun path => resolve workingDir (joinPath downloadDir path))
    (paths_entriesFrom (registered torrent) 0)
  simp only [List.map_map] at paths
  rw [files_new]
  exact (congrArg List.Nodup paths).mpr consistent.distinct

end

/-! ## Bytes by position -/

/-- The positions below `size`, and no others, have a place on disk, each its own. -/
structure DiskManager.Covers (manager : DiskManager) (size : Nat) : Prop where
  located : ∀ position, locate manager.fileMap.files position ≠ none ↔ position < size
  separate : ∀ {first second : Nat} {cell cell' : Bytes × Nat},
    locate manager.fileMap.files first = some cell →
    locate manager.fileMap.files second = some cell' →
    manager.place cell = manager.place cell' → first = second

theorem DiskManager.Covers.separates {manager : DiskManager} {size : Nat}
    (covers : manager.Covers size) : manager.Separates :=
  fun _ _ _ _ => covers.separate

theorem Consistent.covers {torrent : TorrentFile} {downloadDir workingDir : Bytes}
    (consistent : Consistent torrent downloadDir workingDir) :
    (DiskManager.new torrent downloadDir workingDir).Covers torrent.size where
  located position := by
    have small := size_lt consistent
    have total := sum_lengths consistent
    rw [files_new, locate_entriesFrom_ne_none _ (by omega)]
    omega
  separate firstAt secondAt same := by
    obtain ⟨path, offset⟩ := Prod.mk.inj same
    exact locate_inj ((distinct_places consistent).sublist (List.filter_sublist.map _)) firstAt
      secondAt path offset

end K0Torrent
