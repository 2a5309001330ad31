import K0Torrent.Disk.Layout
import K0Torrent.Torrent.Accepted

/-! Where the bytes of any torrent are written.

Nothing is assumed of the lengths in the torrent. Below its total size every
position has a file, and two of them share a place only if two files that are not
empty share their path; `parse_torrent` admits that.
-/

set_option autoImplicit false

namespace K0Torrent

theorem castU64_add (x y : Int) : castU64 (x + y) = (castU64 x + castU64 y) % 2 ^ 64 := by
  unfold castU64
  omega

theorem totalSize_foldl_addRegistered (files : List (Bytes × Int)) : ∀ map : FileMap,
    map.totalSize < 2 ^ 64 → (files.foldl addRegistered map).totalSize =
      (map.totalSize + castU64 (files.map Prod.snd).sum) % 2 ^ 64 := by
  induction files with
  | nil => exact fun map small => (Nat.mod_eq_of_lt small).symm
  | cons file rest ih =>
    intro map _
    have later := ih (addRegistered map file) (Nat.mod_lt _ (by decide))
    rw [List.foldl_cons, later, List.map_cons, List.sum_cons, castU64_add, addRegistered,
      FileMap.addFile]
    simp only [Nat.mod_add_mod, Nat.add_mod_mod, Nat.add_assoc]

section
variable (torrent : TorrentFile) (downloadDir workingDir : Bytes)

/-- The map covers what `total_size` returns, as a `uint64_t`. -/
theorem totalSize_new :
    (DiskManager.new torrent downloadDir workingDir).fileMap.totalSize = castU64 torrent.totalSize := by
  have total := totalSize_foldl_addRegistered (registered torrent) FileMap.empty (by decide)
  rw [sum_registered] at total
  refine total.trans ?_
  rw [FileMap.empty, Nat.zero_add, Nat.mod_eq_of_lt (castU64_lt _)]

theorem located_of_lt {position : Nat} (inside : position < castU64 torrent.totalSize) :
    locate (DiskManager.new torrent downloadDir workingDir).fileMap.files position ≠ none :=
  locate_ne_none (DiskManager.new torrent downloadDir workingDir).fileMap.consecutive (Nat.zero_le _)
    (totalSize_new torrent downloadDir workingDir ▸ inside)

end

/-- The entries that are not empty come from registered files that are not. -/
theorem sublist_entriesFrom {κ : Type} (f : Bytes → κ) (files : List (Bytes × Int)) : ∀ start : Nat,
    (((entriesFrom start files).filter fun file => file.length ≠ 0).map fun file => f file.path).Sublist
      ((files.filter fun file => file.2 ≠ 0).map fun file => f file.1) := by
  induction files with
  | nil => exact fun _ => List.Sublist.refl _
  | cons file rest ih =>
    intro start
    have later := ih ((start + castU64 file.2) % 2 ^ 64)
    by_cases none_ : file.2 = 0
    · have zero : castU64 file.2 = 0 := by rw [none_]; rfl
      rw [entriesFrom, List.filter_cons_of_neg (by simp [zero]), List.filter_cons_of_neg (by simp [none_])]
      exact later
    · have kept : (file :: rest).filter (fun file => file.2 ≠ 0) =
          file :: rest.filter fun file => file.2 ≠ 0 := List.filter_cons_of_pos (by simp [none_])
      rw [kept, List.map_cons, entriesFrom]
      by_cases empty : castU64 file.2 = 0
      · rw [List.filter_cons_of_neg (by simp [empty])]
        exact later.cons _
      · rw [List.filter_cons_of_pos (by simp [empty]), List.map_cons]
        exact later.cons_cons _

/-- The files that are not empty differ in what `f` makes of their paths. -/
def TellsApart {κ : Type} (f : Bytes → κ) (torrent : TorrentFile) : Prop :=
  (((registered torrent).filter fun file => file.2 ≠ 0).map fun file => f file.1).Nodup

instance {κ : Type} [DecidableEq κ] (f : Bytes → κ) (torrent : TorrentFile) :
    Decidable (TellsApart f torrent) := inferInstanceAs (Decidable (List.Nodup _))

theorem TellsApart.locate_inj {κ : Type} {f : Bytes → κ} {torrent : TorrentFile} {downloadDir workingDir : Bytes}
    (apart : TellsApart f torrent) {first second : Nat} {cell cell' : Bytes × Nat}
    (firstAt : locate (DiskManager.new torrent downloadDir workingDir).fileMap.files first = some cell)
    (secondAt : locate (DiskManager.new torrent downloadDir workingDir).fileMap.files second = some cell')
    (path : f cell.1 = f cell'.1) (offset : cell.2 = cell'.2) : first = second := by
  rw [files_new] at firstAt secondAt
  exact K0Torrent.locate_inj (apart.sublist (sublist_entriesFrom f _ 0)) firstAt secondAt path offset

/-- If the files that are not empty lie at different places, so do the positions. -/
theorem TellsApart.separates {torrent : TorrentFile} {downloadDir workingDir : Bytes}
    (apart : TellsApart (fun path => resolve workingDir (joinPath downloadDir path)) torrent) :
    (DiskManager.new torrent downloadDir workingDir).Separates := by
  intro first second cell cell' firstAt secondAt same
  obtain ⟨path, offset⟩ := Prod.mk.inj same
  exact apart.locate_inj firstAt secondAt path offset

/-- Every block that reaches the position writes its byte to the cell. -/
def DiskManager.WritesTo (manager : DiskManager) (position : Nat) (cell : Bytes × Nat) : Prop :=
  ∀ start length, start ≤ position → position < start + length →
    ((manager.fileMap.mapBlock start length).flatMap FileSlice.cells)[position - start]? = some cell

theorem writesTo_of_locate {torrent : TorrentFile} {downloadDir workingDir : Bytes} {position : Nat}
    {cell : Bytes × Nat} (inside : position < castU64 torrent.totalSize)
    (here : locate (DiskManager.new torrent downloadDir workingDir).fileMap.files position = some cell) :
    (DiskManager.new torrent downloadDir workingDir).WritesTo position cell := by
  intro start length before reached
  -- The positions before this one are mapped too, so the block is not cut short.
  have located := fun j (_ : j ≤ position - start) =>
    located_of_lt torrent downloadDir workingDir (show start + j < castU64 torrent.totalSize by omega)
  rw [cells_mapBlock, span_of_locate located (by omega), Nat.add_sub_cancel' before, here]

/-- If no two files that are not empty have the same joined path, two positions of
the torrent are written to different paths, or to different offsets of one. -/
theorem writesTo_separate {torrent : TorrentFile} (apart : TellsApart id torrent)
    (downloadDir workingDir : Bytes) {first second : Nat} (firstIn : first < castU64 torrent.totalSize)
    (secondIn : second < castU64 torrent.totalSize) (different : first ≠ second) :
    ∃ cell cell', (DiskManager.new torrent downloadDir workingDir).WritesTo first cell ∧
      (DiskManager.new torrent downloadDir workingDir).WritesTo second cell' ∧ cell ≠ cell' := by
  obtain ⟨cell, firstAt⟩ :=
    Option.ne_none_iff_exists'.mp (located_of_lt torrent downloadDir workingDir firstIn)
  obtain ⟨cell', secondAt⟩ :=
    Option.ne_none_iff_exists'.mp (located_of_lt torrent downloadDir workingDir secondIn)
  refine ⟨cell, cell', writesTo_of_locate firstIn firstAt, writesTo_of_locate secondIn secondAt, ?_⟩
  rintro rfl
  exact different (apart.locate_inj firstAt secondAt rfl rfl)

/-- A directory with one byte in each of its two files. -/
def twoFiles : TorrentFile where
  infoHash := Vector.replicate 20 0
  name := ascii "x"
  announce := []
  announceList := []
  pieceLength := 2
  pieces := [Vector.replicate 20 0]
  length := 0
  files := [⟨1, [ascii "a", ascii "b"]⟩, ⟨1, [ascii "a", ascii "c"]⟩]
  comment := []
  createdBy := []
  creationDate := none

theorem writesTo_separate_twoFiles :
    ∃ cell cell', (DiskManager.new twoFiles [] []).WritesTo 0 cell ∧
      (DiskManager.new twoFiles [] []).WritesTo 1 cell' ∧ cell ≠ cell' :=
  @writesTo_separate twoFiles (by decide +kernel) [] [] 0 1 (by decide +kernel) (by decide +kernel)
    (by decide)

/-! ## Two files of one path -/

def doubledRaw : Bytes :=
  ascii "d4:infod5:filesld6:lengthi1e4:pathl1:aeed6:lengthi1e4:pathl1:aeee4:name1:x12:piece lengthi2e6:pieces20:AAAAAAAAAAAAAAAAAAAAee"

def doubledFile : BencodeValue :=
  .dict [(ascii "length", .int 1), (ascii "path", .list [.string (ascii "a")])]

def doubledInfo : BencodeValue :=
  .dict [(ascii "files", .list [doubledFile, doubledFile]), (ascii "name", .string (ascii "x")),
    (ascii "piece length", .int 2), (ascii "pieces", .string (ascii "AAAAAAAAAAAAAAAAAAAA"))]

def doubledTorrent (sha1 : Bytes → Digest) : TorrentFile where
  infoHash := sha1 (encode doubledInfo)
  name := ascii "x"
  announce := []
  announceList := []
  pieceLength := 2
  pieces := [hashAt (ascii "AAAAAAAAAAAAAAAAAAAA") 0]
  length := 0
  files := [⟨1, [ascii "a"]⟩, ⟨1, [ascii "a"]⟩]
  comment := []
  createdBy := []
  creationDate := none

theorem accepts_doubled (sha1 : Bytes → Digest) : Accepts sha1 doubledRaw (doubledTorrent sha1) := by
  have native : Native doubledInfo := by
    simp [doubledInfo, doubledFile, Native, NativeItems, NativeEntries, Ascending, ascii]
    decide
  have root : Native (.dict [(ascii "info", doubledInfo)]) :=
    ⟨⟨native, trivial⟩, List.pairwise_singleton ..⟩
  have found : find doubledRaw infoKey = some 1 := by decide +kernel
  exact accepts_encode root native (by decide +kernel) (ascii "d4:info") (ascii "e")
    (by decide +kernel) (by decide +kernel) found (by decide +kernel) rfl

def zeroHash (_ : Bytes) : Digest := Vector.replicate 20 0

/-- The two bytes of this torrent go to the first byte of `a`, one after the other. -/
theorem doubled_path :
    Accepts zeroHash doubledRaw (doubledTorrent zeroHash) ∧
      castU64 (doubledTorrent zeroHash).totalSize = 2 ∧
      (DiskManager.new (doubledTorrent zeroHash) [] []).WritesTo 0 (ascii "a", 0) ∧
      (DiskManager.new (doubledTorrent zeroHash) [] []).WritesTo 1 (ascii "a", 0) := by
  have total : castU64 (doubledTorrent zeroHash).totalSize = 2 := by rfl
  exact ⟨accepts_doubled zeroHash, total, writesTo_of_locate (by rw [total]; decide) rfl,
    writesTo_of_locate (by rw [total]; decide) rfl⟩

end K0Torrent
