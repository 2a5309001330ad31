import K0Torrent.Disk.DiskManager
import K0Torrent.Torrent.Metainfo

/-! Where the paths of a torrent's files lead.

The constructor registers the paths of the torrent as they are, and the stream of
a slice is opened under `download_dir / path`. A path stays below the directory
if its own normal form does not climb, or climbs and returns the way it came.
-/

set_option autoImplicit false

namespace K0Torrent

open LexicalPath

/-! ## Joined paths -/

theorem components_append_slash (left right : Bytes) :
    components (left ++ slash :: right) = components left ++ components right := by
  unfold components
  rw [List.splitOn_append_cons_self, List.filterMap_append]

theorem components_nil : components [] = [] := by decide

theorem isAbsolute_append {left : Bytes} (some_ : left ≠ []) (right : Bytes) :
    isAbsolute (left ++ right) = isAbsolute left := by
  cases left with
  | nil => exact absurd rfl some_
  | cons byte left => rfl

/-- A path without a filename is empty or ends in a separator. -/
theorem ends_in_slash {path : Bytes} (none_ : hasFilename path = false) (some_ : path ≠ []) :
    ∃ front, path = front ++ [slash] := by
  obtain ⟨front, last, rfl⟩ := List.eq_nil_or_concat path |>.resolve_left some_
  refine ⟨front, ?_⟩
  simpa [hasFilename] using none_

theorem lexicallyNormal_append_slash {left : Bytes} (right : Bytes) (some_ : left ≠ []) :
    lexicallyNormal (left ++ slash :: right) = (lexicallyNormal left).walk (components right) := by
  unfold lexicallyNormal
  rw [isAbsolute_append some_, components_append_slash, Place.walk_append]

theorem lexicallyNormal_joinPath (left right : Bytes) :
    lexicallyNormal (joinPath left right) =
      if isAbsolute right then lexicallyNormal right
      else (lexicallyNormal left).walk (components right) := by
  unfold joinPath
  cases relative : isAbsolute right with
  | true => rfl
  | false =>
    simp only [Bool.false_eq_true, if_false]
    cases named : hasFilename left with
    | true =>
      have some_ : left ≠ [] := by
        rintro rfl
        cases named
      exact lexicallyNormal_append_slash right some_
    | false =>
      simp only [Bool.false_eq_true, if_false]
      by_cases empty : left = []
      · subst empty
        rw [List.nil_append, lexicallyNormal, relative]
        rfl
      · -- The separator is there already; it adds no component.
        obtain ⟨front, rfl⟩ := ends_in_slash named empty
        have same : components (front ++ [slash]) = components front := by
          rw [components_append_slash, components_nil, List.append_nil]
        have start : isAbsolute (front ++ [slash] ++ right) = isAbsolute (front ++ [slash]) :=
          isAbsolute_append empty right
        unfold lexicallyNormal
        rw [start, same, List.append_assoc, List.singleton_append, components_append_slash,
          Place.walk_append]

/-- The condition on a path by itself: what its own normal form must look like
for it to lead below `dir`. -/
def StaysBelow (dir : Place Bytes) (path : Bytes) : Prop :=
  if isAbsolute path then
    dir.absolute = true ∧ Extends (lexicallyNormal path).names dir.names
  else
    ((lexicallyNormal path).ups ≤ dir.names.length ∨ dir.absolute = true) ∧
      Extends (lexicallyNormal path).names (dir.names.take (lexicallyNormal path).ups)

theorem inside_fullPath_iff (manager : DiskManager) (path : Bytes) :
    (manager.fullPath path).Inside (lexicallyNormal manager.downloadDir) ↔
      StaysBelow (lexicallyNormal manager.downloadDir) path := by
  unfold DiskManager.fullPath StaysBelow
  rw [lexicallyNormal_joinPath]
  generalize lexicallyNormal manager.downloadDir = dir
  cases relative : isAbsolute path with
  | true =>
    -- An absolute path replaces the directory; below the root there is nothing to climb.
    have absolute : (lexicallyNormal path).absolute = true := by
      rw [lexicallyNormal, relative]
      exact Place.absolute_walk _ _
    have ups := (lexicallyNormal path).rooted absolute
    simp only [if_true, Place.Inside, absolute, ups]
    constructor
    · rintro ⟨same, -, extends_⟩
      exact ⟨same.symm, extends_⟩
    · rintro ⟨same, extends_⟩
      exact ⟨same.symm, (dir.rooted same).symm, extends_⟩
  | false =>
    have own : lexicallyNormal path = Place.here.walk (components path) := by
      rw [lexicallyNormal, relative]
      rfl
    simp only [Bool.false_eq_true, if_false, own]
    exact Place.inside_walk_iff dir (components path)

/-! ## The registered files -/

/-- The running total of the lengths before the file of that number. -/
def boundary (torrent : TorrentFile) (number : Nat) : Nat :=
  (((registered torrent).take number).map fun file => castU64 file.2).sum % 2 ^ 64

def entryOf (torrent : TorrentFile) (number : Nat) : Bytes × Int → FileEntry
  | (path, length) => ⟨path, castU64 length, boundary torrent number, castU64_lt length⟩

theorem getElem?_entriesFrom (files : List (Bytes × Int)) {start : Nat} (number : Nat)
    (small : start < 2 ^ 64) :
    (entriesFrom start files)[number]? = files[number]?.map fun file =>
      ⟨file.1, castU64 file.2,
        (start + ((files.take number).map fun file => castU64 file.2).sum) % 2 ^ 64,
        castU64_lt file.2⟩ := by
  induction files generalizing start number with
  | nil => rfl
  | cons file rest ih =>
    cases number with
    | zero =>
      simp only [entriesFrom, List.getElem?_cons_zero, Option.map_some, List.take_zero,
        List.map_nil, List.sum_nil, Nat.add_zero, Nat.mod_eq_of_lt small]
    | succ number =>
      simp only [entriesFrom, List.getElem?_cons_succ, ih _ (Nat.mod_lt _ (by decide : 0 < 2 ^ 64)),
        List.take_succ_cons, List.map_cons, List.sum_cons, Nat.mod_add_mod, Nat.add_assoc]

section
variable (torrent : TorrentFile) (downloadDir workingDir : Bytes)

theorem getElem?_files (number : Nat) :
    (DiskManager.new torrent downloadDir workingDir).fileMap.files[number]? =
      (registered torrent)[number]?.map (entryOf torrent number) := by
  have entries := getElem?_entriesFrom (registered torrent) number (Nat.two_pow_pos 64)
  simp only [Nat.zero_add] at entries
  rw [DiskManager.new, files_foldl_addRegistered]
  exact entries

theorem fileEnd_entryOf {number : Nat} {file : Bytes × Int}
    (found : (registered torrent)[number]? = some file) :
    (entryOf torrent number file).fileEnd = boundary torrent (number + 1) := by
  unfold FileEntry.fileEnd entryOf boundary
  rw [List.take_add_one, found]
  simp only [Option.toList_some, List.map_append, List.sum_append, List.map_cons, List.map_nil,
    List.sum_singleton, Nat.mod_add_mod]

/-- The file ends, in running totals modulo 2^64, beyond where it and every file
before it starts. -/
def EndsBeyond (number : Nat) : Prop :=
  ∀ earlier ≤ number, boundary torrent earlier < boundary torrent (number + 1)

theorem exposed_iff {number : Nat} {file : Bytes × Int}
    (found : (registered torrent)[number]? = some file) :
    Exposed ((DiskManager.new torrent downloadDir workingDir).fileMap.files.take number)
      (entryOf torrent number file) ↔ EndsBeyond torrent number := by
  have entry : ((DiskManager.new torrent downloadDir workingDir).fileMap.files)[number]? =
      some (entryOf torrent number file) := by
    rw [getElem?_files, found]
    rfl
  unfold Exposed EndsBeyond
  rw [fileEnd_entryOf torrent found]
  have up : (DiskManager.new torrent downloadDir workingDir).fileMap.files.take number ++
      [entryOf torrent number file] =
        (DiskManager.new torrent downloadDir workingDir).fileMap.files.take (number + 1) := by
    rw [List.take_add_one, entry]
    rfl
  rw [up]
  simp only [List.mem_take_iff_getElem]
  -- The entries before the file start at the earlier boundaries.
  constructor
  · intro exposed earlier bound
    have small : earlier < (registered torrent).length :=
      Nat.lt_of_le_of_lt bound (List.getElem?_eq_some_iff.mp found).1
    have here := getElem?_files torrent downloadDir workingDir earlier
    rw [List.getElem?_eq_getElem small] at here
    obtain ⟨inside, same⟩ := List.getElem?_eq_some_iff.mp here
    have less := exposed _ ⟨earlier, by omega, same⟩
    exact less
  · rintro beyond entry ⟨earlier, bound, rfl⟩
    have here := getElem?_files torrent downloadDir workingDir earlier
    rw [List.getElem?_eq_getElem (by omega)] at here
    obtain ⟨file, -, same⟩ := Option.map_eq_some_iff.mp here.symm
    rw [← same]
    exact beyond earlier (by omega)

/-- Every slice of every block stays below the download directory exactly when
the path of each file that can have a slice does. -/
theorem slices_inside_iff :
    (∀ offset length, offset < 2 ^ 64 → length < 2 ^ 64 →
      ∀ slice ∈ (DiskManager.new torrent downloadDir workingDir).fileMap.mapBlock offset length,
        ((DiskManager.new torrent downloadDir workingDir).fullPath slice.filePath).Inside
          (lexicallyNormal downloadDir)) ↔
    ∀ number file, (registered torrent)[number]? = some file → EndsBeyond torrent number →
      StaysBelow (lexicallyNormal downloadDir) file.1 := by
  constructor
  · intro inside number file found beyond
    have entry := getElem?_files torrent downloadDir workingDir number
    rw [found] at entry
    have exposed := (exposed_iff torrent downloadDir workingDir found).mpr beyond
    obtain ⟨offset, length, small, short, slice, member, path⟩ :=
      (mapBlock_path_iff _ file.1).mpr ⟨number, _, entry, rfl, exposed⟩
    have below := inside offset length small short slice member
    rw [path] at below
    exact (inside_fullPath_iff _ _).mp below
  · intro stays offset length small short slice member
    obtain ⟨number, entry, found, path, exposed⟩ :=
      (mapBlock_path_iff _ slice.filePath).mp ⟨offset, length, small, short, slice, member, rfl⟩
    rw [getElem?_files] at found
    obtain ⟨file, registered, rfl⟩ := Option.map_eq_some_iff.mp found
    have beyond := (exposed_iff torrent downloadDir workingDir registered).mp exposed
    rw [← path]
    exact (inside_fullPath_iff _ _).mpr (stays number file registered beyond)

end

/-! ## A name that climbs -/

def climbingRaw : Bytes :=
  ascii "d4:infod6:lengthi1e4:name4:../x12:piece lengthi1e6:pieces20:AAAAAAAAAAAAAAAAAAAAee"

def climbingTorrent (sha1 : Bytes → Digest) : TorrentFile where
  infoHash := sha1 ((climbingRaw.drop 7).dropLast)
  name := ascii "../x"
  announce := []
  announceList := []
  pieceLength := 1
  pieces := [hashAt (ascii "AAAAAAAAAAAAAAAAAAAA") 0]
  length := 1
  files := []
  comment := []
  createdBy := []
  creationDate := none

/-- Below `downloads`, the first byte of this torrent goes to `x` beside it. -/
theorem climbing_escapes :
    (∀ sha1, Accepts sha1 climbingRaw (climbingTorrent sha1) ∧
      (DiskManager.new (climbingTorrent sha1) (ascii "downloads") []).fileMap.mapBlock 0 1 =
        [⟨ascii "../x", 0, 1⟩]) ∧
    lexicallyNormal (joinPath (ascii "downloads") (ascii "../x")) = lexicallyNormal (ascii "x") ∧
    ¬ (lexicallyNormal (ascii "x")).Inside (lexicallyNormal (ascii "downloads")) := by
  refine ⟨fun sha1 => ⟨⟨9, rfl⟩, by rfl⟩, by decide, by decide⟩

end K0Torrent
