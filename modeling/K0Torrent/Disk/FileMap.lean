import K0Torrent.Common.Types

/-! The files of a torrent as one stream of bytes (`file_map.hpp`, `file_map.cpp`).

All arithmetic is on `uint64_t`.
-/

set_option autoImplicit false

namespace K0Torrent

structure FileEntry where
  path : Bytes
  length : Nat
  globalOffset : Nat
  fits : length < 2 ^ 64

def FileEntry.fileEnd (file : FileEntry) : Nat := (file.globalOffset + file.length) % 2 ^ 64

structure FileSlice where
  filePath : Bytes
  fileOffset : Nat
  size : Nat
  deriving DecidableEq

/-- The files stand end to end between the two offsets. -/
def Consecutive : Nat → List FileEntry → Nat → Prop
  | start, [], stop => start = stop
  | start, file :: rest, stop => file.globalOffset = start ∧ Consecutive file.fileEnd rest stop

theorem consecutive_append {start stop : Nat} {files : List FileEntry} {file : FileEntry}
    (consecutive : Consecutive start files stop) (next : file.globalOffset = stop) :
    Consecutive start (files ++ [file]) file.fileEnd := by
  induction files generalizing start with
  | nil => exact ⟨next.trans consecutive.symm, rfl⟩
  | cons first rest ih => exact ⟨consecutive.1, ih consecutive.2⟩

structure FileMap where
  files : List FileEntry
  totalSize : Nat
  consecutive : Consecutive 0 files totalSize

namespace FileMap

def empty : FileMap := ⟨[], 0, rfl⟩

def addFile (map : FileMap) (path : Bytes) (length : Nat) (fits : length < 2 ^ 64) : FileMap where
  files := map.files ++ [⟨path, length, map.totalSize, fits⟩]
  totalSize := (map.totalSize + length) % 2 ^ 64
  consecutive := consecutive_append map.consecutive rfl

end FileMap

/-- The loop of `map_block`: `current` and `left` are what it has left to place. -/
def mapFrom : List FileEntry → Nat → Nat → List FileSlice
  | [], _, _ => []
  | file :: rest, current, left =>
    if left = 0 then []
    else if file.globalOffset ≤ current ∧ current < file.fileEnd then
      let offsetInFile := current - file.globalOffset
      let size := min left (file.length - offsetInFile)
      ⟨file.path, offsetInFile, size⟩ :: mapFrom rest ((current + size) % 2 ^ 64) (left - size)
    else mapFrom rest current left

def FileMap.mapBlock (map : FileMap) (globalOffset length : Nat) : List FileSlice :=
  mapFrom map.files globalOffset length

@[simp] theorem mapFrom_zero (files : List FileEntry) (current : Nat) :
    mapFrom files current 0 = [] := by
  cases files <;> rfl

/-- A file that holds `current` ends without a wrap of its end. -/
theorem fileEnd_of_holds {file : FileEntry} {current : Nat} (lower : file.globalOffset ≤ current)
    (upper : current < file.fileEnd) : file.fileEnd = file.globalOffset + file.length := by
  have fits := file.fits
  unfold FileEntry.fileEnd at upper ⊢
  omega

theorem mapFrom_hit {file : FileEntry} {current left : Nat} (rest : List FileEntry)
    (lower : file.globalOffset ≤ current) (upper : current < file.fileEnd) (more : left ≠ 0) :
    mapFrom (file :: rest) current left =
      ⟨file.path, current - file.globalOffset, min left (file.fileEnd - current)⟩ ::
        mapFrom rest file.fileEnd (left - (file.fileEnd - current)) := by
  have whole := fileEnd_of_holds lower upper
  have small : file.fileEnd < 2 ^ 64 := Nat.mod_lt _ (by decide)
  have size : file.length - (current - file.globalOffset) = file.fileEnd - current := by omega
  rw [mapFrom, if_neg more, if_pos ⟨lower, upper⟩]
  simp only [size]
  by_cases last : left ≤ file.fileEnd - current
  · have none : left - (file.fileEnd - current) = 0 := by omega
    rw [Nat.min_eq_left last, Nat.sub_self, none, mapFrom_zero, mapFrom_zero]
  · have end_ : (current + (file.fileEnd - current)) % 2 ^ 64 = file.fileEnd := by
      rw [Nat.add_sub_cancel' (Nat.le_of_lt upper), Nat.mod_eq_of_lt small]
    rw [Nat.min_eq_right (by omega), end_]

theorem mapFrom_skip {file : FileEntry} {current left : Nat} (rest : List FileEntry)
    (beyond : ¬ (file.globalOffset ≤ current ∧ current < file.fileEnd)) :
    mapFrom (file :: rest) current left = mapFrom rest current left := by
  by_cases none : left = 0
  · rw [none, mapFrom_zero, mapFrom_zero]
  · rw [mapFrom, if_neg none, if_neg beyond]

/-! ## Which files get a slice -/

/-- The file ends beyond the start of every file up to it. Without a wrap of the
total size this says that the file is not empty. -/
def Exposed (front : List FileEntry) (file : FileEntry) : Prop :=
  ∀ earlier ∈ front ++ [file], earlier.globalOffset < file.fileEnd

theorem mapFrom_exposed (done : List FileEntry) {rest : List FileEntry}
    {start stop current left : Nat} (consecutive : Consecutive start rest stop) (reached : start ≤ current)
    (passed : ∀ earlier ∈ done, earlier.globalOffset ≤ current) {slice : FileSlice}
    (member : slice ∈ mapFrom rest current left) :
    ∃ front file back, rest = front ++ file :: back ∧ file.path = slice.filePath ∧
      Exposed (done ++ front) file := by
  induction rest generalizing done start current left with
  | nil => cases member
  | cons file rest ih =>
    obtain ⟨here, next⟩ := consecutive
    subst here
    by_cases none : left = 0
    · rw [none, mapFrom_zero] at member
      cases member
    · by_cases holds : file.globalOffset ≤ current ∧ current < file.fileEnd
      · rw [mapFrom_hit rest holds.1 holds.2 none] at member
        rcases List.mem_cons.mp member with same | later
        · refine ⟨[], file, rest, rfl, same ▸ rfl, ?_⟩
          intro earlier among
          rw [List.append_nil] at among
          rcases List.mem_append.mp among with before | self
          · exact Nat.lt_of_le_of_lt (passed earlier before) holds.2
          · rw [List.mem_singleton.mp self]
            exact Nat.lt_of_le_of_lt holds.1 holds.2
        · -- The rest of the block goes on at the end of this file.
          have passed' : ∀ earlier ∈ done ++ [file], earlier.globalOffset ≤ file.fileEnd := by
            intro earlier among
            rcases List.mem_append.mp among with before | self
            · exact Nat.le_of_lt (Nat.lt_of_le_of_lt (passed earlier before) holds.2)
            · rw [List.mem_singleton.mp self]
              omega
          obtain ⟨front, found, back, split, path, exposed⟩ :=
            ih _ next (Nat.le_refl _) passed' later
          refine ⟨file :: front, found, back, by rw [split]; rfl, path, ?_⟩
          rwa [List.append_cons]
      · rw [mapFrom_skip rest holds] at member
        have further : file.fileEnd ≤ current := Nat.not_lt.mp fun short => holds ⟨reached, short⟩
        have passed' : ∀ earlier ∈ done ++ [file], earlier.globalOffset ≤ current := by
          intro earlier among
          rcases List.mem_append.mp among with before | self
          · exact passed earlier before
          · rw [List.mem_singleton.mp self]
            exact reached
        obtain ⟨front, found, back, split, path, exposed⟩ := ih _ next further passed' member
        refine ⟨file :: front, found, back, by rw [split]; rfl, path, ?_⟩
        rwa [List.append_cons]

/-- One byte just before the end of an exposed file is mapped to that file. -/
theorem mapFrom_last (done : List FileEntry) {front : List FileEntry} {file : FileEntry}
    {start stop : Nat} (back : List FileEntry) (consecutive : Consecutive start (front ++ file :: back) stop)
    (exposed : Exposed (done ++ front) file) :
    ∃ slice ∈ mapFrom (front ++ file :: back) (file.fileEnd - 1) 1, slice.filePath = file.path := by
  induction front generalizing done start with
  | nil =>
    have before := exposed file (by simp)
    rw [List.nil_append, mapFrom_hit back (by omega) (by omega) (by decide)]
    exact ⟨_, List.mem_cons_self .., rfl⟩
  | cons first front ih =>
    have split : done ++ first :: front = (done ++ [first]) ++ front := List.append_cons ..
    rw [split] at exposed
    have found := ih _ consecutive.2 exposed
    have beyond : first.fileEnd < file.fileEnd := by
      -- The next file, or `file` itself, starts where `first` ends.
      cases front with
      | nil =>
        have next : file.globalOffset = first.fileEnd := consecutive.2.1
        rw [← next]
        exact exposed file (by simp)
      | cons second front =>
        have next : second.globalOffset = first.fileEnd := consecutive.2.1
        rw [← next]
        exact exposed second (by simp)
    rw [List.cons_append, mapFrom_skip _ (by omega)]
    exact found

theorem mapBlock_path_iff (map : FileMap) (path : Bytes) :
    (∃ offset length, offset < 2 ^ 64 ∧ length < 2 ^ 64 ∧
      ∃ slice ∈ map.mapBlock offset length, slice.filePath = path) ↔
    ∃ number file, map.files[number]? = some file ∧ file.path = path ∧
      Exposed (map.files.take number) file := by
  constructor
  · rintro ⟨offset, length, -, -, slice, member, rfl⟩
    obtain ⟨front, file, back, split, path, exposed⟩ :=
      mapFrom_exposed [] map.consecutive (Nat.zero_le _) nofun member
    refine ⟨front.length, file, ?_, path, ?_⟩
    · rw [split, List.getElem?_append_right (Nat.le_refl _), Nat.sub_self]
      rfl
    · rwa [split, List.take_left]
  · rintro ⟨number, file, found, rfl, exposed⟩
    obtain ⟨bound, same⟩ := List.getElem?_eq_some_iff.mp found
    have split : map.files = map.files.take number ++ file :: map.files.drop (number + 1) := by
      rw [← same, List.getElem_cons_drop, List.take_append_drop]
    have small : file.fileEnd < 2 ^ 64 := Nat.mod_lt _ (by decide)
    have consecutive := map.consecutive
    rw [split] at consecutive
    refine ⟨file.fileEnd - 1, 1, by omega, by decide, ?_⟩
    rw [FileMap.mapBlock, split]
    exact mapFrom_last [] _ consecutive exposed

end K0Torrent
