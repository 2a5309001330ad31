import K0Torrent.Disk.FileMap

/-! `map_block` maps every byte of a block once.

While the lengths of the files do not wrap, the slices of a block lie in files in
the order of the map, and their bytes one after the other are those of the block,
up to the end of the last file.
-/

set_option autoImplicit false

namespace K0Torrent

/-- The calls of `add_file`, one after the other. -/
def FileMap.addFiles (map : FileMap) (files : List (Bytes × Fin (2 ^ 64))) : FileMap :=
  files.foldl (fun map file => map.addFile file.1 file.2.val file.2.isLt) map

/-- The slice is a part of the file that is not empty. -/
structure LiesIn (file : FileEntry) (slice : FileSlice) : Prop where
  path : slice.filePath = file.path
  some_ : 0 < slice.size
  inside : slice.fileOffset + slice.size ≤ file.length

/-- The global offsets of the bytes of a slice of the file. -/
def offsetsIn (file : FileEntry) (slice : FileSlice) : List Nat :=
  (List.range slice.size).map fun j => file.globalOffset + (slice.fileOffset + j)

/-- Each slice with the file it lies in, the block mapped as far as the files go. -/
structure Mapped (files : List FileEntry) (offset length total : Nat)
    (hits : List (FileEntry × FileSlice)) : Prop where
  slices : hits.map Prod.snd = mapFrom files offset length
  inOrder : (hits.map Prod.fst).Sublist files
  liesIn : ∀ hit ∈ hits, LiesIn hit.1 hit.2
  offsets : hits.flatMap (fun hit => offsetsIn hit.1 hit.2) =
    (List.range (min length (total - offset))).map (offset + ·)

theorem fileEnd_of_fits {file : FileEntry} (fits : file.globalOffset + file.length < 2 ^ 64) :
    file.fileEnd = file.globalOffset + file.length := Nat.mod_eq_of_lt fits

theorem mapped_nil {files : List FileEntry} {offset length total : Nat}
    (none_ : mapFrom files offset length = []) (short : min length (total - offset) = 0) :
    Mapped files offset length total [] where
  slices := none_.symm
  inOrder := List.nil_sublist files
  liesIn := nofun
  offsets := by rw [short]; rfl

section
variable {file : FileEntry} {rest : List FileEntry} {offset length total : Nat}
  {hits : List (FileEntry × FileSlice)}

/-- A file that ends before the block adds nothing. -/
theorem Mapped.skip (beyond : file.fileEnd ≤ offset) (mapped : Mapped rest offset length total hits) :
    Mapped (file :: rest) offset length total hits where
  slices := by
    rw [mapFrom_skip rest fun holds => Nat.not_lt.mpr beyond holds.2]
    exact mapped.slices
  inOrder := mapped.inOrder.cons file
  liesIn := mapped.liesIn
  offsets := mapped.offsets

/-- A file that holds the start of the block takes what it can, and the rest of the
block starts at its end. -/
theorem Mapped.hit (lower : file.globalOffset ≤ offset) (upper : offset < file.fileEnd)
    (more : length ≠ 0) (within : file.fileEnd ≤ total)
    (mapped : Mapped rest file.fileEnd (length - (file.fileEnd - offset)) total hits) :
    Mapped (file :: rest) offset length total
      ((file, ⟨file.path, offset - file.globalOffset, min length (file.fileEnd - offset)⟩) :: hits) where
  slices := by
    rw [mapFrom_hit rest lower upper more, ← mapped.slices, List.map_cons]
  inOrder := by
    rw [List.map_cons]
    exact mapped.inOrder.cons_cons file
  liesIn := by
    have whole := fileEnd_of_holds lower upper
    refine List.forall_mem_cons.mpr ⟨⟨rfl, ?_, ?_⟩, mapped.liesIn⟩
    · change 0 < min length (file.fileEnd - offset)
      omega
    · change offset - file.globalOffset + min length (file.fileEnd - offset) ≤ file.length
      omega
  offsets := by
    rw [List.flatMap_cons, mapped.offsets]
    have here : offsetsIn file
        ⟨file.path, offset - file.globalOffset, min length (file.fileEnd - offset)⟩ =
          (List.range (min length (file.fileEnd - offset))).map (offset + ·) := by
      unfold offsetsIn
      refine List.map_congr_left fun j _ => ?_
      change file.globalOffset + (offset - file.globalOffset + j) = offset + j
      omega
    rw [here]
    by_cases last : length ≤ file.fileEnd - offset
    · rw [Nat.sub_eq_zero_of_le last, Nat.zero_min, List.range_zero, List.map_nil, List.append_nil,
        Nat.min_eq_left last, Nat.min_eq_left (by omega)]
    · have sizes : min length (total - offset) = file.fileEnd - offset +
          min (length - (file.fileEnd - offset)) (total - file.fileEnd) := by omega
      rw [Nat.min_eq_right (by omega), sizes, List.range_add, List.map_append, List.map_map]
      refine congrArg _ (List.map_congr_left fun j _ => ?_)
      change file.fileEnd + j = offset + (file.fileEnd - offset + j)
      omega

end

theorem mapped_of_consecutive {files : List FileEntry} : ∀ {start stop offset length : Nat},
    Consecutive start files stop → start ≤ offset →
    start + (files.map FileEntry.length).sum < 2 ^ 64 →
    ∃ hits, Mapped files offset length (start + (files.map FileEntry.length).sum) hits := by
  induction files with
  | nil =>
    intro start stop offset length _ reached _
    exact ⟨[], mapped_nil rfl (by rw [List.map_nil, List.sum_nil]; omega)⟩
  | cons file rest ih =>
    intro start stop offset length consecutive reached fits
    obtain ⟨rfl, next⟩ := consecutive
    rw [List.map_cons, List.sum_cons, ← Nat.add_assoc] at fits ⊢
    have ends := fileEnd_of_fits (Nat.lt_of_le_of_lt (Nat.le_add_right ..) fits)
    rw [← ends] at fits ⊢
    by_cases none_ : length = 0
    · subst none_
      exact ⟨[], mapped_nil (mapFrom_zero ..) (Nat.zero_min _)⟩
    · by_cases holds : offset < file.fileEnd
      · obtain ⟨hits, mapped⟩ := @ih _ _ _ (length - (file.fileEnd - offset)) next
          (Nat.le_refl _) fits
        exact ⟨_, mapped.hit reached holds none_ (Nat.le_add_right ..)⟩
      · obtain ⟨hits, mapped⟩ := @ih _ _ _ length next (Nat.not_lt.mp holds) fits
        exact ⟨hits, mapped.skip (Nat.not_lt.mp holds)⟩

theorem lengths_addFiles (files : List (Bytes × Fin (2 ^ 64))) (map : FileMap) :
    (map.addFiles files).files.map FileEntry.length =
      map.files.map FileEntry.length ++ files.map fun file => file.2.val := by
  induction files generalizing map with
  | nil => exact (List.append_nil _).symm
  | cons file files ih =>
    refine (ih (map.addFile file.1 file.2.val file.2.isLt)).trans ?_
    simp only [FileMap.addFile, List.map_append, List.append_assoc]
    rfl

theorem length_offsets (hits : List (FileEntry × FileSlice)) :
    (hits.flatMap fun hit => offsetsIn hit.1 hit.2).length =
      ((hits.map Prod.snd).map FileSlice.size).sum := by
  induction hits with
  | nil => rfl
  | cons hit hits ih =>
    rw [List.flatMap_cons, List.length_append, ih, offsetsIn, List.length_map, List.length_range,
      List.map_cons, List.map_cons, List.sum_cons]

/-- The slices of a block are parts of files in their order, none of them empty. In
all they are as long as the block, or end with the last file, and their bytes have
the global offsets of the block, one after the other. -/
theorem mapBlock_mapped (files : List (Bytes × Fin (2 ^ 64)))
    (fits : (files.map fun file => file.2.val).sum < 2 ^ 64) (offset length : Nat) :
    (((FileMap.empty.addFiles files).mapBlock offset length).map FileSlice.size).sum =
        min length ((files.map fun file => file.2.val).sum - offset) ∧
      ∃ hits, Mapped (FileMap.empty.addFiles files).files offset length
        (files.map fun file => file.2.val).sum hits := by
  have lengths := lengths_addFiles files FileMap.empty
  rw [FileMap.empty, List.map_nil, List.nil_append] at lengths
  have exact_ := @mapped_of_consecutive (FileMap.empty.addFiles files).files 0 _ offset length
    (FileMap.empty.addFiles files).consecutive (Nat.zero_le _)
  rw [FileMap.empty, lengths, Nat.zero_add] at exact_
  obtain ⟨hits, mapped⟩ := exact_ fits
  refine ⟨?_, hits, mapped⟩
  have count := congrArg List.length mapped.offsets
  rw [length_offsets, mapped.slices, List.length_map, List.length_range] at count
  exact count

/-- Three bytes, an empty file and five bytes. -/
def threeFiles : List (Bytes × Fin (2 ^ 64)) := [(ascii "a", 3), (ascii "b", 0), (ascii "c", 5)]

/-- A block that starts in the first file and runs past the end of the last one. -/
theorem mapBlock_mapped_three :
    (((FileMap.empty.addFiles threeFiles).mapBlock 2 10).map FileSlice.size).sum = 6 ∧
      ∃ hits, Mapped (FileMap.empty.addFiles threeFiles).files 2 10 8 hits :=
  mapBlock_mapped threeFiles (by decide) 2 10

end K0Torrent
