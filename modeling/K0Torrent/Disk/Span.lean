import K0Torrent.Disk.FileMap
import Mathlib.Data.List.Nodup

/-! `map_block` byte by byte.

`locate` finds the file a single position of the torrent falls in. A block is
mapped to the positions of its bytes, up to the first that falls in no file.
-/

set_option autoImplicit false

namespace K0Torrent

def FileEntry.Holds (file : FileEntry) (position : Nat) : Prop :=
  file.globalOffset ≤ position ∧ position < file.fileEnd

instance (file : FileEntry) (position : Nat) : Decidable (file.Holds position) :=
  inferInstanceAs (Decidable (_ ∧ _))

def locate : List FileEntry → Nat → Option (Bytes × Nat)
  | [], _ => none
  | file :: rest, position =>
    if file.Holds position then some (file.path, position - file.globalOffset)
    else locate rest position

/-- Where the bytes from `position` on go. -/
def span (files : List FileEntry) : Nat → Nat → List (Bytes × Nat)
  | _, 0 => []
  | position, left + 1 =>
    match locate files position with
    | none => []
    | some cell => cell :: span files (position + 1) left

def FileSlice.cells (slice : FileSlice) : List (Bytes × Nat) :=
  (List.range slice.size).map fun k => (slice.filePath, slice.fileOffset + k)

@[simp] theorem FileSlice.length_cells (slice : FileSlice) : slice.cells.length = slice.size := by
  rw [cells, List.length_map, List.length_range]

/-! ## The file of a position -/

theorem locate_eq_some {files : List FileEntry} {position : Nat} {cell : Bytes × Nat}
    (located : locate files position = some cell) :
    ∃ file ∈ files, file.Holds position ∧ cell = (file.path, position - file.globalOffset) := by
  induction files with
  | nil => cases located
  | cons file rest ih =>
    rw [locate] at located
    split at located
    · rename_i holds
      exact ⟨file, List.mem_cons_self .., holds, (Option.some.inj located).symm⟩
    · obtain ⟨found, member, holds, same⟩ := ih located
      exact ⟨found, List.mem_cons_of_mem _ member, holds, same⟩

/-- Files laid end to end hold every position between their ends. -/
theorem locate_ne_none {files : List FileEntry} {start stop position : Nat}
    (consecutive : Consecutive start files stop) (lower : start ≤ position) (upper : position < stop) :
    locate files position ≠ none := by
  induction files generalizing start with
  | nil =>
    rw [show start = stop from consecutive] at lower
    exact absurd upper (Nat.not_lt.mpr lower)
  | cons file rest ih =>
    obtain ⟨here, next⟩ := consecutive
    subst here
    rw [locate]
    split
    · nofun
    · rename_i missed
      exact ih next (Nat.not_lt.mp fun short => missed ⟨lower, short⟩)

/-- A position is told from its file and its offset there, by whatever tells the
files that are not empty apart. -/
theorem locate_inj {κ : Type} {f : Bytes → κ} {files : List FileEntry}
    (distinct : ((files.filter fun file => file.length ≠ 0).map fun file => f file.path).Nodup)
    {first second : Nat} {cell cell' : Bytes × Nat} (firstAt : locate files first = some cell)
    (secondAt : locate files second = some cell') (path : f cell.1 = f cell'.1)
    (offset : cell.2 = cell'.2) : first = second := by
  obtain ⟨file, member, holds, rfl⟩ := locate_eq_some firstAt
  obtain ⟨file', member', holds', rfl⟩ := locate_eq_some secondAt
  have some_ {file : FileEntry} {position : Nat} (member : file ∈ files)
      (holds : file.Holds position) : file ∈ files.filter fun file => file.length ≠ 0 := by
    have whole := fileEnd_of_holds holds.1 holds.2
    refine List.mem_filter.mpr ⟨member, decide_eq_true ?_⟩
    have lower := holds.1
    have upper := holds.2
    omega
  obtain rfl := List.inj_on_of_nodup_map distinct (some_ member holds) (some_ member' holds') path
  have lower := holds.1
  have lower' := holds'.1
  simp only at offset
  omega

theorem locate_append {front : List FileEntry} {position : Nat} (back : List FileEntry)
    (missed : ∀ file ∈ front, ¬ file.Holds position) :
    locate (front ++ back) position = locate back position := by
  induction front with
  | nil => rfl
  | cons file front ih =>
    rw [List.cons_append, locate, if_neg (missed file (List.mem_cons_self ..))]
    exact ih fun other member => missed other (List.mem_cons_of_mem _ member)

theorem mapFrom_append {front : List FileEntry} {current : Nat} (left : Nat)
    (back : List FileEntry) (missed : ∀ file ∈ front, ¬ file.Holds current) :
    mapFrom (front ++ back) current left = mapFrom back current left := by
  induction front with
  | nil => rfl
  | cons file front ih =>
    rw [List.cons_append, mapFrom_skip _ (missed file (List.mem_cons_self ..))]
    exact ih fun other member => missed other (List.mem_cons_of_mem _ member)

/-- The first file that holds a position, if there is one. -/
theorem split_at (files : List FileEntry) (position : Nat) :
    (∀ file ∈ files, ¬ file.Holds position) ∨
      ∃ front file back, files = front ++ file :: back ∧ file.Holds position ∧
        ∀ other ∈ front, ¬ other.Holds position := by
  induction files with
  | nil => exact .inl nofun
  | cons file rest ih =>
    by_cases holds : file.Holds position
    · exact .inr ⟨[], file, rest, rfl, holds, nofun⟩
    · have none_ : ∀ {front : List FileEntry}, (∀ other ∈ front, ¬ other.Holds position) →
          ∀ other ∈ file :: front, ¬ other.Holds position :=
        fun missed other member => by
          rcases List.mem_cons.mp member with rfl | later
          · exact holds
          · exact missed other later
      rcases ih with missed | ⟨front, found, back, split, here, missed⟩
      · exact .inl (none_ missed)
      · exact .inr ⟨file :: front, found, back, by rw [split]; rfl, here, none_ missed⟩

/-- Files laid end to end that miss a position end before it. -/
theorem ends_before {front back : List FileEntry} {start stop position : Nat}
    (consecutive : Consecutive start (front ++ back) stop) (reached : start ≤ position)
    (missed : ∀ file ∈ front, ¬ file.Holds position) : ∀ file ∈ front, file.fileEnd ≤ position := by
  induction front generalizing start with
  | nil => exact nofun
  | cons file front ih =>
    obtain ⟨here, next⟩ := consecutive
    have first : file.fileEnd ≤ position := Nat.not_lt.mp fun short =>
      missed file (List.mem_cons_self ..) ⟨here ▸ reached, short⟩
    have later := ih next first fun other member => missed other (List.mem_cons_of_mem _ member)
    intro other member
    rcases List.mem_cons.mp member with rfl | member
    · exact first
    · exact later other member

/-! ## The bytes of a block -/

theorem span_of_none {files : List FileEntry} {position : Nat}
    (outside : locate files position = none) (left : Nat) : span files position left = [] := by
  cases left with
  | zero => rfl
  | succ left => rw [span, outside]

/-- While the positions stay in one file, so do the cells. -/
theorem span_inside {files : List FileEntry} {path : Bytes} {count : Nat} :
    ∀ {position offset : Nat} (left : Nat),
      (∀ k < count, locate files (position + k) = some (path, offset + k)) →
      span files position (count + left) =
        (List.range count).map (fun k => (path, offset + k)) ++ span files (position + count) left := by
  induction count with
  | zero =>
    intro position offset left _
    rw [Nat.zero_add, Nat.add_zero]
    rfl
  | succ count ih =>
    intro position offset left located
    have first := located 0 (Nat.succ_pos _)
    have rest := @ih (position + 1) (offset + 1) left fun k bound => by
      have next := located (k + 1) (Nat.succ_lt_succ bound)
      rwa [Nat.add_right_comm, Nat.add_right_comm offset]
    rw [Nat.add_zero, Nat.add_zero] at first
    rw [Nat.succ_add, span, first, rest, List.range_succ_eq_map, List.map_cons, List.map_map,
      List.cons_append]
    simp only [Function.comp_def, Nat.succ_eq_add_one, Nat.add_zero, Nat.add_assoc, Nat.add_comm 1]

section
variable {front back : List FileEntry} {file : FileEntry} {start stop position : Nat}
  (consecutive : Consecutive start (front ++ file :: back) stop) (reached : start ≤ position)
  (holds : file.Holds position) (missed : ∀ other ∈ front, ¬ other.Holds position)
include consecutive reached holds missed

/-- The rest of a block is mapped as if it started over at the end of its first file. -/
theorem mapFrom_behind (left : Nat) :
    mapFrom back file.fileEnd left = mapFrom (front ++ file :: back) file.fileEnd left := by
  have before := ends_before consecutive reached missed
  rw [List.append_cons, mapFrom_append _ back]
  intro other member holdsEnd
  rcases List.mem_append.mp member with earlier | self
  · have ends := before other earlier
    have beyond := holdsEnd.2
    have inside := holds.2
    omega
  · rw [List.mem_singleton.mp self] at holdsEnd
    exact Nat.lt_irrefl _ holdsEnd.2

/-- Up to the end of its file a block stays in the file. -/
theorem locate_inside {k : Nat} (bound : position + k < file.fileEnd) :
    locate (front ++ file :: back) (position + k) =
      some (file.path, position - file.globalOffset + k) := by
  obtain ⟨lower, upper⟩ := holds
  have here : file.Holds (position + k) := ⟨by omega, bound⟩
  have before := ends_before consecutive reached missed
  rw [locate_append (file :: back), locate, if_pos here, Nat.sub_add_comm lower]
  intro other member holdsLater
  have ends := before other member
  have beyond := holdsLater.2
  omega

end

/-- The slices of a block place its bytes one after the other. -/
theorem cells_mapBlock (map : FileMap) (left : Nat) : ∀ position : Nat,
    (map.mapBlock position left).flatMap FileSlice.cells = span map.files position left := by
  unfold FileMap.mapBlock
  induction left using Nat.strongRecOn with
  | _ left ih =>
    intro position
    rcases split_at map.files position with missed | ⟨front, file, back, split, holds, missed⟩
    · have outside := locate_append [] missed
      have unmapped := mapFrom_append left [] missed
      rw [List.append_nil] at outside unmapped
      rw [unmapped, span_of_none outside]
      rfl
    · by_cases none_ : left = 0
      · rw [none_, mapFrom_zero]
        rfl
      · have consecutive := map.consecutive
        rw [split] at consecutive
        have again := mapFrom_behind consecutive (Nat.zero_le _) holds missed
          (left - (file.fileEnd - position))
        rw [← split] at again
        -- At least one byte goes to this file, so the rest is shorter.
        have rest := ih (left - (file.fileEnd - position)) (by have := holds.2; omega) file.fileEnd
        have located : ∀ k < min left (file.fileEnd - position),
            locate map.files (position + k) =
              some (file.path, position - file.globalOffset + k) := by
          intro k bound
          rw [split]
          exact locate_inside consecutive (Nat.zero_le _) holds missed (by omega)
        have cells := span_inside (left - (file.fileEnd - position)) located
        have whole : min left (file.fileEnd - position) + (left - (file.fileEnd - position)) = left := by
          omega
        rw [whole] at cells
        have next : span map.files (position + min left (file.fileEnd - position))
            (left - (file.fileEnd - position)) =
              span map.files file.fileEnd (left - (file.fileEnd - position)) := by
          by_cases last : left ≤ file.fileEnd - position
          · rw [Nat.sub_eq_zero_of_le last]
            rfl
          · have inside := holds.2
            rw [Nat.min_eq_right (by omega), Nat.add_sub_cancel' (Nat.le_of_lt inside)]
        have hit := mapFrom_hit back holds.1 holds.2 none_
        rw [again, ← mapFrom_append _ (file :: back) missed, ← split] at hit
        rw [cells, next, ← rest, hit]
        rfl

theorem locate_of_span {files : List FileEntry} {cell : Bytes × Nat} {k : Nat} :
    ∀ {position left : Nat}, (span files position left)[k]? = some cell →
      k < left ∧ locate files (position + k) = some cell := by
  induction k with
  | zero =>
    intro position left found
    cases left with
    | zero => cases found
    | succ left =>
      rw [span] at found
      cases located : locate files position with
      | none =>
        rw [located] at found
        cases found
      | some first =>
        rw [located] at found
        exact ⟨Nat.succ_pos _, found⟩
  | succ k ih =>
    intro position left found
    cases left with
    | zero => cases found
    | succ left =>
      rw [span] at found
      cases located : locate files position with
      | none =>
        rw [located] at found
        cases found
      | some first =>
        rw [located, List.getElem?_cons_succ] at found
        obtain ⟨bound, later⟩ := ih found
        exact ⟨Nat.succ_lt_succ bound, by rwa [Nat.add_right_comm] at later⟩

theorem length_span_le (files : List FileEntry) (position left : Nat) :
    (span files position left).length ≤ left := by
  refine Nat.not_lt.mp fun longer => ?_
  exact Nat.lt_irrefl _ (locate_of_span (List.getElem?_eq_getElem longer)).1

theorem span_of_locate {files : List FileEntry} {k : Nat} :
    ∀ {position left : Nat}, (∀ j ≤ k, locate files (position + j) ≠ none) → k < left →
      (span files position left)[k]? = locate files (position + k) := by
  induction k with
  | zero =>
    intro position left located bound
    obtain ⟨cell, first⟩ := Option.ne_none_iff_exists'.mp (located 0 (Nat.le_refl _))
    obtain ⟨left, rfl⟩ := Nat.exists_eq_add_of_lt bound
    rw [Nat.add_zero] at first
    rw [Nat.zero_add, span, first]
    exact first.symm
  | succ k ih =>
    intro position left located bound
    obtain ⟨cell, first⟩ := Option.ne_none_iff_exists'.mp (located 0 (Nat.zero_le _))
    obtain ⟨left, rfl⟩ := Nat.exists_eq_add_of_lt (Nat.lt_of_le_of_lt (Nat.zero_le _) bound)
    rw [Nat.add_zero] at first
    rw [Nat.zero_add] at bound ⊢
    rw [span, first, List.getElem?_cons_succ, ih _ (Nat.lt_of_succ_lt_succ bound)]
    · rw [Nat.add_right_comm]
      rfl
    · intro j inside
      rw [Nat.add_right_comm]
      exact located (j + 1) (Nat.succ_le_succ inside)

end K0Torrent
