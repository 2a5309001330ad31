import Mathlib.Data.Nat.Bitwise

/-! Sets of numbers as bytes, with the most significant bit of each byte first. -/

set_option autoImplicit false

namespace BitArray

def bitsOf (byte : UInt8) : List Bool := (List.range 8).map fun k => byte.toNat.testBit (7 - k)

def bits (bytes : List UInt8) : List Bool := bytes.flatMap bitsOf

/-- The bit with this number is set. -/
def Marks (bytes : List UInt8) (j : Nat) : Prop := (bits bytes)[j]? = some true

theorem getElem?_bits (bytes : List UInt8) (j : Nat) :
    (bits bytes)[j]? = bytes[j / 8]?.map fun byte => byte.toNat.testBit (7 - j % 8) := by
  induction bytes generalizing j with
  | nil => rfl
  | cons byte bytes ih =>
    have width : (bitsOf byte).length = 8 := rfl
    rw [bits, List.flatMap_cons]
    by_cases first : j < 8
    · rw [List.getElem?_append_left (by rwa [width])]
      simp [bitsOf, first, Nat.div_eq_of_lt, Nat.mod_eq_of_lt]
    · have later := ih (j - 8)
      have quotient : j / 8 = (j - 8) / 8 + 1 := by omega
      have remainder : (j - 8) % 8 = j % 8 := by omega
      rw [List.getElem?_append_right (by omega), width, quotient, List.getElem?_cons_succ,
        ← remainder]
      exact later

theorem marks_iff {bytes : List UInt8} {j : Nat} :
    Marks bytes j ↔ ∃ byte, bytes[j / 8]? = some byte ∧ byte.toNat.testBit (7 - j % 8) = true := by
  rw [Marks, getElem?_bits, Option.map_eq_some_iff]

theorem Marks.lt {bytes : List UInt8} {j : Nat} (marks : Marks bytes j) : j / 8 < bytes.length := by
  obtain ⟨byte, here, -⟩ := marks_iff.mp marks
  exact (List.getElem?_eq_some_iff.mp here).1

/-- A mask of one bit. -/
theorem and_mask_ne_zero_iff (n k : Nat) : n &&& (1 <<< k) ≠ 0 ↔ n.testBit k = true := by
  rw [Nat.one_shiftLeft, Nat.and_two_pow]
  cases n.testBit k <;> simp

/-! ## Adding a number -/

/-- The array grows as far as it has to. -/
def insert (bytes : List UInt8) (i : Nat) : List UInt8 :=
  (bytes ++ List.replicate (i / 8 + 1 - bytes.length) 0).modify (i / 8) fun byte =>
    UInt8.ofNat (byte.toNat ||| (1 <<< (7 - i % 8)))

theorem length_insert (bytes : List UInt8) (i : Nat) :
    (insert bytes i).length = max bytes.length (i / 8 + 1) := by
  rw [insert, List.length_modify, List.length_append, List.length_replicate]
  omega

/-- Only zeros are added. -/
theorem marks_grown {bytes : List UInt8} {count j : Nat} :
    Marks (bytes ++ List.replicate count 0) j ↔ Marks bytes j := by
  rw [marks_iff, marks_iff]
  by_cases inside : j / 8 < bytes.length
  · rw [List.getElem?_append_left inside]
  · rw [List.getElem?_append_right (Nat.le_of_not_lt inside),
      List.getElem?_eq_none (Nat.le_of_not_lt inside), List.getElem?_replicate]
    split <;> simp

theorem testBit_set {byte : UInt8} {k : Nat} (small : k < 8) (l : Nat) :
    (UInt8.ofNat (byte.toNat ||| (1 <<< k))).toNat.testBit l = (byte.toNat.testBit l || k = l) := by
  have mask : 1 <<< k < 2 ^ 8 := by
    rw [Nat.one_shiftLeft]
    exact Nat.pow_lt_pow_right (by decide) small
  have fits := Nat.or_lt_two_pow byte.toNat_lt mask
  rw [UInt8.toNat_ofNat', Nat.mod_eq_of_lt fits, Nat.testBit_or, Nat.one_shiftLeft,
    Nat.testBit_two_pow]

theorem marks_insert (bytes : List UInt8) (i j : Nat) :
    Marks (insert bytes i) j ↔ j = i ∨ Marks bytes j := by
  have grown := @marks_grown bytes (i / 8 + 1 - bytes.length) j
  have long : i / 8 < (bytes ++ List.replicate (i / 8 + 1 - bytes.length) 0).length := by
    rw [List.length_append, List.length_replicate]
    omega
  rw [← grown, insert, marks_iff, marks_iff]
  generalize bytes ++ List.replicate (i / 8 + 1 - bytes.length) 0 = array at long
  by_cases same : i / 8 = j / 8
  · have here := List.getElem?_eq_getElem long
    rw [← same, List.getElem?_modify_eq, here]
    have bit : 7 - i % 8 = 7 - j % 8 ↔ j = i := by omega
    have set := @testBit_set array[i / 8] (7 - i % 8) (by omega) (7 - j % 8)
    simp only [Option.map_eq_map, Option.map_some, Option.some.injEq, exists_eq_left', set,
      Bool.or_eq_true, decide_eq_true_eq, bit, or_comm]
  · have apart : j ≠ i := by
      rintro rfl
      exact same rfl
    rw [List.getElem?_modify_ne _ _ same]
    simp [apart]

/-- All of these numbers are added, the last one of the list first. -/
def insertAll (bytes : List UInt8) (added : List Nat) : List UInt8 :=
  added.foldr (fun i bytes => insert bytes i) bytes

theorem marks_insertAll {bytes : List UInt8} {added : List Nat} {j : Nat} :
    Marks (insertAll bytes added) j ↔ Marks bytes j ∨ j ∈ added := by
  induction added with
  | nil => simp [insertAll]
  | cons i added ih =>
    have first := marks_insert (insertAll bytes added) i j
    rw [ih] at first
    rw [insertAll, List.foldr_cons]
    exact first.trans (by simp [or_left_comm])

theorem length_insertAll (bytes : List UInt8) (added : List Nat) :
    (insertAll bytes added).length =
      added.foldr (fun i length => max length (i / 8 + 1)) bytes.length := by
  induction added with
  | nil => rfl
  | cons i added ih => rw [insertAll, List.foldr_cons, length_insert, List.foldr_cons, ← ih, insertAll]

theorem length_insertAll_le_iff {bytes : List UInt8} {added : List Nat} {bound : Nat} :
    (insertAll bytes added).length ≤ bound ↔
      bytes.length ≤ bound ∧ ∀ i ∈ added, i / 8 + 1 ≤ bound := by
  induction added with
  | nil => simp [insertAll]
  | cons i added ih =>
    have longer := length_insert (insertAll bytes added) i
    have step : (insertAll bytes (i :: added)).length ≤ bound ↔
        (insertAll bytes added).length ≤ bound ∧ i / 8 + 1 ≤ bound := by
      rw [insertAll, List.foldr_cons]
      exact longer ▸ Nat.max_le
    rw [step, ih, List.forall_mem_cons]
    exact ⟨fun ⟨⟨h, t⟩, i⟩ => ⟨h, i, t⟩, fun ⟨h, i, t⟩ => ⟨⟨h, t⟩, i⟩⟩

end BitArray
