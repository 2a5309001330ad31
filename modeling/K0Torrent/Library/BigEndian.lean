import Mathlib.Data.List.Induction
import Mathlib.Algebra.Order.Ring.Nat

/-! Big-endian words of any width over bytes.

`encode` writes a number in a fixed number of bytes and `value` reads a byte
string as a base-256 numeral; each inverts the other on the width it is given.
-/

set_option autoImplicit false

namespace BigEndian

def value (bytes : List UInt8) : Nat :=
  bytes.foldl (fun total byte => 256 * total + byte.toNat) 0

def encode : Nat → Nat → List UInt8
  | 0, _ => []
  | width + 1, v => encode width (v / 256) ++ [UInt8.ofNat v]

@[simp] theorem value_nil : value [] = 0 := rfl

@[simp] theorem value_concat (bytes : List UInt8) (byte : UInt8) :
    value (bytes ++ [byte]) = 256 * value bytes + byte.toNat := by
  simp [value]

theorem value_lt (bytes : List UInt8) : value bytes < 256 ^ bytes.length := by
  induction bytes using List.reverseRecOn with
  | nil => simp
  | append_singleton bytes byte ih =>
    have last := byte.toNat_lt
    simp only [value_concat, List.length_append, List.length_singleton, pow_succ]
    omega

theorem value_encode (width v : Nat) (fits : v < 256 ^ width) : value (encode width v) = v := by
  induction width generalizing v with
  | zero =>
    simp only [pow_zero, Nat.lt_one_iff] at fits
    simp [encode, fits]
  | succ width ih =>
    have front : v / 256 < 256 ^ width := by
      rw [Nat.div_lt_iff_lt_mul (by decide), ← pow_succ]
      exact fits
    simp only [encode, value_concat, ih _ front, UInt8.toNat_ofNat']
    omega

theorem encode_value (bytes : List UInt8) : encode bytes.length (value bytes) = bytes := by
  induction bytes using List.reverseRecOn with
  | nil => rfl
  | append_singleton bytes byte ih =>
    have last := byte.toNat_lt
    have front : (256 * value bytes + byte.toNat) / 256 = value bytes := by omega
    have back : UInt8.ofNat (256 * value bytes + byte.toNat) = byte := by
      apply UInt8.toNat_inj.mp
      simp only [UInt8.toNat_ofNat']
      omega
    simp only [List.length_append, List.length_singleton, value_concat, encode, front, back, ih]

@[simp] theorem length_encode (width v : Nat) : (encode width v).length = width := by
  induction width generalizing v with
  | zero => rfl
  | succ width ih => simp [encode, ih]

/-- A wide word is its upper part and its lower part. -/
theorem encode_add (upper lower v : Nat) :
    encode (upper + lower) v = encode upper (v / 256 ^ lower) ++ encode lower v := by
  induction lower generalizing v with
  | zero => simp [encode]
  | succ lower ih =>
    rw [← Nat.add_assoc, encode, ih, encode, Nat.div_div_eq_div_mul, ← Nat.pow_succ',
      List.append_assoc]

/-- What does not fit is cut off. -/
theorem encode_mod (width v : Nat) : encode width (v % 256 ^ width) = encode width v := by
  induction width generalizing v with
  | zero => rfl
  | succ width ih =>
    have front : v % 256 ^ (width + 1) / 256 = v / 256 % 256 ^ width := by
      rw [Nat.pow_succ', Nat.mod_mul_right_div_self]
    have back : UInt8.ofNat (v % 256 ^ (width + 1)) = UInt8.ofNat v := by
      apply UInt8.toNat_inj.mp
      simp only [UInt8.toNat_ofNat', Nat.pow_succ']
      exact Nat.mod_mul_right_mod v 256 (256 ^ width)
    rw [encode, front, ih, back, encode]

/-! ## Signed words -/

/-- In two's complement. -/
def signed (bytes : List UInt8) : Int :=
  if 2 * value bytes < 256 ^ bytes.length then value bytes else value bytes - 256 ^ bytes.length

theorem signed_encode (width : Nat) {z : Int} (lower : -256 ^ width ≤ 2 * z)
    (upper : 2 * z < 256 ^ width) : signed (encode width (z % 256 ^ width).toNat) = z := by
  have size : ((256 ^ width : Nat) : Int) = 256 ^ width := by push_cast; rfl
  -- The word is the number itself, or stands one turn above it.
  have word : z % 256 ^ width = z ∧ 0 ≤ z ∨ z % 256 ^ width = z + 256 ^ width ∧ z < 0 := by
    by_cases sign : 0 ≤ z
    · exact .inl ⟨Int.emod_eq_of_lt sign (by omega), sign⟩
    · rw [← Int.add_emod_right]
      exact .inr ⟨Int.emod_eq_of_lt (by omega) (by omega), by omega⟩
  have fits : (z % 256 ^ width).toNat < 256 ^ width := by omega
  rw [signed, length_encode, value_encode _ _ fits]
  split <;> omega

end BigEndian
