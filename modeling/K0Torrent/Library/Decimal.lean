import Mathlib.Data.Nat.Digits.Defs

/-! Decimal numerals as ASCII bytes. -/

set_option autoImplicit false

namespace Decimal

def isDigit (byte : UInt8) : Bool := 0x30 ≤ byte && byte ≤ 0x39

def value (digits : List UInt8) : Nat :=
  digits.foldl (fun total digit => 10 * total + (digit.toNat - 0x30)) 0

/-- One or more digits. -/
structure Numeral (digits : List UInt8) : Prop where
  some_ : digits ≠ []
  all : ∀ byte ∈ digits, isDigit byte = true

/-- The numeral without leading zeros. -/
def encode (n : Nat) : List UInt8 :=
  if n = 0 then [0x30] else (Nat.digits 10 n).reverse.map fun digit => UInt8.ofNat (0x30 + digit)

theorem isDigit_ofNat (digit : Nat) (small : digit < 10) :
    isDigit (UInt8.ofNat (0x30 + digit)) = true := by
  have value : (UInt8.ofNat (0x30 + digit)).toNat = 0x30 + digit := by
    rw [UInt8.toNat_ofNat']
    omega
  simp only [isDigit, Bool.and_eq_true, decide_eq_true_eq, UInt8.le_iff_toNat_le, value]
  constructor <;> simp only [UInt8.reduceToNat] <;> omega

theorem isDigit_of_mem_encode (n : Nat) (byte : UInt8) (member : byte ∈ encode n) :
    isDigit byte = true := by
  unfold encode at member
  split at member
  · rw [List.mem_singleton] at member
    subst member
    rfl
  · obtain ⟨digit, found, rfl⟩ := List.mem_map.mp member
    exact isDigit_ofNat digit (Nat.digits_lt_base (by decide) (List.mem_reverse.mp found))

theorem not_mem_encode {byte : UInt8} (noDigit : isDigit byte = false) (n : Nat) :
    byte ∉ encode n := by
  intro member
  rw [isDigit_of_mem_encode n byte member] at noDigit
  cases noDigit

theorem encode_ne_nil (n : Nat) : encode n ≠ [] := by
  unfold encode
  split
  · nofun
  · rename_i positive
    simp [Nat.digits_ne_nil_iff_ne_zero, positive]

theorem numeral_encode (n : Nat) : Numeral (encode n) := ⟨encode_ne_nil n, isDigit_of_mem_encode n⟩

theorem Numeral.head {digits : List UInt8} (numeral : Numeral digits) :
    ∃ byte rest, digits = byte :: rest ∧ isDigit byte = true := by
  obtain ⟨byte, rest, same⟩ := List.exists_cons_of_ne_nil numeral.some_
  exact ⟨byte, rest, same, numeral.all byte (by simp [same])⟩

theorem encode_head (n : Nat) : ∃ byte rest, encode n = byte :: rest ∧ isDigit byte = true :=
  (numeral_encode n).head

theorem value_reverse_digits (digits : List Nat) (small : ∀ digit ∈ digits, digit < 10) :
    value (digits.reverse.map fun digit => UInt8.ofNat (0x30 + digit)) = Nat.ofDigits 10 digits := by
  induction digits with
  | nil => rfl
  | cons digit rest ih =>
    have first := small digit (by simp)
    have tail := ih fun d member => small d (by simp [member])
    simp only [value] at tail ⊢
    simp only [List.reverse_cons, List.map_append, List.map_cons, List.map_nil, List.foldl_append,
      List.foldl_cons, List.foldl_nil, tail, Nat.ofDigits_cons, UInt8.toNat_ofNat']
    omega

@[simp] theorem value_encode (n : Nat) : value (encode n) = n := by
  unfold encode
  split
  · rename_i zero
    subst zero
    rfl
  · rw [value_reverse_digits _ fun digit member => Nat.digits_lt_base (by decide) member,
      Nat.ofDigits_digits]

theorem encode_all_isDigit (n : Nat) : (encode n).all isDigit = true :=
  List.all_eq_true.mpr (isDigit_of_mem_encode n)

end Decimal
