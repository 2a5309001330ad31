import K0Torrent.Library.BigEndian
import K0Torrent.Library.Decimal
import K0Torrent.Library.QueryString
import Mathlib.Data.List.TakeWhile
import Mathlib.Data.Nat.Digits.Lemmas

/-! Internet addresses as text (`inet_aton`), and as four bytes in network order.

An address has one to four parts with dots between them. A part is a number as in C, with
`0x` hexadecimal and with a leading zero octal; the last one stands for all the bytes that
the others leave. White space ends the text, and whatever follows it is not looked at.
-/

set_option autoImplicit false

namespace InetAddress

def dot : UInt8 := 0x2E

def isSpace (byte : UInt8) : Bool := byte = 0x20 || (0x09 ≤ byte && byte ≤ 0x0D)

def isOctal (byte : UInt8) : Bool := 0x30 ≤ byte && byte ≤ 0x37

def isHex (byte : UInt8) : Bool := (QueryString.hexValue byte).isSome

def valueOf (base : Nat) (digits : List UInt8) : Nat :=
  digits.foldl (fun total digit => base * total + (QueryString.hexValue digit).getD 0) 0

/-- `strtoul` with the base 0, on a text that starts with a digit. -/
def number (text : List UInt8) : Nat × List UInt8 :=
  let digits := text.drop 2
  if text.head? = some 0x30 ∧ (text[1]? = some 0x78 ∨ text[1]? = some 0x58) ∧
      (digits.head?.map isHex).getD false = true then
    (valueOf 16 (digits.takeWhile isHex), digits.dropWhile isHex)
  else if text.head? = some 0x30 then
    (valueOf 8 (text.takeWhile isOctal), text.dropWhile isOctal)
  else (Decimal.value (text.takeWhile Decimal.isDigit), text.dropWhile Decimal.isDigit)

/-- The parts, with at most that many dots, and the text behind them. -/
def parts : Nat → List UInt8 → Option (List Nat × List UInt8)
  | dots, text =>
    if (text.head?.map Decimal.isDigit).getD false = false then none
    else
      let (value, rest) := number text
      if 2 ^ 32 ≤ value then none
      else if rest.head? = some dot then
        match dots with
        | 0 => none
        | dots + 1 =>
          if 0xFF < value then none
          else (parts dots rest.tail).map fun (values, rest) => (value :: values, rest)
      else some ([value], rest)

/-- `inet_aton`, of the bytes of a `std::string` up to the first zero byte. -/
def ofText (text : List UInt8) : Option (List UInt8) :=
  match parts 3 (text.takeWhile (· ≠ 0)) with
  | none => none
  | some (values, rest) =>
    let front := values.dropLast
    let last := values.getLastD 0
    let width := 4 - front.length
    if (rest.head?.map isSpace).getD true = true ∧ last < 256 ^ width then
      some (front.map UInt8.ofNat ++ BigEndian.encode width last)
    else none

/-- Four decimal numbers. -/
def dottedQuad (a b c d : UInt8) : List UInt8 :=
  Decimal.encode a.toNat ++ dot :: (Decimal.encode b.toNat ++ dot :: (Decimal.encode c.toNat ++
    dot :: Decimal.encode d.toNat))

/-! ## Dotted quads are read back -/

/-- What may follow a number. -/
def Ends (rest : List UInt8) : Prop := rest = [] ∨ rest.head? = some dot

theorem Ends.takeWhile {rest : List UInt8} (ends : Ends rest) {digit : UInt8 → Bool}
    (apart : digit dot = false) {front : List UInt8} (digits : ∀ byte ∈ front, digit byte = true) :
    (front ++ rest).takeWhile digit = front ∧ (front ++ rest).dropWhile digit = rest := by
  have stops : rest.takeWhile digit = [] ∧ rest.dropWhile digit = rest := by
    cases rest with
    | nil => exact ⟨rfl, rfl⟩
    | cons byte rest =>
      have same : byte = dot := by simpa [Ends] using ends
      simp [same, apart]
  simp [List.takeWhile_append_of_pos digits, List.dropWhile_append_of_pos digits, stops]

/-- A number that is not zero is not written with a leading zero. -/
theorem head_encode {n : Nat} (positive : n ≠ 0) : (Decimal.encode n).head? ≠ some 0x30 := by
  have some_ : Nat.digits 10 n ≠ [] := Nat.digits_ne_nil_iff_ne_zero.mpr positive
  have last := Nat.getLast_digit_ne_zero 10 positive
  have small := Nat.digits_lt_base (by decide) (List.getLast_mem some_)
  rw [Decimal.encode, if_neg positive, List.head?_map, List.head?_reverse,
    List.getLast?_eq_some_getLast some_, Option.map_some]
  generalize (Nat.digits 10 n).getLast some_ = digit at last small
  simp only [ne_eq, Option.some.injEq, ← UInt8.toNat_inj, UInt8.toNat_ofNat', UInt8.reduceToNat]
  omega

theorem number_encode (n : Nat) {rest : List UInt8} (ends : Ends rest) :
    number (Decimal.encode n ++ rest) = (n, rest) := by
  by_cases zero : n = 0
  · subst zero
    have read := @Ends.takeWhile _ ends isOctal rfl [0x30] (List.forall_mem_singleton.mpr rfl)
    have plain : ¬ (rest[0]? = some 0x78 ∨ rest[0]? = some 0x58) := by
      cases rest with
      | nil => simp
      | cons byte rest =>
        have same : byte = dot := by simpa [Ends] using ends
        simp [same, dot]
    simp only [List.cons_append, List.nil_append] at read
    simp [number, Decimal.encode, read, plain, valueOf, QueryString.hexValue]
  · have read := @Ends.takeWhile _ ends Decimal.isDigit rfl _ (Decimal.isDigit_of_mem_encode n)
    have head : (Decimal.encode n ++ rest).head? ≠ some 0x30 := by
      rw [List.head?_append_of_ne_nil _ (Decimal.encode_ne_nil n)]
      exact head_encode zero
    simp only [number, head, false_and, if_false, read, Decimal.value_encode]

/-- A part of a dotted quad. -/
theorem parts_encode (dots : Nat) (byte : UInt8) {rest : List UInt8} (ends : Ends rest) :
    parts dots (Decimal.encode byte.toNat ++ rest) =
      if rest.head? = some dot then
        match dots with
        | 0 => none
        | dots + 1 => (parts dots rest.tail).map fun (values, rest) => (byte.toNat :: values, rest)
      else some ([byte.toNat], rest) := by
  have bound := byte.toNat_lt
  have digit : ((Decimal.encode byte.toNat ++ rest).head?.map Decimal.isDigit).getD false = true := by
    obtain ⟨first, digits, same, isDigit⟩ := Decimal.encode_head byte.toNat
    simp [same, isDigit]
  have small : ¬ 2 ^ 32 ≤ byte.toNat := by omega
  have fits : ¬ 0xFF < byte.toNat := by omega
  rw [parts.eq_def]
  simp only [digit, number_encode _ ends, small, fits, if_false, Bool.true_eq_false]

theorem ofText_dottedQuad (a b c d : UInt8) : ofText (dottedQuad a b c d) = some [a, b, c, d] := by
  have ends (rest : List UInt8) : Ends (dot :: rest) := .inr rfl
  have digits := @Decimal.not_mem_encode 0 rfl
  have plain : (dottedQuad a b c d).takeWhile (· ≠ 0) = dottedQuad a b c d := by
    rw [List.takeWhile_eq_self_iff]
    intro byte member
    simp only [decide_eq_true_eq]
    rintro rfl
    simp [dottedQuad, digits, dot] at member
  have last := @parts_encode 0 d [] (.inl rfl)
  rw [List.append_nil] at last
  have read : parts 3 (dottedQuad a b c d) =
      some ([a.toNat, b.toNat, c.toNat, d.toNat], []) := by
    simp [dottedQuad, parts_encode, ends, last]
  have bound := d.toNat_lt
  rw [ofText, plain, read]
  simp [BigEndian.encode, bound]

end InetAddress
