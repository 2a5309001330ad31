import Mathlib.Data.List.Basic

/-! Query strings, as a server takes them apart.

Behind the first question mark of a target there are fields between ampersands. A field is a
key and a value, with an equals sign between them, and a value may have bytes written as a
percent sign and two hexadecimal digits.
-/

set_option autoImplicit false

namespace QueryString

def percent : UInt8 := 0x25
def ampersand : UInt8 := 0x26
def equals : UInt8 := 0x3D
def question : UInt8 := 0x3F

/-! ## Cutting at the first separator -/

def cut (sep : UInt8) : List UInt8 → List UInt8 × Option (List UInt8)
  | [] => ([], none)
  | byte :: rest =>
    if byte = sep then ([], some rest)
    else
      let (front, back) := cut sep rest
      (byte :: front, back)

section
variable {sep : UInt8} {front : List UInt8}

theorem cut_append (free : sep ∉ front) (back : List UInt8) :
    cut sep (front ++ sep :: back) = (front, some back) := by
  induction front with
  | nil => rw [List.nil_append, cut, if_pos rfl]
  | cons byte front ih =>
    rw [List.mem_cons, not_or] at free
    obtain ⟨different, rest⟩ := free
    rw [List.cons_append, cut, if_neg (Ne.symm different), ih rest]

/-- A list has no separator, or is what stands before its first one and what stands behind it. -/
theorem cut_cases (sep : UInt8) (bytes : List UInt8) :
    sep ∉ bytes ∨ ∃ front back, sep ∉ front ∧ bytes = front ++ sep :: back := by
  by_cases free : sep ∈ bytes
  · obtain ⟨front, back, rfl, absent⟩ := List.eq_append_cons_of_mem free
    exact .inr ⟨front, back, absent, rfl⟩
  · exact .inl free

end

/-! ## Percent-encoding -/

def hexDigit (n : Nat) : UInt8 := UInt8.ofNat (if n < 10 then 0x30 + n else 0x57 + n)

/-- A digit of either case. -/
def hexValue (byte : UInt8) : Option Nat :=
  if 0x30 ≤ byte ∧ byte ≤ 0x39 then some (byte.toNat - 0x30)
  else if 0x61 ≤ byte ∧ byte ≤ 0x66 then some (byte.toNat - 0x57)
  else if 0x41 ≤ byte ∧ byte ≤ 0x46 then some (byte.toNat - 0x37)
  else none

def encodeByte (byte : UInt8) : List UInt8 :=
  [percent, hexDigit (byte.toNat / 16), hexDigit (byte.toNat % 16)]

/-- A percent sign without two digits stands for itself. -/
def decode : List UInt8 → List UInt8
  | [] => []
  | [byte] => [byte]
  | [byte, next] => [byte, next]
  | byte :: high :: low :: rest =>
    if byte = percent then
      match hexValue high, hexValue low with
      | some h, some l => UInt8.ofNat (16 * h + l) :: decode rest
      | _, _ => byte :: decode (high :: low :: rest)
    else byte :: decode (high :: low :: rest)

theorem hexValue_hexDigit {n : Nat} (small : n < 16) : hexValue (hexDigit n) = some n := by
  have all : ∀ n < 16, hexValue (hexDigit n) = some n := by decide
  exact all n small

theorem decode_encodeByte (byte : UInt8) (rest : List UInt8) :
    decode (encodeByte byte ++ rest) = byte :: decode rest := by
  have bound := byte.toNat_lt
  have high := hexValue_hexDigit (n := byte.toNat / 16) (by omega)
  have low := hexValue_hexDigit (n := byte.toNat % 16) (by omega)
  have whole : 16 * (byte.toNat / 16) + byte.toNat % 16 = byte.toNat := by omega
  simp only [encodeByte, List.cons_append, List.nil_append, decode, if_true, high, low, whole,
    UInt8.ofNat_toNat]

theorem decode_encode (data : List UInt8) : decode (data.flatMap encodeByte) = data := by
  induction data with
  | nil => rfl
  | cons byte data ih => rw [List.flatMap_cons, decode_encodeByte, ih]

theorem decode_of_free {bytes : List UInt8} (free : percent ∉ bytes) : decode bytes = bytes := by
  fun_induction decode bytes with
  | case1 | case2 | case3 => rfl
  | case4 => simp_all
  | case5 => simp_all
  | case6 => simp_all

/-- What the encoder writes has none of the separators. -/
theorem not_mem_encode {sep : UInt8} (apart : sep ≠ percent) (noDigit : hexValue sep = none)
    (data : List UInt8) : sep ∉ data.flatMap encodeByte := by
  intro member
  obtain ⟨byte, -, written⟩ := List.mem_flatMap.mp member
  have bound := byte.toNat_lt
  have digit {n : Nat} (small : n < 16) : sep ≠ hexDigit n := by
    rintro rfl
    rw [hexValue_hexDigit small] at noDigit
    cases noDigit
  simp only [encodeByte, List.mem_cons, List.not_mem_nil, or_false] at written
  rcases written with same | same | same
  · exact apart same
  · exact digit (by omega) same
  · exact digit (by omega) same

/-! ## Fields -/

def readField (bytes : List UInt8) : List UInt8 × List UInt8 :=
  let (key, value) := cut equals bytes
  (key, decode (value.getD []))

def fields (query : List UInt8) : List (List UInt8 × List UInt8) :=
  (query.splitOn ampersand).map readField

/-- The path of a request target, and its fields. -/
def readTarget (target : List UInt8) : List UInt8 × List (List UInt8 × List UInt8) :=
  let (path, query) := cut question target
  (path, (query.map fields).getD [])

theorem readField_join {key value : List UInt8} (free : equals ∉ key) :
    readField (key ++ equals :: value) = (key, decode value) := by
  rw [readField, cut_append free]
  rfl

theorem fields_join {written : List (List UInt8)} (free : ∀ one ∈ written, ampersand ∉ one)
    (some_ : written ≠ []) :
    fields ([ampersand].intercalate written) = written.map readField := by
  rw [fields, List.splitOn_intercalate ampersand free some_]

theorem readTarget_append {path : List UInt8} (free : question ∉ path) (query : List UInt8) :
    readTarget (path ++ question :: query) = (path, fields query) := by
  rw [readTarget, cut_append free]
  rfl

theorem length_splitOn (sep : UInt8) (bytes : List UInt8) :
    (bytes.splitOn sep).length = bytes.count sep + 1 := by
  induction bytes with
  | nil => rfl
  | cons byte bytes ih =>
    rw [List.splitOn_cons_eq_if_modifyHead, List.count_cons]
    split
    · rw [List.length_cons, ih]
    · rw [List.length_modifyHead, ih, Nat.add_zero]

/-- There is one field more than ampersands. -/
theorem length_fields (query : List UInt8) : (fields query).length = query.count ampersand + 1 := by
  rw [fields, List.length_map, length_splitOn]

end QueryString
