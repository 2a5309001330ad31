import K0Torrent.Bencode.Grammar

/-! Decoding undoes the canonical encoding.

The canonical encoding of a value is derived by the grammar, and what is derived is
decoded wherever it stands. The decoder builds no values but those that have one.
-/

set_option autoImplicit false

namespace K0Torrent

/- A value that the types of the source can hold: integers are `int64_t`, and a
dictionary is a `std::map`. -/
mutual
def Native : BencodeValue → Prop
  | .int n => -2 ^ 63 ≤ n ∧ n < 2 ^ 63
  | .string _ => True
  | .list items => NativeItems items
  | .dict entries => NativeEntries entries ∧ Ascending entries

def NativeItems : List BencodeValue → Prop
  | [] => True
  | item :: rest => Native item ∧ NativeItems rest

def NativeEntries : List (Bytes × BencodeValue) → Prop
  | [] => True
  | (_, val) :: rest => Native val ∧ NativeEntries rest
end

/-- Each key of a dictionary is bound once, so its first binding is its last. -/
theorem Ascending.lastBindings {entries : List (Bytes × BencodeValue)}
    (ascending : Ascending entries) : LastBindings entries entries := by
  refine ⟨ascending, fun wanted => ?_⟩
  induction entries with
  | nil => rfl
  | cons entry entries ih =>
    obtain ⟨key, val⟩ := entry
    obtain ⟨above, later⟩ := List.pairwise_cons.mp ascending
    rw [List.reverse_cons, List.lookup_append, ← ih later]
    by_cases same : wanted = key
    · subst same
      rw [lookup_eq_none_of_lt above, List.lookup_cons_self, List.lookup_cons_self, Option.none_or]
    · rw [lookup_cons_other same, lookup_cons_other same, List.lookup_nil, Option.or_none]

theorem derives_encodeInt {n : Int} (lower : -2 ^ 63 ≤ n) (upper : n < 2 ^ 63) :
    Derives (encode (.int n)) (.int n) := by
  have numeral := Decimal.numeral_encode n.natAbs
  have value := Decimal.value_encode n.natAbs
  rw [encode, encodeInt]
  split
  · have derives : Derives _ (.int (-Decimal.value (Decimal.encode n.natAbs))) :=
      .negative numeral (by omega)
    rwa [value, show -(n.natAbs : Int) = n by omega] at derives
  · have derives : Derives _ (.int (Decimal.value (Decimal.encode n.natAbs))) :=
      .int numeral (by omega)
    rwa [value, show (n.natAbs : Int) = n by omega] at derives

theorem derives_encodeString (bytes : Bytes) : Derives (encodeString bytes) (.string bytes) :=
  .string (Decimal.numeral_encode _) (Decimal.value_encode _)

mutual
theorem derives_encode : ∀ v : BencodeValue, Native v → Derives (encode v) v
  | .int n, native => derives_encodeInt native.1 native.2
  | .string bytes, _ => by
    rw [encode]
    exact derives_encodeString bytes
  | .list items, native => by
    rw [encode]
    exact .list (derives_encodeItems items native)
  | .dict entries, native => by
    rw [encode]
    exact .dict (derives_encodeEntries entries native.1) native.2.lastBindings

theorem derives_encodeItems : ∀ items : List BencodeValue, NativeItems items →
    DerivesItems (encodeItems items) items
  | [], _ => .nil
  | item :: items, native => by
    rw [encodeItems]
    exact .cons (derives_encode item native.1) (derives_encodeItems items native.2)

theorem derives_encodeEntries : ∀ entries : List (Bytes × BencodeValue), NativeEntries entries →
    DerivesBindings (encodeEntries entries) entries
  | [], _ => .nil
  | (key, val) :: entries, native => by
    rw [encodeEntries]
    exact .cons (derives_encodeString key) (derives_encode val native.1)
      (derives_encodeEntries entries native.2)
end

/-- Decoding at the start of a canonical encoding returns the value and leaves the
position behind it, whatever stands around it. -/
theorem returns_encode {v : BencodeValue} (native : Native v) (front back : Bytes)
    (size : (front ++ encode v ++ back).length < 2 ^ 63) :
    Returns (front ++ encode v ++ back) front.length v (front.length + (encode v).length) := by
  have here : (front ++ encode v ++ back).drop front.length = encode v ++ back := by
    rw [List.append_assoc, List.drop_left]
  exact (derives_encode v native).returns (Nat.lt_trans size (by decide)) here

/-- A dictionary with the least integer and a string of structural bytes in it. -/
def nested : BencodeValue :=
  .dict [(ascii "a", .list [.int (-2 ^ 63), .string (ascii "e")]), (ascii "b", .dict [])]

theorem returns_nested :
    Returns (ascii "xl" ++ encode nested ++ ascii "4:") 2 nested (2 + (encode nested).length) := by
  have native : Native nested := by
    simp [nested, Native, NativeItems, NativeEntries, Ascending, ascii]
    decide
  exact returns_encode native (ascii "xl") (ascii "4:") (by decide +kernel)

/-! ## What the decoder builds -/

theorem nativeItems_concat {items : List BencodeValue} {item : BencodeValue}
    (native : NativeItems items) (last : Native item) : NativeItems (items ++ [item]) := by
  induction items with
  | nil => exact ⟨last, trivial⟩
  | cons first items ih => exact ⟨native.1, ih native.2⟩

theorem nativeEntries_assign {entries : List (Bytes × BencodeValue)} {key : Bytes}
    {val : BencodeValue} (native : NativeEntries entries) (last : Native val) :
    NativeEntries (assign key val entries) := by
  induction entries with
  | nil => exact ⟨last, trivial⟩
  | cons entry entries ih =>
    obtain ⟨first, rest⟩ := native
    rw [assign]
    split_ifs
    · exact ⟨last, rest⟩
    · exact ⟨last, first, rest⟩
    · exact ⟨first, ih rest⟩

theorem native_of_lookup {entries : List (Bytes × BencodeValue)} {key : Bytes} {val : BencodeValue}
    (native : NativeEntries entries) (found : entries.lookup key = some val) : Native val := by
  induction entries with
  | nil => cases found
  | cons entry entries ih =>
    obtain ⟨first, rest⟩ := native
    rw [List.lookup_cons] at found
    split at found
    · exact Option.some.inj found ▸ first
    · exact ih rest found

theorem native_of_mem {items : List BencodeValue} {item : BencodeValue} (native : NativeItems items)
    (member : item ∈ items) : Native item := by
  induction items with
  | nil => cases member
  | cons first items ih =>
    rcases List.mem_cons.mp member with rfl | later
    · exact native.1
    · exact ih native.2 later

theorem native_parseInteger {data : Bytes} {pos next : Nat} {v : BencodeValue}
    (returned : parseInteger data pos = .value (v, next)) : Native v := by
  simp only [parseInteger, stoll] at returned
  split_ifs at returned with _ _ _ _ range
  cases returned
  exact ⟨by omega, by omega⟩

theorem native_parseString {data : Bytes} {pos next : Nat} {v : BencodeValue}
    (returned : parseString data pos = .value (v, next)) : Native v := by
  rw [parseString] at returned
  dsimp only at returned
  split_ifs at returned
  split at returned
  · cases returned
  · split_ifs at returned
    cases returned
    trivial

/-- Whatever the bound, only values of the source's types are built. -/
theorem native_of_parse (data : Bytes) (fuel : Nat) :
    (∀ pos v next, parse data fuel pos = .value (v, next) → Native v) ∧
    (∀ pos items v next, NativeItems items → parseList data fuel pos items = .value (v, next) →
      Native v) ∧
    ∀ pos entries v next, NativeEntries entries → Ascending entries →
      parseDict data fuel pos entries = .value (v, next) → Native v := by
  induction fuel with
  | zero =>
    refine ⟨fun _ _ _ returned => ?_, fun _ _ _ _ _ returned => ?_, fun _ _ _ _ _ _ returned => ?_⟩ <;>
      cases returned
  | succ fuel ih =>
    obtain ⟨parsed, listed, bound⟩ := ih
    refine ⟨fun pos v next returned => ?_, fun pos items v next native returned => ?_,
      fun pos entries v next native ascending returned => ?_⟩
    · rw [parse] at returned
      split at returned
      · cases returned
      · split_ifs at returned
        · exact native_parseInteger returned
        · exact native_parseString returned
        · exact listed _ [] _ _ trivial returned
        · exact bound _ [] _ _ trivial List.Pairwise.nil returned
    · rw [parseList] at returned
      split at returned
      · cases returned
      · split_ifs at returned
        · cases returned
          exact native
        · obtain ⟨⟨item, mid⟩, first, rest⟩ := Outcome.bind_eq_value.mp returned
          exact listed _ _ _ _ (nativeItems_concat native (parsed _ _ _ first)) rest
    · rw [parseDict] at returned
      split at returned
      · cases returned
      · split_ifs at returned
        · cases returned
          exact ⟨native, ascending⟩
        · obtain ⟨⟨key, mid⟩, _, rest⟩ := Outcome.bind_eq_value.mp returned
          cases key with
          | string bytes =>
            obtain ⟨⟨val, last⟩, second, rest⟩ := Outcome.bind_eq_value.mp rest
            exact bound _ _ _ _ (nativeEntries_assign native (parsed _ _ _ second))
              (ascending.assign ..) rest
          | _ => cases rest

theorem Returns.native {data : Bytes} {pos next : Nat} {v : BencodeValue}
    (returns : Returns data pos v next) : Native v := by
  obtain ⟨fuel, returned⟩ := returns
  exact (native_of_parse data fuel).1 pos v next returned

end K0Torrent
