import K0Torrent.Bencode.Canonical
import K0Torrent.Library.Truncation

/-! Data that ends too early.

Every token of the grammar says where it ends, by a length or by a last byte. So data that ends
within a value is never taken for another, shorter value.
-/

set_option autoImplicit false

namespace K0Torrent

open Truncation

/-- `parse`, called at `pos`, throws. -/
def Throws (data : Bytes) (pos : Nat) : Prop := ∃ fuel e, parse data fuel pos = .thrown e

section
variable {data cut : Bytes} {pos : Nat}

theorem getElem?_of_end (here : data.drop pos = []) : data[pos]? = none :=
  List.getElem?_eq_none (List.drop_eq_nil_iff.mp here)

theorem length_le_of_drop (here : data.drop pos = cut) : data.length ≤ pos + cut.length := by
  have total := congrArg List.length here
  rw [List.length_drop] at total
  omega

theorem throws_of_end (here : data.drop pos = []) : Throws data pos :=
  ⟨1, .unexpectedEnd, by rw [parse, getElem?_of_end here]⟩

theorem scanTo_of_clean {until_ : UInt8} (here : data.drop pos = cut)
    (clean : ∀ byte ∈ cut, byte ≠ until_) : data.length ≤ scanTo data until_ pos := by
  have all : cut.takeWhile (· != until_) = cut :=
    List.takeWhile_eq_self_iff.mpr fun byte member => bne_iff_ne.mpr (clean byte member)
  rw [scanTo, here, all]
  exact length_le_of_drop here

theorem throws_integer (here : data.drop pos = Token.integer :: cut)
    (clean : ∀ byte ∈ cut, byte ≠ Token.stop) : Throws data pos := by
  have text : data.drop (pos + 1) = cut := drop_behind (show _ = [Token.integer] ++ _ from here)
  have unterminated := scanTo_of_clean text clean
  refine ⟨1, .unterminatedInteger, ?_⟩
  rw [parse_integer (getElem?_of_drop here), parseInteger]
  exact if_pos unterminated

/-- The data ends within the length. -/
theorem throws_length {digits : Bytes} (here : data.drop pos = cut) (some_ : cut ≠ [])
    (beginning : cut <+: digits) (numeral : Decimal.Numeral digits) : Throws data pos := by
  have digit : ∀ byte ∈ cut, Decimal.isDigit byte = true := fun byte member =>
    numeral.all byte (beginning.subset member)
  have noColon := scanTo_of_clean here fun byte member =>
    isDigit_ne (digit byte member) (show Decimal.isDigit Token.colon = false by decide)
  obtain ⟨c, tail, rfl⟩ := List.exists_cons_of_ne_nil some_
  refine ⟨1, .malformedString, ?_⟩
  rw [parse_digit (getElem?_of_drop here) (digit c (List.mem_cons_self ..)), parseString]
  exact if_pos noColon

/-- The data ends within the contents. -/
theorem throws_contents {digits contents : Bytes} (numeral : Decimal.Numeral digits)
    (length : Decimal.value digits = contents.length)
    (here : data.drop pos = digits ++ Token.colon :: cut) (short : cut.length < contents.length)
    (size : pos + digits.length + 1 + contents.length < 2 ^ 64) : Throws data pos := by
  obtain ⟨c, tail, same, digit⟩ := numeral.head
  have colon := scanTo_of_drop here fun byte member =>
    isDigit_ne (numeral.all byte member) (by decide)
  have behind := drop_behind here
  have inside := lt_length_of_drop behind
  have end_ := length_le_of_drop (drop_behind (show _ = [Token.colon] ++ _ from behind))
  have num : substr data pos (pos + digits.length - pos) = digits := by
    rw [Nat.add_sub_cancel_left]
    exact substr_of_drop here
  have read : stoull digits = .ok contents.length := by
    rw [stoull_of_digits numeral.all, length, if_pos (by omega)]
  -- The end of the contents would be representable, so the bounds test sees that they are short.
  have outside : data.length < (pos + digits.length + 1 + contents.length) % 2 ^ 64 := by
    rw [Nat.mod_eq_of_lt size]
    rw [List.length_singleton] at end_
    omega
  refine ⟨1, .stringOutOfBounds, (parse_digit (getElem?_of_head here same) digit).trans ?_⟩
  simp only [parseString, colon, if_neg (not_le.mpr inside), num, read, if_pos outside]

theorem throws_list {fuel : Nat} {e : DecodeError} (found : data[pos]? = some Token.list)
    (failed : parseList data fuel (pos + 1) [] = .thrown e) : Throws data pos :=
  ⟨fuel + 1, e, (parse_list found).trans failed⟩

theorem throws_dict {fuel : Nat} {e : DecodeError} (found : data[pos]? = some Token.dict)
    (failed : parseDict data fuel (pos + 1) [] = .thrown e) : Throws data pos :=
  ⟨fuel + 1, e, (parse_dict found).trans failed⟩

/-- A value is missing where the data ends, and cut off otherwise. -/
theorem Derives.cases_cut {bytes : Bytes} {v : BencodeValue} (derives : Derives bytes v)
    (truncated : Cut cut bytes) : cut = [] ∨ ∃ c tail, cut = c :: tail ∧ c ≠ Token.stop := by
  obtain ⟨c, rest, rfl, more⟩ := derives.head
  exact truncated.cons.imp_right fun ⟨left, same, _⟩ => ⟨c, left, same, more⟩

end

mutual
theorem Derives.throws {data : Bytes} : ∀ {bytes : Bytes} {v : BencodeValue}, Derives bytes v →
    ∀ {pos : Nat} {cut : Bytes}, data.drop pos = cut → Cut cut bytes →
    pos + bytes.length < 2 ^ 64 → Throws data pos
  | _, _, @Derives.int digits numeral _, pos, cut, here, truncated, _ => by
    rcases truncated.cons with rfl | ⟨left, rfl, inside⟩
    · exact throws_of_end here
    · exact throws_integer here fun byte member =>
        isDigit_ne (numeral.all byte (inside.concat.subset member)) (by decide)
  | _, _, @Derives.negative digits numeral _, pos, cut, here, truncated, _ => by
    rcases truncated.cons with rfl | ⟨left, rfl, inside⟩
    · exact throws_of_end here
    · refine throws_integer here fun byte member => ?_
      rcases List.mem_cons.mp (inside.concat.subset member) with rfl | digit
      · decide
      · exact isDigit_ne (numeral.all byte digit) (by decide)
  | _, _, @Derives.string digits contents numeral length, pos, cut, here, truncated, size => by
    rw [List.length_append, List.length_cons] at size
    rcases Derives.cases_cut (.string numeral length) truncated with rfl | ⟨c, tail, same, -⟩
    · exact throws_of_end here
    · have some_ : cut ≠ [] := by simp [same]
      rcases truncated.append with short | ⟨left, rfl, inside⟩
      · exact throws_length here some_ short.beginning numeral
      · rcases inside.cons with rfl | ⟨left, rfl, short⟩
        · rw [List.append_nil] at here some_
          exact throws_length here some_ List.prefix_rfl numeral
        · exact throws_contents numeral length here short.short (by omega)
  | _, _, @Derives.list bytes items derives, pos, cut, here, truncated, size => by
    rw [List.length_cons, List.length_append] at size
    rcases truncated.cons with rfl | ⟨left, rfl, inside⟩
    · exact throws_of_end here
    · have text : data.drop (pos + 1) = left := drop_behind (show _ = [Token.list] ++ _ from here)
      obtain ⟨fuel, e, failed⟩ := derives.throws [] text inside.concat (by omega)
      exact throws_list (getElem?_of_drop here) failed
  | _, _, @Derives.dict bytes bindings entries derives last, pos, cut, here, truncated, size => by
    rw [List.length_cons, List.length_append] at size
    rcases truncated.cons with rfl | ⟨left, rfl, inside⟩
    · exact throws_of_end here
    · have text : data.drop (pos + 1) = left := drop_behind (show _ = [Token.dict] ++ _ from here)
      obtain ⟨fuel, e, failed⟩ := derives.throws [] text inside.concat (by omega)
      exact throws_dict (getElem?_of_drop here) failed

theorem DerivesItems.throws {data : Bytes} : ∀ {bytes : Bytes} {items : List BencodeValue},
    DerivesItems bytes items → ∀ {pos : Nat} {cut : Bytes} (before : List BencodeValue),
    data.drop pos = cut → cut <+: bytes → pos + bytes.length < 2 ^ 64 →
    ∃ fuel e, parseList data fuel pos before = .thrown e
  | _, _, .nil, pos, cut, before, here, beginning, _ => by
    cases List.prefix_nil.mp beginning
    exact ⟨1, .unterminatedList, by rw [parseList, getElem?_of_end here]⟩
  | _, _, @DerivesItems.cons bytes more item items first later, pos, cut, before, here, beginning,
      size => by
    rw [List.length_append] at size
    rcases beginning_append beginning with truncated | ⟨left, rfl, within⟩
    · -- The data ends within this item, or where it would start.
      rcases first.cases_cut truncated with rfl | ⟨c, tail, same, other⟩
      · exact ⟨1, .unterminatedList, by rw [parseList, getElem?_of_end here]⟩
      · obtain ⟨fuel, e, failed⟩ := first.throws here truncated (by omega)
        exact ⟨fuel + 1, e, parseList_thrown (getElem?_of_drop (here.trans same)) other failed⟩
    · obtain ⟨c, tail, same, other⟩ := first.head
      have short := length_le_of_drop here
      have leftShort := within.length_le
      rw [List.length_append] at short
      obtain ⟨one, parsed⟩ := first.returns (by omega) here
      obtain ⟨two, e, failed⟩ := later.throws (before ++ [item]) (drop_behind here) within
        (by omega)
      have round := parseList_next (getElem?_of_head here same) other parsed
        (Outcome.finished_of_thrown failed)
      exact ⟨max one two + 1, e, round.trans failed⟩

theorem DerivesBindings.throws {data : Bytes} :
    ∀ {bytes : Bytes} {bindings : List (Bytes × BencodeValue)}, DerivesBindings bytes bindings →
    ∀ {pos : Nat} {cut : Bytes} (before : List (Bytes × BencodeValue)),
    data.drop pos = cut → cut <+: bytes → pos + bytes.length < 2 ^ 64 →
    ∃ fuel e, parseDict data fuel pos before = .thrown e
  | _, _, .nil, pos, cut, before, here, beginning, _ => by
    cases List.prefix_nil.mp beginning
    exact ⟨1, .unterminatedDict, by rw [parseDict, getElem?_of_end here]⟩
  | _, _, @DerivesBindings.cons keyBytes bytes more key val bindings name first later, pos, cut,
      before, here, beginning, size => by
    rw [List.length_append, List.length_append] at size
    rcases beginning_append beginning with truncated | ⟨left, rfl, within⟩
    · rcases name.cases_cut truncated with rfl | ⟨c, tail, same, other⟩
      · exact ⟨1, .unterminatedDict, by rw [parseDict, getElem?_of_end here]⟩
      · obtain ⟨fuel, e, failed⟩ := name.throws here truncated (by omega)
        exact ⟨fuel + 1, e, parseDict_key_thrown (getElem?_of_drop (here.trans same)) other failed⟩
    · obtain ⟨c, tail, same, other⟩ := name.head
      have short := length_le_of_drop here
      have leftShort := within.length_le
      rw [List.length_append] at short leftShort
      have found := getElem?_of_head here same
      obtain ⟨one, keyParsed⟩ := name.returns (by omega) here
      have behind := drop_behind here
      rcases beginning_append within with truncated | ⟨left, rfl, inside⟩
      · obtain ⟨two, e, failed⟩ := first.throws behind truncated (by omega)
        exact ⟨_, e, parseDict_val_thrown found other keyParsed failed⟩
      · obtain ⟨two, valParsed⟩ := first.returns (by omega) behind
        obtain ⟨three, e, failed⟩ := later.throws (assign key val before) (drop_behind behind) inside
          (by omega)
        have round := parseDict_next found other keyParsed valParsed
          (Outcome.finished_of_thrown failed)
        exact ⟨_, e, round.trans failed⟩
end

/-- Decoding a value of which the end is missing throws, wherever the value stands. -/
theorem decode_cut {bytes cut : Bytes} {v : BencodeValue} (derives : Derives bytes v)
    (truncated : Cut cut bytes) (front : Bytes) (size : (front ++ bytes).length < 2 ^ 64) :
    ∃ least e, ∀ fuel, least ≤ fuel → decode (front ++ cut) fuel front.length = .thrown e := by
  have here : (front ++ cut).drop front.length = cut := List.drop_left
  rw [List.length_append] at size
  obtain ⟨least, e, failed⟩ := derives.throws here truncated size
  refine ⟨least, e, fun fuel enough => ?_⟩
  exact (parse_of_le enough (Outcome.finished_of_thrown failed)).trans failed

/-- The data ends in the middle of the last string of a list. -/
theorem decode_cut_spam :
    ∃ least e, ∀ fuel, least ≤ fuel → decode (ascii "xl4:spam3:eg") fuel 1 = .thrown e := by
  have spam : Derives (ascii "4:spam") (.string (ascii "spam")) :=
    @Derives.string (ascii "4") (ascii "spam") ⟨by decide, by decide +kernel⟩ (by decide)
  have eggs : Derives (ascii "3:egg") (.string (ascii "egg")) :=
    @Derives.string (ascii "3") (ascii "egg") ⟨by decide, by decide +kernel⟩ (by decide)
  have derives : Derives (ascii "l4:spam3:egge") _ := .list (.cons spam (.cons eggs .nil))
  have truncated : Cut (ascii "l4:spam3:eg") (ascii "l4:spam3:egge") :=
    ⟨by decide +kernel, by decide +kernel⟩
  exact decode_cut derives truncated (ascii "x") (by decide +kernel)

end K0Torrent
