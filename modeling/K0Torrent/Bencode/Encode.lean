import K0Torrent.Bencode.Decode
import Mathlib.Data.List.TakeWhile

/-! The bencoding of a value, and what the decoder makes of it.

`encode` writes integers of any size and dictionaries in the order given. The
decoder reads it back wherever the value stands in the data, with dictionaries
in key order, if every integer in it fits `int64_t`; otherwise it throws.
-/

set_option autoImplicit false

namespace K0Torrent

def encodeInt (n : Int) : Bytes :=
  if n < 0 then Token.minus :: Decimal.encode n.natAbs else Decimal.encode n.natAbs

def encodeString (bytes : Bytes) : Bytes := Decimal.encode bytes.length ++ Token.colon :: bytes

mutual
def encode : BencodeValue → Bytes
  | .int n => Token.integer :: (encodeInt n ++ [Token.stop])
  | .string bytes => encodeString bytes
  | .list items => Token.list :: (encodeItems items ++ [Token.stop])
  | .dict entries => Token.dict :: (encodeEntries entries ++ [Token.stop])

def encodeItems : List BencodeValue → Bytes
  | [] => []
  | item :: rest => encode item ++ encodeItems rest

def encodeEntries : List (Bytes × BencodeValue) → Bytes
  | [] => []
  | (key, val) :: rest => encodeString key ++ (encode val ++ encodeEntries rest)
end

/- The value the decoder builds: every dictionary through `assign`. -/
mutual
def stored : BencodeValue → BencodeValue
  | .int n => .int n
  | .string bytes => .string bytes
  | .list items => .list (storedItems items)
  | .dict entries => .dict (storedEntries entries [])

def storedItems : List BencodeValue → List BencodeValue
  | [] => []
  | item :: rest => stored item :: storedItems rest

def storedEntries : List (Bytes × BencodeValue) → List (Bytes × BencodeValue) →
    List (Bytes × BencodeValue)
  | [], entries => entries
  | (key, val) :: rest, entries => storedEntries rest (assign key (stored val) entries)
end

mutual
def intsFit : BencodeValue → Bool
  | .int n => -2 ^ 63 ≤ n && n < 2 ^ 63
  | .string _ => true
  | .list items => intsFitItems items
  | .dict entries => intsFitEntries entries

def intsFitItems : List BencodeValue → Bool
  | [] => true
  | item :: rest => intsFit item && intsFitItems rest

def intsFitEntries : List (Bytes × BencodeValue) → Bool
  | [] => true
  | (_, val) :: rest => intsFit val && intsFitEntries rest
end

theorem encodeEntries_append (front back : List (Bytes × BencodeValue)) :
    encodeEntries (front ++ back) = encodeEntries front ++ encodeEntries back := by
  induction front with
  | nil => rfl
  | cons entry front ih =>
    obtain ⟨key, val⟩ := entry
    simp only [List.cons_append, encodeEntries, ih, List.append_assoc]

theorem intsFitEntries_append (front back : List (Bytes × BencodeValue)) :
    intsFitEntries (front ++ back) = (intsFitEntries front && intsFitEntries back) := by
  induction front with
  | nil => rfl
  | cons entry front ih =>
    obtain ⟨key, val⟩ := entry
    simp only [List.cons_append, intsFitEntries, ih, Bool.and_assoc]

/-! ## Dictionaries -/

theorem lookup_cons_other {wanted key : Bytes} (other : wanted ≠ key) (val : BencodeValue)
    (entries : List (Bytes × BencodeValue)) :
    ((key, val) :: entries).lookup wanted = entries.lookup wanted := by
  rw [List.lookup_cons, beq_eq_false_iff_ne.mpr other]

theorem lookup_assign (key : Bytes) (val : BencodeValue) (entries : List (Bytes × BencodeValue))
    (wanted : Bytes) :
    (assign key val entries).lookup wanted =
      if wanted = key then some val else entries.lookup wanted := by
  induction entries with
  | nil =>
    split
    · rename_i same
      simp [assign, same]
    · rename_i other
      exact lookup_cons_other other val []
  | cons entry entries ih =>
    obtain ⟨k, v⟩ := entry
    unfold assign
    by_cases same : wanted = key
    · -- The binding is replaced, put before the first greater key, or assigned further on.
      subst same
      rw [if_pos rfl]
      split
      · exact List.lookup_cons_self
      · split
        · exact List.lookup_cons_self
        · rename_i other _
          rw [lookup_cons_other other, ih, if_pos rfl]
    · rw [if_neg same]
      rw [if_neg same] at ih
      split
      · rename_i here
        subst here
        rw [lookup_cons_other same, lookup_cons_other same]
      · split
        · exact lookup_cons_other same _ _
        · rw [List.lookup_cons, List.lookup_cons, ih]

/-- With unique keys the decoder keeps exactly the bindings it reads. -/
theorem lookup_storedEntries (entries : List (Bytes × BencodeValue)) (wanted : Bytes)
    (unique : (entries.map Prod.fst).Nodup) : ∀ before : List (Bytes × BencodeValue),
    (storedEntries entries before).lookup wanted =
      match entries.lookup wanted with
      | some val => some (stored val)
      | none => before.lookup wanted := by
  induction entries with
  | nil => exact fun _ => rfl
  | cons entry entries ih =>
    intro before
    obtain ⟨key, val⟩ := entry
    obtain ⟨fresh, unique⟩ := List.nodup_cons.mp unique
    rw [storedEntries, ih unique]
    by_cases same : wanted = key
    · -- The key comes only once, so the rest does not assign it again.
      subst same
      have absent : entries.lookup wanted = none := by
        rw [List.lookup_eq_none_iff]
        intro p member
        rw [bne_iff_ne]
        intro same
        exact fresh (List.mem_map.mpr ⟨p, member, same.symm⟩)
      rw [absent, List.lookup_cons_self]
      simp only [lookup_assign, if_true]
    · rw [lookup_cons_other same]
      simp only [lookup_assign, if_neg same]

/-! ## Reading at a position -/

section
variable {data : Bytes} {pos : Nat} {front rest : Bytes}

theorem drop_behind (here : data.drop pos = front ++ rest) :
    data.drop (pos + front.length) = rest := by
  rw [← List.drop_drop, here, List.drop_left]

theorem getElem?_of_drop {c : UInt8} (here : data.drop pos = c :: rest) : data[pos]? = some c := by
  have first := congrArg (fun tail => tail[0]?) here
  simpa using first

theorem getElem?_of_head {c : UInt8} {tail : Bytes} (here : data.drop pos = front ++ rest)
    (head : front = c :: tail) : data[pos]? = some c := by
  subst head
  exact getElem?_of_drop here

theorem lt_length_of_drop {c : UInt8} (here : data.drop pos = c :: rest) : pos < data.length :=
  (List.getElem?_eq_some_iff.mp (getElem?_of_drop here)).1

theorem substr_of_drop (here : data.drop pos = front ++ rest) :
    substr data pos front.length = front := by
  rw [substr, here, List.take_left]

theorem scanTo_of_drop {until_ : UInt8} (here : data.drop pos = front ++ until_ :: rest)
    (clean : ∀ byte ∈ front, byte ≠ until_) : scanTo data until_ pos = pos + front.length := by
  have other : ∀ byte ∈ front, (byte != until_) = true := fun byte member =>
    bne_iff_ne.mpr (clean byte member)
  rw [scanTo, here, List.takeWhile_append_of_pos other]
  simp

end

theorem isDigit_ne {byte other : UInt8} (digit : Decimal.isDigit byte = true)
    (letter : Decimal.isDigit other = false) : byte ≠ other := by
  rintro rfl
  rw [digit] at letter
  cases letter

theorem encodeInt_clean (n : Int) : ∀ byte ∈ encodeInt n, byte ≠ Token.stop := by
  intro byte member
  unfold encodeInt at member
  split at member
  · rcases List.mem_cons.mp member with rfl | member
    · decide
    · exact isDigit_ne (Decimal.isDigit_of_mem_encode _ byte member) (by decide)
  · exact isDigit_ne (Decimal.isDigit_of_mem_encode _ byte member) (by decide)

theorem head?_decimal_ne_minus (n : Nat) : (Decimal.encode n).head? ≠ some Token.minus := by
  obtain ⟨byte, rest, same, digit⟩ := Decimal.encode_head n
  rw [same]
  exact fun first => isDigit_ne digit (by decide) (Option.some.inj first)

theorem afterSign_encodeInt (n : Int) : afterSign (encodeInt n) = Decimal.encode n.natAbs := by
  unfold afterSign encodeInt
  split
  · rfl
  · rw [if_neg (head?_decimal_ne_minus _)]

theorem signedValue_encodeInt (n : Int) : signedValue (encodeInt n) = n := by
  unfold signedValue encodeInt
  split
  · simp only [List.head?_cons, if_true, List.tail_cons, Decimal.value_encode]
    omega
  · rw [if_neg (head?_decimal_ne_minus _), Decimal.value_encode]
    omega

theorem stoll_encodeInt (n : Int) :
    stoll (encodeInt n) =
      if n < -2 ^ 63 ∨ 2 ^ 63 ≤ n then .error .integerOutOfRange else .ok n := by
  have digits : (Decimal.encode n.natAbs).isEmpty = false := by
    simp [Decimal.encode_ne_nil]
  simp only [stoll, afterSign_encodeInt, signedValue_encodeInt, digits, Bool.false_eq_true, if_false]

section
variable {data : Bytes} (size : data.length < 2 ^ 64)

theorem parseInteger_of_num {pos : Nat} {num rest : Bytes}
    (here : data.drop pos = Token.integer :: (num ++ Token.stop :: rest)) (some_ : num ≠ [])
    (clean : ∀ byte ∈ num, byte ≠ Token.stop)
    (digits : (afterSign num).all Decimal.isDigit = true) :
    (∀ value, stoll num = .ok value →
      parseInteger data pos = .value (.int value, pos + (num.length + 2))) ∧
    ∀ e, stoll num = .error e → parseInteger data pos = .thrown e := by
  have text : data.drop (pos + 1) = num ++ Token.stop :: rest :=
    drop_behind (show _ = [Token.integer] ++ _ from here)
  -- No byte of the number ends the scan early.
  have stop := scanTo_of_drop text clean
  have inside : ¬ (data.length ≤ pos + 1 + num.length) := by
    have bound := lt_length_of_drop (drop_behind text)
    omega
  have read : substr data (pos + 1) (pos + 1 + num.length - (pos + 1)) = num := by
    rw [Nat.add_sub_cancel_left]
    exact substr_of_drop text
  have nonempty : num.isEmpty = false := by simp [some_]
  have last : pos + 1 + num.length + 1 = pos + (num.length + 2) := by omega
  constructor
  · intro value converted
    simp only [parseInteger, stop, if_neg inside, read, nonempty, digits, last, converted,
      Bool.false_eq_true, Bool.true_eq_false, if_false]
  · intro e failed
    simp only [parseInteger, stop, if_neg inside, read, nonempty, digits, failed,
      Bool.false_eq_true, Bool.true_eq_false, if_false]

theorem parseInteger_encode {pos : Nat} {n : Int} {rest : Bytes}
    (here : data.drop pos = encode (.int n) ++ rest) :
    parseInteger data pos =
      if n < -2 ^ 63 ∨ 2 ^ 63 ≤ n then .thrown .integerOutOfRange
      else .value (.int n, pos + (encode (.int n)).length) := by
  have text : data.drop pos = Token.integer :: (encodeInt n ++ Token.stop :: rest) := by
    simpa [encode] using here
  have nonempty : encodeInt n ≠ [] := by
    unfold encodeInt
    split <;> simp [Decimal.encode_ne_nil]
  have digits : (afterSign (encodeInt n)).all Decimal.isDigit = true := by
    rw [afterSign_encodeInt, Decimal.encode_all_isDigit]
  have length : (encode (.int n)).length = (encodeInt n).length + 2 := by
    simp only [encode, List.length_cons, List.length_append, List.length_nil]
  obtain ⟨converted, failed⟩ := parseInteger_of_num text nonempty (encodeInt_clean n) digits
  have read := stoll_encodeInt n
  rw [length]
  split at read
  · rename_i large
    rw [failed _ read, if_pos large]
  · rename_i small
    rw [converted _ read, if_neg small]

include size in
theorem parseString_of_numeral {pos : Nat} {digits contents rest : Bytes}
    (here : data.drop pos = digits ++ Token.colon :: (contents ++ rest))
    (numeral : Decimal.Numeral digits) (length : Decimal.value digits = contents.length) :
    parseString data pos = .value (.string contents, pos + (digits.length + 1 + contents.length)) := by
  have colon := scanTo_of_drop here fun byte member =>
    isDigit_ne (numeral.all byte member) (by decide)
  have behind := drop_behind here
  have after_ : data.drop (pos + digits.length + 1) = contents ++ rest :=
    drop_behind (show _ = [Token.colon] ++ _ from behind)
  have inside := lt_length_of_drop behind
  have room : pos + digits.length + 1 + contents.length ≤ data.length := by
    have total := congrArg List.length after_
    simp only [List.length_drop, List.length_append] at total
    omega
  have num : substr data pos (pos + digits.length - pos) = digits := by
    rw [Nat.add_sub_cancel_left]
    exact substr_of_drop here
  have read : stoull digits = .ok contents.length := by
    rw [stoull_of_digits numeral.all, length, if_pos (by omega)]
  -- The string ends inside the data, so the sum in the bounds test does not wrap.
  have unwrapped := Nat.mod_eq_of_lt (Nat.lt_of_le_of_lt room size)
  have last : pos + digits.length + 1 + contents.length = pos + (digits.length + 1 + contents.length) := by
    omega
  simp only [parseString, colon, if_neg (not_le.mpr inside), num, read, unwrapped,
    if_neg (not_lt.mpr room), substr_of_drop after_]
  rw [last]

include size in
theorem parseString_encode {pos : Nat} {bytes rest : Bytes}
    (here : data.drop pos = encodeString bytes ++ rest) :
    parseString data pos = .value (.string bytes, pos + (encodeString bytes).length) := by
  have text : data.drop pos = Decimal.encode bytes.length ++ Token.colon :: (bytes ++ rest) := by
    simpa [encodeString] using here
  have length : (encodeString bytes).length =
      (Decimal.encode bytes.length).length + 1 + bytes.length := by
    simp only [encodeString, List.length_append, List.length_cons]
    omega
  rw [parseString_of_numeral size text (Decimal.numeral_encode _) (Decimal.value_encode _), length]

end

/-- Reading back bytes whose integers fit as `fits` says ends in `whole` at
`last`, or else in an exception. -/
def ReadsBack (fits : Bool) (read : Nat → Outcome DecodeError (BencodeValue × Nat))
    (whole : BencodeValue) (last : Nat) : Prop :=
  match fits with
  | true => ∃ fuel, read fuel = .value (whole, last)
  | false => ∃ fuel e, read fuel = .thrown e

theorem parse_integer {data : Bytes} {fuel pos : Nat} (found : data[pos]? = some Token.integer) :
    parse data (fuel + 1) pos = parseInteger data pos := by
  rw [parse]
  simp only [found, if_true]

theorem parse_digit {data : Bytes} {fuel pos : Nat} {c : UInt8} (found : data[pos]? = some c)
    (digit : Decimal.isDigit c = true) : parse data (fuel + 1) pos = parseString data pos := by
  rw [parse]
  simp only [found, if_pos digit,
    if_neg (isDigit_ne digit (show Decimal.isDigit Token.integer = false by decide))]

theorem parse_list {data : Bytes} {fuel pos : Nat} (found : data[pos]? = some Token.list) :
    parse data (fuel + 1) pos = parseList data fuel (pos + 1) [] := by
  rw [parse]
  simp only [found, if_neg (show Token.list ≠ Token.integer by decide),
    show Decimal.isDigit Token.list = false by decide, Bool.false_eq_true, if_false, if_true]

theorem parse_dict {data : Bytes} {fuel pos : Nat} (found : data[pos]? = some Token.dict) :
    parse data (fuel + 1) pos = parseDict data fuel (pos + 1) [] := by
  rw [parse]
  simp only [found, if_neg (show Token.dict ≠ Token.integer by decide),
    show Decimal.isDigit Token.dict = false by decide, Bool.false_eq_true, if_false, if_true,
    if_neg (show Token.dict ≠ Token.list by decide)]

theorem encodeString_head (bytes : Bytes) :
    ∃ c rest, encodeString bytes = c :: rest ∧ Decimal.isDigit c = true := by
  obtain ⟨c, rest, same, digit⟩ := Decimal.encode_head bytes.length
  exact ⟨c, rest ++ Token.colon :: bytes, by rw [encodeString, same]; rfl, digit⟩

theorem ReadsBack.later {fits : Bool} {read read' : Nat → Outcome DecodeError (BencodeValue × Nat)}
    {whole : BencodeValue} {last : Nat} (reads : ReadsBack fits read whole last)
    (step : ∀ fuel, read' (fuel + 1) = read fuel) : ReadsBack fits read' whole last := by
  cases fits with
  | true =>
    obtain ⟨fuel, same⟩ := reads
    exact ⟨fuel + 1, (step fuel).trans same⟩
  | false =>
    obtain ⟨fuel, e, same⟩ := reads
    exact ⟨fuel + 1, e, (step fuel).trans same⟩

/-- No encoding starts with the byte that ends a list or a dictionary. -/
theorem encode_head (v : BencodeValue) : ∃ c rest, encode v = c :: rest ∧ c ≠ Token.stop := by
  cases v with
  | int n => exact ⟨_, _, by rw [encode], by decide⟩
  | string bytes =>
    obtain ⟨c, rest, same, digit⟩ := encodeString_head bytes
    exact ⟨c, rest, by rw [encode, same], isDigit_ne digit (by decide)⟩
  | list items => exact ⟨_, _, by rw [encode], by decide⟩
  | dict entries => exact ⟨_, _, by rw [encode], by decide⟩

theorem parse_string_encode {data : Bytes} (size : data.length < 2 ^ 64) {pos : Nat}
    {bytes rest : Bytes} (here : data.drop pos = encodeString bytes ++ rest) (fuel : Nat) :
    parse data (fuel + 1) pos = .value (.string bytes, pos + (encodeString bytes).length) := by
  obtain ⟨c, tail, same, digit⟩ := encodeString_head bytes
  exact (parse_digit (getElem?_of_head here same) digit).trans (parseString_encode size here)

mutual
theorem parse_encode {data : Bytes} (size : data.length < 2 ^ 64) :
    ∀ (v : BencodeValue) (pos : Nat) (rest : Bytes),
    data.drop pos = encode v ++ rest →
    ReadsBack (intsFit v) (fun fuel => parse data fuel pos) (stored v) (pos + (encode v).length)
  | .int n, pos, rest, here => by
    have found : data[pos]? = some Token.integer := getElem?_of_drop here
    have read : parse data 1 pos = parseInteger data pos := parse_integer found
    rw [parseInteger_encode here] at read
    cases fits : intsFit (.int n) with
    | true =>
      simp only [intsFit, Bool.and_eq_true, decide_eq_true_eq] at fits
      rw [if_neg (by omega)] at read
      exact ⟨1, read⟩
    | false =>
      simp only [intsFit, Bool.and_eq_false_iff, decide_eq_false_iff_not] at fits
      rw [if_pos (by omega)] at read
      exact ⟨1, _, read⟩
  | .string bytes, pos, rest, here => ⟨1, parse_string_encode size here 0⟩
  | .list items, pos, rest, here => by
    have found : data[pos]? = some Token.list := getElem?_of_drop here
    have contents : data.drop (pos + 1) = encodeItems items ++ Token.stop :: rest := by
      have opened : data.drop pos = [Token.list] ++ (encodeItems items ++ Token.stop :: rest) := by
        simpa [encode] using here
      exact drop_behind opened
    have loop := parseList_encode size items (pos + 1) rest [] contents
    have length : pos + 1 + (encodeItems items).length + 1 = pos + (encode (.list items)).length := by
      simp only [encode, List.length_cons, List.length_append, List.length_nil]
      omega
    rw [length] at loop
    rw [intsFit, stored]
    exact loop.later fun fuel => parse_list found
  | .dict entries, pos, rest, here => by
    have found : data[pos]? = some Token.dict := getElem?_of_drop here
    have contents : data.drop (pos + 1) = encodeEntries entries ++ Token.stop :: rest := by
      have opened : data.drop pos = [Token.dict] ++ (encodeEntries entries ++ Token.stop :: rest) := by
        simpa [encode] using here
      exact drop_behind opened
    have loop := parseDict_encode size entries (pos + 1) rest [] contents
    have length : pos + 1 + (encodeEntries entries).length + 1 =
        pos + (encode (.dict entries)).length := by
      simp only [encode, List.length_cons, List.length_append, List.length_nil]
      omega
    rw [length] at loop
    rw [intsFit, stored]
    exact loop.later fun fuel => parse_dict found

theorem parseList_encode {data : Bytes} (size : data.length < 2 ^ 64) :
    ∀ (items : List BencodeValue) (pos : Nat) (rest : Bytes)
    (before : List BencodeValue), data.drop pos = encodeItems items ++ Token.stop :: rest →
    ReadsBack (intsFitItems items) (fun fuel => parseList data fuel pos before)
      (.list (before ++ storedItems items)) (pos + (encodeItems items).length + 1)
  | [], pos, rest, before, here => by
    have found : data[pos]? = some Token.stop := getElem?_of_drop here
    refine ⟨1, ?_⟩
    simp only [parseList, found, if_true, storedItems, List.append_nil]
    rfl
  | item :: items, pos, rest, before, here => by
    have first : data.drop pos = encode item ++ (encodeItems items ++ Token.stop :: rest) := by
      simpa [encodeItems] using here
    obtain ⟨c, tail, same, more⟩ := encode_head item
    have found := getElem?_of_head first same
    have read := parse_encode size item pos _ first
    have loop := parseList_encode size items (pos + (encode item).length) rest (before ++ [stored item])
      (drop_behind first)
    simp only [intsFitItems]
    cases fits : intsFit item with
    | false =>
      rw [fits] at read
      obtain ⟨fuel, e, failed⟩ := read
      exact ⟨fuel + 1, e, parseList_thrown found more failed⟩
    | true =>
      rw [fits] at read
      obtain ⟨first, parsed⟩ := read
      cases others : intsFitItems items with
      | true =>
        -- One bound serves the item and the loop that follows it.
        rw [others] at loop
        obtain ⟨second, looped⟩ := loop
        refine ⟨max first second + 1, ?_⟩
        have round := parseList_next found more parsed (Outcome.finished_of_value looped)
        refine round.trans (looped.trans ?_)
        simp only [storedItems, encodeItems, List.length_append, List.append_assoc,
          List.singleton_append, Nat.add_assoc]
      | false =>
        rw [others] at loop
        obtain ⟨second, e, looped⟩ := loop
        refine ⟨max first second + 1, e, ?_⟩
        have round := parseList_next found more parsed (Outcome.finished_of_thrown looped)
        exact round.trans looped

theorem parseDict_encode {data : Bytes} (size : data.length < 2 ^ 64) :
    ∀ (entries : List (Bytes × BencodeValue)) (pos : Nat) (rest : Bytes)
    (before : List (Bytes × BencodeValue)),
    data.drop pos = encodeEntries entries ++ Token.stop :: rest →
    ReadsBack (intsFitEntries entries) (fun fuel => parseDict data fuel pos before)
      (.dict (storedEntries entries before)) (pos + (encodeEntries entries).length + 1)
  | [], pos, rest, before, here => by
    have found : data[pos]? = some Token.stop := getElem?_of_drop here
    refine ⟨1, ?_⟩
    simp only [parseDict, found, if_true, storedEntries]
    rfl
  | (key, val) :: entries, pos, rest, before, here => by
    have first : data.drop pos =
        encodeString key ++ (encode val ++ (encodeEntries entries ++ Token.stop :: rest)) := by
      simpa [encodeEntries] using here
    obtain ⟨c, tail, same, digit⟩ := encodeString_head key
    have more : c ≠ Token.stop := isDigit_ne digit (by decide)
    have found := getElem?_of_head first same
    have keyParsed := parse_string_encode size first 0
    have second := drop_behind first
    have read := parse_encode size val (pos + (encodeString key).length) _ second
    have loop := parseDict_encode size entries (pos + (encodeString key).length + (encode val).length)
      rest (assign key (stored val) before) (drop_behind second)
    simp only [intsFitEntries]
    cases fits : intsFit val with
    | false =>
      rw [fits] at read
      obtain ⟨fuel, e, failed⟩ := read
      exact ⟨max 1 fuel + 1, e, parseDict_val_thrown found more keyParsed failed⟩
    | true =>
      rw [fits] at read
      obtain ⟨fuel, valParsed⟩ := read
      cases others : intsFitEntries entries with
      | true =>
        rw [others] at loop
        obtain ⟨third, looped⟩ := loop
        refine ⟨max 1 (max fuel third) + 1, ?_⟩
        have round :=
          parseDict_next found more keyParsed valParsed (Outcome.finished_of_value looped)
        refine round.trans (looped.trans ?_)
        simp only [storedEntries, encodeEntries, List.length_append, Nat.add_assoc]
      | false =>
        rw [others] at loop
        obtain ⟨third, e, looped⟩ := loop
        refine ⟨max 1 (max fuel third) + 1, e, ?_⟩
        have round :=
          parseDict_next found more keyParsed valParsed (Outcome.finished_of_thrown looped)
        exact round.trans looped
end

end K0Torrent
