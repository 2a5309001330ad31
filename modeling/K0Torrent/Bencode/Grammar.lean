import K0Torrent.Bencode.Encode
import K0Torrent.Bencode.Progress

/-! The bencode grammar, and which of it the decoder accepts.

Whatever the grammar derives is decoded, wherever it stands. The converse fails
at string tokens only: the text of the length is read up to the first byte that
is no digit, and the bounds test adds the length modulo `2 ^ 64`.
-/

set_option autoImplicit false

namespace K0Torrent

/-! ## Dictionaries -/

/-- The keys of a `std::map`. -/
def Ascending (entries : List (Bytes × BencodeValue)) : Prop :=
  entries.Pairwise fun first second => first.1 < second.1

/-- The entries are the bindings in key order, of each key the last one. -/
structure LastBindings (bindings entries : List (Bytes × BencodeValue)) : Prop where
  ascending : Ascending entries
  lookup : ∀ key, entries.lookup key = bindings.reverse.lookup key

theorem key_of_mem_assign {key : Bytes} {val : BencodeValue} {entry : Bytes × BencodeValue}
    {entries : List (Bytes × BencodeValue)} (member : entry ∈ assign key val entries) :
    entry.1 = key ∨ entry ∈ entries := by
  induction entries with
  | nil =>
    rw [assign, List.mem_singleton] at member
    exact .inl (congrArg Prod.fst member)
  | cons first rest ih =>
    obtain ⟨k, v⟩ := first
    unfold assign at member
    split at member
    · rcases List.mem_cons.mp member with rfl | later
      · exact .inl rfl
      · exact .inr (List.mem_cons_of_mem _ later)
    · split at member
      · rcases List.mem_cons.mp member with rfl | later
        · exact .inl rfl
        · exact .inr later
      · rcases List.mem_cons.mp member with rfl | later
        · exact .inr (List.mem_cons_self ..)
        · exact (ih later).imp_right (List.mem_cons_of_mem _)

theorem Ascending.assign {entries : List (Bytes × BencodeValue)} (ascending : Ascending entries)
    (key : Bytes) (val : BencodeValue) : Ascending (assign key val entries) := by
  induction entries with
  | nil => exact List.pairwise_singleton ..
  | cons first rest ih =>
    obtain ⟨k, v⟩ := first
    obtain ⟨below, ascendingRest⟩ := List.pairwise_cons.mp ascending
    unfold K0Torrent.assign
    split
    · rename_i same
      subst same
      exact List.pairwise_cons.mpr ⟨below, ascendingRest⟩
    · rename_i other
      split
      · rename_i before
        refine List.pairwise_cons.mpr ⟨fun entry member => ?_, ascending⟩
        rcases List.mem_cons.mp member with rfl | later
        · exact before
        · exact List.lt_trans before (below entry later)
      · rename_i behind
        refine List.pairwise_cons.mpr ⟨fun entry member => ?_, ih ascendingRest⟩
        rcases key_of_mem_assign member with same | later
        · rw [same]
          by_contra notBelow
          exact other (List.le_antisymm notBelow behind)
        · exact below entry later

/-- What `dict[key] = val` makes of the bindings, one after the other. -/
def assignAll (bindings entries : List (Bytes × BencodeValue)) : List (Bytes × BencodeValue) :=
  bindings.foldl (fun entries binding => assign binding.1 binding.2 entries) entries

theorem Ascending.assignAll {entries : List (Bytes × BencodeValue)} (ascending : Ascending entries)
    (bindings : List (Bytes × BencodeValue)) : Ascending (assignAll bindings entries) := by
  induction bindings generalizing entries with
  | nil => exact ascending
  | cons binding bindings ih => exact ih (ascending.assign binding.1 binding.2)

theorem lookup_assignAll (bindings entries : List (Bytes × BencodeValue)) (wanted : Bytes) :
    (assignAll bindings entries).lookup wanted =
      (bindings.reverse.lookup wanted).or (entries.lookup wanted) := by
  induction bindings generalizing entries with
  | nil => rfl
  | cons binding bindings ih =>
    obtain ⟨key, val⟩ := binding
    have later := ih (assign key val entries)
    rw [lookup_assign] at later
    rw [List.reverse_cons, List.lookup_append, Option.or_assoc]
    refine later.trans (congrArg _ ?_)
    split
    · rename_i same
      rw [same, List.lookup_cons_self, Option.some_or]
    · rename_i other
      rw [lookup_cons_other other, List.lookup_nil, Option.none_or]

theorem lastBindings_assignAll (bindings : List (Bytes × BencodeValue)) :
    LastBindings bindings (assignAll bindings []) where
  ascending := Ascending.assignAll List.Pairwise.nil bindings
  lookup key := by rw [lookup_assignAll, List.lookup_nil, Option.or_none]

theorem lookup_eq_none_of_lt {wanted : Bytes} {entries : List (Bytes × BencodeValue)}
    (above : ∀ entry ∈ entries, wanted < entry.1) : entries.lookup wanted = none := by
  rw [List.lookup_eq_none_iff]
  intro entry member
  rw [bne_iff_ne]
  rintro rfl
  exact List.lt_irrefl _ (above entry member)

/-- Entries in key order are determined by their lookups. -/
theorem Ascending.eq_of_lookup {entries : List (Bytes × BencodeValue)} (ascending : Ascending entries) :
    ∀ {others : List (Bytes × BencodeValue)}, Ascending others →
      (∀ key, entries.lookup key = others.lookup key) → entries = others := by
  induction entries with
  | nil =>
    intro others _ same
    cases others with
    | nil => rfl
    | cons other others =>
      have here := same other.1
      rw [List.lookup_cons_self] at here
      cases here
  | cons entry entries ih =>
    intro others ascending' same
    obtain ⟨key, val⟩ := entry
    obtain ⟨above, later⟩ := List.pairwise_cons.mp ascending
    cases others with
    | nil =>
      have here := same key
      rw [List.lookup_cons_self] at here
      cases here
    | cons other others =>
      obtain ⟨key', val'⟩ := other
      obtain ⟨above', later'⟩ := List.pairwise_cons.mp ascending'
      -- The smaller of two different first keys would have no binding on the other side.
      have first : key = key' := by
        refine List.le_antisymm (fun before => ?_) (fun before => ?_)
        · have here := same key'
          rw [List.lookup_cons_self, lookup_eq_none_of_lt] at here
          · cases here
          · refine List.forall_mem_cons.mpr ⟨before, fun entry member => ?_⟩
            exact List.lt_trans before (above entry member)
        · have here := same key
          rw [List.lookup_cons_self, lookup_eq_none_of_lt] at here
          · cases here
          · refine List.forall_mem_cons.mpr ⟨before, fun entry member => ?_⟩
            exact List.lt_trans before (above' entry member)
      subst first
      have value := same key
      rw [List.lookup_cons_self, List.lookup_cons_self, Option.some.injEq] at value
      subst value
      refine congrArg _ (ih later later' fun wanted => ?_)
      by_cases here : wanted = key
      · subst here
        rw [lookup_eq_none_of_lt above, lookup_eq_none_of_lt above']
      · rw [← lookup_cons_other here val entries, ← lookup_cons_other here val others]
        exact same wanted

theorem LastBindings.eq {bindings entries : List (Bytes × BencodeValue)}
    (last : LastBindings bindings entries) : entries = assignAll bindings [] :=
  have assigned := lastBindings_assignAll bindings
  last.ascending.eq_of_lookup assigned.ascending fun key =>
    (last.lookup key).trans (assigned.lookup key).symm

/-! ## The grammar -/

/- Leading zeros, the integer `-0` and keys in any order are allowed. -/
mutual
inductive Derives : Bytes → BencodeValue → Prop where
  | int {digits : Bytes} (numeral : Decimal.Numeral digits) (fits : Decimal.value digits < 2 ^ 63) :
      Derives (Token.integer :: (digits ++ [Token.stop])) (.int (Decimal.value digits))
  | negative {digits : Bytes} (numeral : Decimal.Numeral digits)
      (fits : Decimal.value digits ≤ 2 ^ 63) :
      Derives (Token.integer :: (Token.minus :: digits ++ [Token.stop]))
        (.int (-Decimal.value digits))
  | string {digits contents : Bytes} (numeral : Decimal.Numeral digits)
      (length : Decimal.value digits = contents.length) :
      Derives (digits ++ Token.colon :: contents) (.string contents)
  | list {bytes : Bytes} {items : List BencodeValue} (derives : DerivesItems bytes items) :
      Derives (Token.list :: (bytes ++ [Token.stop])) (.list items)
  | dict {bytes : Bytes} {bindings entries : List (Bytes × BencodeValue)}
      (derives : DerivesBindings bytes bindings) (last : LastBindings bindings entries) :
      Derives (Token.dict :: (bytes ++ [Token.stop])) (.dict entries)

inductive DerivesItems : Bytes → List BencodeValue → Prop where
  | nil : DerivesItems [] []
  | cons {bytes rest : Bytes} {item : BencodeValue} {items : List BencodeValue}
      (first : Derives bytes item) (later : DerivesItems rest items) :
      DerivesItems (bytes ++ rest) (item :: items)

inductive DerivesBindings : Bytes → List (Bytes × BencodeValue) → Prop where
  | nil : DerivesBindings [] []
  | cons {keyBytes bytes rest key : Bytes} {val : BencodeValue}
      {bindings : List (Bytes × BencodeValue)} (name : Derives keyBytes (.string key))
      (first : Derives bytes val) (later : DerivesBindings rest bindings) :
      DerivesBindings (keyBytes ++ (bytes ++ rest)) ((key, val) :: bindings)
end

theorem DerivesItems.snoc {last : Bytes} {item : BencodeValue} (derives : Derives last item) :
    ∀ {bytes : Bytes} {items : List BencodeValue}, DerivesItems bytes items →
      DerivesItems (bytes ++ last) (items ++ [item])
  | _, _, .nil => by
    have single := DerivesItems.cons derives .nil
    rwa [List.append_nil] at single
  | _, _, .cons first later => by
    rw [List.append_assoc]
    exact .cons first (later.snoc derives)

theorem DerivesBindings.snoc {keyBytes last key : Bytes} {val : BencodeValue}
    (name : Derives keyBytes (.string key)) (derives : Derives last val) :
    ∀ {bytes : Bytes} {bindings : List (Bytes × BencodeValue)}, DerivesBindings bytes bindings →
      DerivesBindings (bytes ++ (keyBytes ++ last)) (bindings ++ [(key, val)])
  | _, _, .nil => by
    have single := DerivesBindings.cons name derives .nil
    rwa [List.append_nil] at single
  | _, _, .cons name' first later => by
    rw [List.append_assoc, List.append_assoc]
    exact .cons name' first (later.snoc name derives)

/-- No derivation starts with the byte that ends a list or a dictionary. -/
theorem Derives.head {bytes : Bytes} {v : BencodeValue} (derives : Derives bytes v) :
    ∃ c rest, bytes = c :: rest ∧ c ≠ Token.stop := by
  cases derives with
  | int => exact ⟨_, _, rfl, by decide⟩
  | negative => exact ⟨_, _, rfl, by decide⟩
  | string numeral =>
    obtain ⟨c, rest, rfl, digit⟩ := numeral.head
    exact ⟨c, _, rfl, isDigit_ne digit (by decide)⟩
  | list => exact ⟨_, _, rfl, by decide⟩
  | dict => exact ⟨_, _, rfl, by decide⟩

/-! ## What is derived is decoded -/

theorem stoll_numeral {digits : Bytes} (numeral : Decimal.Numeral digits)
    (fits : Decimal.value digits < 2 ^ 63) : stoll digits = .ok (Decimal.value digits) := by
  obtain ⟨c, rest, rfl, digit⟩ := numeral.head
  have unsigned : (c :: rest).head? ≠ some Token.minus := fun same =>
    isDigit_ne digit (by decide) (Option.some.inj same)
  have small : ¬ ((Decimal.value (c :: rest) : Int) < -2 ^ 63 ∨
      2 ^ 63 ≤ (Decimal.value (c :: rest) : Int)) := by omega
  simp only [stoll, afterSign, signedValue, if_neg unsigned, if_neg small, List.isEmpty_cons,
    Bool.false_eq_true, if_false]

theorem stoll_negative {digits : Bytes} (numeral : Decimal.Numeral digits)
    (fits : Decimal.value digits ≤ 2 ^ 63) :
    stoll (Token.minus :: digits) = .ok (-Decimal.value digits) := by
  have some_ : digits.isEmpty = false := by simp [numeral.some_]
  have small : ¬ (-(Decimal.value digits : Int) < -2 ^ 63 ∨
      2 ^ 63 ≤ -(Decimal.value digits : Int)) := by omega
  simp only [stoll, afterSign, signedValue, List.head?_cons, List.tail_cons, some_, if_neg small,
    Bool.false_eq_true, if_false, if_true]

section
variable {data : Bytes} {pos : Nat} {rest : Bytes}

theorem returns_int {digits : Bytes} (numeral : Decimal.Numeral digits)
    (fits : Decimal.value digits < 2 ^ 63)
    (here : data.drop pos = Token.integer :: (digits ++ Token.stop :: rest)) :
    Returns data pos (.int (Decimal.value digits)) (pos + (digits.length + 2)) := by
  have unsigned : afterSign digits = digits := by
    obtain ⟨c, tail, rfl, digit⟩ := numeral.head
    exact if_neg fun same => isDigit_ne digit (by decide) (Option.some.inj same)
  have read := parseInteger_of_num here numeral.some_
    (fun byte member => isDigit_ne (numeral.all byte member) (by decide))
    (by rw [unsigned, List.all_eq_true]; exact numeral.all)
  exact ⟨1, (parse_integer (getElem?_of_drop here)).trans (read.1 _ (stoll_numeral numeral fits))⟩

theorem returns_negative {digits : Bytes} (numeral : Decimal.Numeral digits)
    (fits : Decimal.value digits ≤ 2 ^ 63)
    (here : data.drop pos = Token.integer :: (Token.minus :: digits ++ Token.stop :: rest)) :
    Returns data pos (.int (-Decimal.value digits)) (pos + (digits.length + 3)) := by
  have read := parseInteger_of_num here (List.cons_ne_nil _ _)
    (List.forall_mem_cons.mpr
      ⟨by decide, fun byte member => isDigit_ne (numeral.all byte member) (by decide)⟩)
    (List.all_eq_true.mpr numeral.all)
  exact ⟨1, (parse_integer (getElem?_of_drop here)).trans (read.1 _ (stoll_negative numeral fits))⟩

theorem returns_string (size : data.length < 2 ^ 64) {digits contents : Bytes}
    (numeral : Decimal.Numeral digits) (length : Decimal.value digits = contents.length)
    (here : data.drop pos = digits ++ Token.colon :: (contents ++ rest)) :
    Returns data pos (.string contents) (pos + (digits.length + 1 + contents.length)) := by
  obtain ⟨c, tail, same, digit⟩ := numeral.head
  exact ⟨1, (parse_digit (getElem?_of_head here same) digit).trans
    (parseString_of_numeral size here numeral length)⟩

end

mutual
theorem Derives.returns {data : Bytes} (size : data.length < 2 ^ 64) :
    ∀ {bytes : Bytes} {v : BencodeValue}, Derives bytes v → ∀ {pos : Nat} {rest : Bytes},
    data.drop pos = bytes ++ rest → Returns data pos v (pos + bytes.length)
  | _, _, @Derives.int digits numeral fits, pos, rest, here => by
    have text : data.drop pos = Token.integer :: (digits ++ Token.stop :: rest) := by
      simpa using here
    simpa [Nat.add_assoc] using returns_int numeral fits text
  | _, _, @Derives.negative digits numeral fits, pos, rest, here => by
    have text : data.drop pos = Token.integer :: (Token.minus :: digits ++ Token.stop :: rest) := by
      simpa using here
    simpa [Nat.add_assoc] using returns_negative numeral fits text
  | _, _, @Derives.string digits contents numeral length, pos, rest, here => by
    have text : data.drop pos = digits ++ Token.colon :: (contents ++ rest) := by
      simpa using here
    have returned := returns_string size numeral length text
    rw [List.length_append, List.length_cons]
    rwa [Nat.add_assoc digits.length, Nat.add_comm 1] at returned
  | _, _, @Derives.list bytes items derives, pos, rest, here => by
    have text : data.drop pos = Token.list :: (bytes ++ Token.stop :: rest) := by
      simpa using here
    have inside : data.drop (pos + 1) = bytes ++ Token.stop :: rest :=
      drop_behind (show _ = [Token.list] ++ _ from text)
    obtain ⟨fuel, looped⟩ := derives.loops size [] inside
    refine ⟨fuel + 1, ((parse_list (getElem?_of_drop text)).trans looped).trans ?_⟩
    simp only [List.nil_append, List.length_cons, List.length_append, List.length_nil]
    rw [show pos + 1 + bytes.length + 1 = pos + (bytes.length + (0 + 1) + 1) by omega]
  | _, _, @Derives.dict bytes bindings entries derives last, pos, rest, here => by
    have text : data.drop pos = Token.dict :: (bytes ++ Token.stop :: rest) := by
      simpa using here
    have inside : data.drop (pos + 1) = bytes ++ Token.stop :: rest :=
      drop_behind (show _ = [Token.dict] ++ _ from text)
    obtain ⟨fuel, looped⟩ := derives.loops size [] inside
    refine ⟨fuel + 1, ((parse_dict (getElem?_of_drop text)).trans looped).trans ?_⟩
    rw [← last.eq]
    simp only [List.length_cons, List.length_append, List.length_nil]
    rw [show pos + 1 + bytes.length + 1 = pos + (bytes.length + (0 + 1) + 1) by omega]

theorem DerivesItems.loops {data : Bytes} (size : data.length < 2 ^ 64) :
    ∀ {bytes : Bytes} {items : List BencodeValue}, DerivesItems bytes items →
    ∀ {pos : Nat} {rest : Bytes} (before : List BencodeValue),
    data.drop pos = bytes ++ Token.stop :: rest →
    ∃ fuel, parseList data fuel pos before =
      .value (.list (before ++ items), pos + bytes.length + 1)
  | _, _, .nil, pos, rest, before, here => by
    have found : data[pos]? = some Token.stop := getElem?_of_drop here
    refine ⟨1, ?_⟩
    simp only [parseList, found, if_true, List.append_nil]
    rfl
  | _, _, @DerivesItems.cons bytes more item items first later, pos, rest, before, here => by
    have text : data.drop pos = bytes ++ (more ++ Token.stop :: rest) := by
      simpa using here
    obtain ⟨c, tail, same, other⟩ := first.head
    obtain ⟨one, parsed⟩ := first.returns size text
    obtain ⟨two, looped⟩ := later.loops size (before ++ [item]) (drop_behind text)
    have round := parseList_next (getElem?_of_head text same) other parsed
      (Outcome.finished_of_value looped)
    refine ⟨max one two + 1, (round.trans looped).trans ?_⟩
    simp only [List.length_append, List.append_assoc, List.singleton_append, Nat.add_assoc]

theorem DerivesBindings.loops {data : Bytes} (size : data.length < 2 ^ 64) :
    ∀ {bytes : Bytes} {bindings : List (Bytes × BencodeValue)}, DerivesBindings bytes bindings →
    ∀ {pos : Nat} {rest : Bytes} (before : List (Bytes × BencodeValue)),
    data.drop pos = bytes ++ Token.stop :: rest →
    ∃ fuel, parseDict data fuel pos before =
      .value (.dict (assignAll bindings before), pos + bytes.length + 1)
  | _, _, .nil, pos, rest, before, here => by
    have found : data[pos]? = some Token.stop := getElem?_of_drop here
    refine ⟨1, ?_⟩
    simp only [parseDict, found, if_true, assignAll, List.foldl_nil]
    rfl
  | _, _, @DerivesBindings.cons keyBytes bytes more key val bindings name first later, pos, rest,
      before, here => by
    have text : data.drop pos = keyBytes ++ (bytes ++ (more ++ Token.stop :: rest)) := by
      simpa using here
    obtain ⟨c, tail, same, other⟩ := name.head
    obtain ⟨one, keyParsed⟩ := name.returns size text
    obtain ⟨two, valParsed⟩ := first.returns size (drop_behind text)
    obtain ⟨three, looped⟩ := later.loops size (assign key val before)
      (drop_behind (drop_behind text))
    have round := parseDict_next (getElem?_of_head text same) other keyParsed valParsed
      (Outcome.finished_of_value looped)
    refine ⟨max one (max two three) + 1, (round.trans looped).trans ?_⟩
    simp only [assignAll, List.foldl_cons, List.length_append, Nat.add_assoc]
end

theorem Returns.unique {data : Bytes} {pos next next' : Nat} {v v' : BencodeValue}
    (returns : Returns data pos v next) (returns' : Returns data pos v' next') :
    v = v' ∧ next = next' := by
  obtain ⟨fuel, returned⟩ := returns
  have same := returned.symm.trans (returns'.eq (Outcome.finished_of_value returned))
  cases same
  exact ⟨rfl, rfl⟩

/-- At most one beginning of some bytes is derived. -/
theorem Derives.unique {bytes bytes' rest rest' : Bytes} {v v' : BencodeValue}
    (derives : Derives bytes v) (derives' : Derives bytes' v')
    (same : bytes ++ rest = bytes' ++ rest') (size : (bytes ++ rest).length < 2 ^ 64) :
    bytes = bytes' ∧ v = v' ∧ rest = rest' := by
  have returns := derives.returns size
    (show List.drop 0 (bytes ++ rest) = bytes ++ rest from rfl)
  have returns' := derives'.returns size
    (show List.drop 0 (bytes ++ rest) = bytes' ++ rest' from same)
  obtain ⟨value, length⟩ := returns.unique returns'
  obtain ⟨rfl, rfl⟩ := List.append_inj same (by omega)
  exact ⟨rfl, value, rfl⟩

/-! ## What is decoded is derived -/

/-- The bytes between the two positions derive the value. -/
structure DerivesAt (data : Bytes) (pos : Nat) (v : BencodeValue) (next : Nat) : Prop where
  forward : pos < next
  inside : next ≤ data.length
  derives : Derives (substr data pos (next - pos)) v

theorem derivesAt_iff {data : Bytes} {pos next : Nat} {v : BencodeValue} :
    DerivesAt data pos v next ↔ ∃ bytes rest, data.drop pos = bytes ++ rest ∧ Derives bytes v ∧
      next = pos + bytes.length := by
  constructor
  · rintro ⟨forward, inside, derives⟩
    refine ⟨_, (data.drop pos).drop (next - pos), (List.take_append_drop ..).symm, derives, ?_⟩
    rw [List.length_take, List.length_drop]
    omega
  · rintro ⟨bytes, rest, here, derives, rfl⟩
    obtain ⟨c, tail, same, -⟩ := derives.head
    have bound := lt_length_of_drop (show data.drop pos = c :: (tail ++ rest) by rw [here, same]; rfl)
    have total := congrArg List.length here
    have some_ : 0 < bytes.length := by rw [same]; exact Nat.succ_pos _
    rw [List.length_drop, List.length_append] at total
    refine ⟨by omega, by omega, ?_⟩
    rw [Nat.add_sub_cancel_left, substr_of_drop here]
    exact derives

theorem drop_scanTo {data : Bytes} {until_ : UInt8} {pos : Nat}
    (inside : scanTo data until_ pos < data.length) :
    ∃ rest, data.drop pos = substr data pos (scanTo data until_ pos - pos) ++ until_ :: rest := by
  have whole := @List.takeWhile_append_dropWhile _ (· != until_) (data.drop pos)
  unfold scanTo at inside ⊢
  cases left : (data.drop pos).dropWhile (· != until_) with
  | nil =>
    rw [left, List.append_nil] at whole
    rw [whole, List.length_drop] at inside
    omega
  | cons c rest =>
    have stops := List.head_dropWhile_not (· != until_) (left ▸ List.cons_ne_nil c rest)
    simp only [left, List.head_cons, bne_eq_false_iff_eq] at stops
    rw [left, stops] at whole
    rw [Nat.add_sub_cancel_left, substr_of_drop whole.symm]
    exact ⟨rest, whole.symm⟩

theorem derives_of_stoll {num : Bytes} {value : Int}
    (digits : ∀ byte ∈ afterSign num, Decimal.isDigit byte = true)
    (converted : stoll num = .ok value) :
    Derives (Token.integer :: (num ++ [Token.stop])) (.int value) := by
  unfold stoll at converted
  dsimp only at converted
  split at converted
  · cases converted
  rename_i some_
  split at converted
  · cases converted
  rename_i fits
  cases converted
  unfold afterSign at digits some_
  unfold signedValue at fits ⊢
  by_cases minus : num.head? = some Token.minus
  · obtain ⟨tail, rfl⟩ : ∃ tail, num = Token.minus :: tail := by
      cases num with
      | nil => cases minus
      | cons c tail =>
        cases minus
        exact ⟨tail, rfl⟩
    simp only [List.head?_cons, if_true, List.tail_cons] at digits some_ fits ⊢
    exact .negative ⟨by simpa using some_, digits⟩ (by omega)
  · simp only [if_neg minus] at digits some_ fits ⊢
    exact .int ⟨by simpa using some_, digits⟩ (by omega)

theorem derivesAt_of_parseInteger {data : Bytes} {pos next : Nat} {v : BencodeValue}
    (found : data[pos]? = some Token.integer) (returned : parseInteger data pos = .value (v, next)) :
    DerivesAt data pos v next := by
  simp only [parseInteger] at returned
  split at returned
  · cases returned
  rename_i inside
  obtain ⟨rest, text⟩ := drop_scanTo (Nat.lt_of_not_le inside)
  have front := le_scanTo data Token.stop (pos + 1)
  have count : (substr data (pos + 1) (scanTo data Token.stop (pos + 1) - (pos + 1))).length =
      scanTo data Token.stop (pos + 1) - (pos + 1) := by
    rw [substr, List.length_take, List.length_drop]
    omega
  generalize substr data (pos + 1) (scanTo data Token.stop (pos + 1) - (pos + 1)) = num at *
  split at returned
  · cases returned
  split at returned
  · cases returned
  rename_i digits
  split at returned
  · cases returned
  rename_i value converted
  cases returned
  rw [Bool.not_eq_false, List.all_eq_true] at digits
  refine derivesAt_iff.mpr ⟨_, rest, ?_, derives_of_stoll digits converted, ?_⟩
  · obtain ⟨bound, first⟩ := List.getElem?_eq_some_iff.mp found
    rw [List.drop_eq_getElem_cons bound, text, first]
    simp
  · rw [List.length_cons, List.length_append, List.length_singleton, count]
    omega

/-- A string token that is accepted although its length text has a byte that is no
digit, or although its end passes `2 ^ 64`. -/
structure Misreads (data : Bytes) (pos : Nat) (len : Nat) : Prop where
  first : ∃ c, data[pos]? = some c ∧ Decimal.isDigit c = true
  colon : scanTo data Token.colon pos < data.length
  length : stoull (substr data pos (scanTo data Token.colon pos - pos)) = .ok len
  passes : (scanTo data Token.colon pos + 1 + len) % 2 ^ 64 ≤ data.length
  wrong : (∃ byte ∈ substr data pos (scanTo data Token.colon pos - pos),
      Decimal.isDigit byte = false) ∨ 2 ^ 64 ≤ scanTo data Token.colon pos + 1 + len

theorem derivesAt_of_parseString {data : Bytes} {pos next : Nat} {v : BencodeValue} {c : UInt8}
    (found : data[pos]? = some c) (digit : Decimal.isDigit c = true)
    (right : ∀ len, ¬ Misreads data pos len)
    (returned : parseString data pos = .value (v, next)) : DerivesAt data pos v next := by
  simp only [parseString] at returned
  split at returned
  · cases returned
  rename_i inside
  split at returned
  · cases returned
  rename_i len read
  split at returned
  · cases returned
  rename_i passes
  cases returned
  have front := le_scanTo data Token.colon pos
  have misreads (wrong : _) : False :=
    right len ⟨⟨c, found, digit⟩, Nat.lt_of_not_le inside, read, Nat.le_of_not_lt passes, wrong⟩
  have small : scanTo data Token.colon pos + 1 + len < 2 ^ 64 :=
    Nat.lt_of_not_le fun wraps => misreads (.inr wraps)
  have digits : ∀ byte ∈ substr data pos (scanTo data Token.colon pos - pos),
      Decimal.isDigit byte = true := by
    intro byte member
    by_contra other
    exact misreads (.inl ⟨byte, member, Bool.not_eq_true _ ▸ other⟩)
  rw [Nat.mod_eq_of_lt small] at passes ⊢
  obtain ⟨rest, text⟩ := drop_scanTo (Nat.lt_of_not_le inside)
  have count : (substr data pos (scanTo data Token.colon pos - pos)).length =
      scanTo data Token.colon pos - pos := by
    rw [substr, List.length_take, List.length_drop]
    omega
  generalize substr data pos (scanTo data Token.colon pos - pos) = length at *
  have behind : data.drop (scanTo data Token.colon pos + 1) = rest := by
    have colon := drop_behind text
    rw [count, Nat.add_sub_cancel' front] at colon
    exact drop_behind (show _ = [Token.colon] ++ _ from colon)
  have whole : (substr data (scanTo data Token.colon pos + 1) len).length = len := by
    rw [substr, List.length_take, List.length_drop]
    omega
  have value : Decimal.value length = len := value_of_stoull digits read
  have some_ : length ≠ [] := by
    rintro rfl
    have colon := getElem?_of_drop (show data.drop pos = Token.colon :: rest from text)
    rw [found] at colon
    cases colon
    cases digit
  have contents : rest = substr data (scanTo data Token.colon pos + 1) len ++ rest.drop len := by
    rw [substr, behind, List.take_append_drop]
  refine derivesAt_iff.mpr ⟨_, rest.drop len, ?_, .string ⟨some_, digits⟩ (value.trans whole.symm), ?_⟩
  · rw [text, List.append_assoc, List.cons_append, ← contents]
  · rw [List.length_append, List.length_cons, count, whole]
    omega

/-- A string token that is derived is read right. -/
theorem not_misreads_of_derivesAt {data : Bytes} (size : data.length < 2 ^ 64) {pos next : Nat}
    {v : BencodeValue} (derivesAt : DerivesAt data pos v next) (len : Nat) :
    ¬ Misreads data pos len := by
  rintro ⟨⟨c, found, digit⟩, -, length, -, wrong⟩
  obtain ⟨bytes, rest, here, derives, -⟩ := derivesAt_iff.mp derivesAt
  have head {token : UInt8} {tail : Bytes} (same : bytes = token :: tail) : token = c := by
    have first := getElem?_of_head here same
    rw [found] at first
    exact (Option.some.inj first).symm
  cases derives with
  | @string digits contents numeral total =>
    have text : data.drop pos = digits ++ Token.colon :: (contents ++ rest) := by
      simpa using here
    have scanned := scanTo_of_drop text fun byte member =>
      isDigit_ne (numeral.all byte member) (by decide)
    rw [scanned, Nat.add_sub_cancel_left, substr_of_drop text] at length wrong
    have value : contents.length = len := total.symm.trans (value_of_stoull numeral.all length)
    rcases wrong with ⟨byte, member, other⟩ | wraps
    · rw [numeral.all byte member] at other
      cases other
    · -- The contents are part of the data, so the sum stays below its size.
      have total := congrArg List.length text
      rw [List.length_drop, List.length_append, List.length_cons, List.length_append] at total
      omega
  | int => exact isDigit_ne digit (by decide) (head rfl).symm
  | negative => exact isDigit_ne digit (by decide) (head rfl).symm
  | list => exact isDigit_ne digit (by decide) (head rfl).symm
  | dict => exact isDigit_ne digit (by decide) (head rfl).symm

/-! ## Where decoding goes wrong -/

/-- The positions that decoding at `pos` comes to, behind tokens that are derived. -/
inductive Meets (data : Bytes) : Nat → Nat → Prop where
  | self (pos : Nat) : Meets data pos pos
  | item {pos q : Nat} {c : UInt8} {front rest : Bytes} {items : List BencodeValue}
      (opens : data[pos]? = some Token.list) (before : DerivesItems front items)
      (here : data.drop (pos + 1) = front ++ c :: rest) (more : c ≠ Token.stop)
      (later : Meets data (pos + 1 + front.length) q) : Meets data pos q
  | key {pos q : Nat} {c : UInt8} {front rest : Bytes} {bindings : List (Bytes × BencodeValue)}
      (opens : data[pos]? = some Token.dict) (before : DerivesBindings front bindings)
      (here : data.drop (pos + 1) = front ++ c :: rest) (more : c ≠ Token.stop)
      (later : Meets data (pos + 1 + front.length) q) : Meets data pos q
  | val {pos q : Nat} {front keyBytes rest key : Bytes} {bindings : List (Bytes × BencodeValue)}
      (opens : data[pos]? = some Token.dict) (before : DerivesBindings front bindings)
      (here : data.drop (pos + 1) = front ++ (keyBytes ++ rest))
      (name : Derives keyBytes (.string key))
      (later : Meets data (pos + 1 + front.length + keyBytes.length) q) : Meets data pos q

/-- Decoding at `pos` comes to no string token that it misreads. -/
def ReadsRight (data : Bytes) (pos : Nat) : Prop :=
  ∀ q, Meets data pos q → ∀ len, ¬ Misreads data q len

/-- What a list that starts at `pos` has come to. -/
structure ListAt (data : Bytes) (pos : Nat) (p : Nat) (items : List BencodeValue) : Prop where
  opens : data[pos]? = some Token.list
  front : ∃ bytes rest, data.drop (pos + 1) = bytes ++ rest ∧ DerivesItems bytes items ∧
    p = pos + 1 + bytes.length

/-- What a dictionary that starts at `pos` has come to. -/
structure DictAt (data : Bytes) (pos : Nat) (p : Nat) (entries : List (Bytes × BencodeValue)) :
    Prop where
  opens : data[pos]? = some Token.dict
  front : ∃ bytes rest bindings, data.drop (pos + 1) = bytes ++ rest ∧
    DerivesBindings bytes bindings ∧ entries = assignAll bindings [] ∧ p = pos + 1 + bytes.length

section
variable {data : Bytes} {pos p : Nat}

theorem drop_of_opens {c : UInt8} {rest : Bytes} (opens : data[pos]? = some c)
    (here : data.drop (pos + 1) = rest) : data.drop pos = c :: rest := by
  obtain ⟨bound, first⟩ := List.getElem?_eq_some_iff.mp opens
  rw [List.drop_eq_getElem_cons bound, here, first]

theorem ListAt.stop {items : List BencodeValue} (at_ : ListAt data pos p items)
    (found : data[p]? = some Token.stop) : DerivesAt data pos (.list items) (p + 1) := by
  obtain ⟨opens, bytes, rest, here, derives, rfl⟩ := at_
  have ends := drop_of_opens found rfl
  rw [drop_behind here] at ends
  refine derivesAt_iff.mpr ⟨_, data.drop (pos + 1 + bytes.length + 1), ?_, .list derives, ?_⟩
  · rw [drop_of_opens opens here, ends]
    simp
  · rw [List.length_cons, List.length_append, List.length_singleton]
    omega

theorem DictAt.stop {entries : List (Bytes × BencodeValue)} (at_ : DictAt data pos p entries)
    (found : data[p]? = some Token.stop) : DerivesAt data pos (.dict entries) (p + 1) := by
  obtain ⟨opens, bytes, rest, bindings, here, derives, rfl, rfl⟩ := at_
  have ends := drop_of_opens found rfl
  rw [drop_behind here] at ends
  refine derivesAt_iff.mpr ⟨_, data.drop (pos + 1 + bytes.length + 1), ?_,
    .dict derives (lastBindings_assignAll bindings), ?_⟩
  · rw [drop_of_opens opens here, ends]
    simp
  · rw [List.length_cons, List.length_append, List.length_singleton]
    omega

theorem ListAt.next {items : List BencodeValue} {item : BencodeValue} {next : Nat}
    (at_ : ListAt data pos p items) (derivesAt : DerivesAt data p item next) :
    ListAt data pos next (items ++ [item]) := by
  obtain ⟨opens, bytes, rest, here, derives, rfl⟩ := at_
  obtain ⟨last, more, behind, derivesLast, rfl⟩ := derivesAt_iff.mp derivesAt
  rw [drop_behind here] at behind
  refine ⟨opens, bytes ++ last, more, ?_, derives.snoc derivesLast, ?_⟩
  · rw [here, behind, List.append_assoc]
  · rw [List.length_append]
    omega

theorem DictAt.next {entries : List (Bytes × BencodeValue)} {key : Bytes} {val : BencodeValue}
    {mid next : Nat} (at_ : DictAt data pos p entries) (name : DerivesAt data p (.string key) mid)
    (derivesAt : DerivesAt data mid val next) : DictAt data pos next (assign key val entries) := by
  obtain ⟨opens, bytes, rest, bindings, here, derives, rfl, rfl⟩ := at_
  obtain ⟨keyBytes, middle, nameHere, derivesName, rfl⟩ := derivesAt_iff.mp name
  obtain ⟨last, more, behind, derivesLast, rfl⟩ := derivesAt_iff.mp derivesAt
  rw [drop_behind nameHere] at behind
  rw [drop_behind here] at nameHere
  refine ⟨opens, bytes ++ (keyBytes ++ last), more, bindings ++ [(key, val)], ?_,
    derives.snoc derivesName derivesLast, ?_, ?_⟩
  · rw [here, nameHere, behind]
    simp
  · rw [assignAll, assignAll, List.foldl_append]
    rfl
  · rw [List.length_append, List.length_append]
    omega

theorem ReadsRight.item {items : List BencodeValue} {c : UInt8} (right : ReadsRight data pos)
    (at_ : ListAt data pos p items) (found : data[p]? = some c) (more : c ≠ Token.stop) :
    ReadsRight data p := by
  obtain ⟨opens, bytes, rest, here, derives, rfl⟩ := at_
  have behind := drop_of_opens found rfl
  rw [drop_behind here] at behind
  rw [behind] at here
  exact fun q later => right q (.item opens derives here more later)

theorem ReadsRight.key {entries : List (Bytes × BencodeValue)} {c : UInt8}
    (right : ReadsRight data pos) (at_ : DictAt data pos p entries) (found : data[p]? = some c)
    (more : c ≠ Token.stop) : ReadsRight data p := by
  obtain ⟨opens, bytes, rest, bindings, here, derives, -, rfl⟩ := at_
  have behind := drop_of_opens found rfl
  rw [drop_behind here] at behind
  rw [behind] at here
  exact fun q later => right q (.key opens derives here more later)

theorem ReadsRight.val {entries : List (Bytes × BencodeValue)} {key : Bytes} {mid : Nat}
    (right : ReadsRight data pos) (at_ : DictAt data pos p entries)
    (name : DerivesAt data p (.string key) mid) : ReadsRight data mid := by
  obtain ⟨opens, bytes, rest, bindings, here, derives, -, rfl⟩ := at_
  obtain ⟨keyBytes, middle, nameHere, derivesName, rfl⟩ := derivesAt_iff.mp name
  rw [drop_behind here] at nameHere
  rw [nameHere] at here
  exact fun q later => right q (.val opens derives here derivesName later)

end

/-- With this much fuel, whatever decoding returns is derived. -/
structure Derived (data : Bytes) (fuel : Nat) : Prop where
  value : ∀ {pos v next}, ReadsRight data pos → parse data fuel pos = .value (v, next) →
    DerivesAt data pos v next
  items : ∀ {pos p items v next}, ReadsRight data pos → ListAt data pos p items →
    parseList data fuel p items = .value (v, next) → DerivesAt data pos v next
  entries : ∀ {pos p entries v next}, ReadsRight data pos → DictAt data pos p entries →
    parseDict data fuel p entries = .value (v, next) → DerivesAt data pos v next

namespace Derived

variable {data : Bytes} {fuel pos p next : Nat} {v : BencodeValue} (derived : Derived data fuel)
  (right : ReadsRight data pos)
include derived right

theorem parse (returned : K0Torrent.parse data (fuel + 1) pos = .value (v, next)) :
    DerivesAt data pos v next := by
  rw [K0Torrent.parse] at returned
  split at returned
  · cases returned
  rename_i c found
  split at returned
  · rename_i integer
    subst integer
    exact derivesAt_of_parseInteger found returned
  split at returned
  · rename_i digit
    exact derivesAt_of_parseString found digit (right pos (.self pos)) returned
  split at returned
  · rename_i list
    subst list
    exact derived.items right ⟨found, [], _, rfl, .nil, rfl⟩ returned
  split at returned
  · rename_i dict
    subst dict
    exact derived.entries right ⟨found, [], _, [], rfl, .nil, rfl, rfl⟩ returned
  · cases returned

theorem parseList {items : List BencodeValue} (at_ : ListAt data pos p items)
    (returned : K0Torrent.parseList data (fuel + 1) p items = .value (v, next)) :
    DerivesAt data pos v next := by
  rw [K0Torrent.parseList] at returned
  split at returned
  · cases returned
  rename_i c found
  split at returned
  · rename_i stop
    subst stop
    cases returned
    exact at_.stop found
  rename_i more
  obtain ⟨⟨item, mid⟩, itemParsed, looped⟩ := Outcome.bind_eq_value.mp returned
  have derivesItem := derived.value (right.item at_ found more) itemParsed
  exact derived.items right (at_.next derivesItem) looped

theorem parseDict {entries : List (Bytes × BencodeValue)} (at_ : DictAt data pos p entries)
    (returned : K0Torrent.parseDict data (fuel + 1) p entries = .value (v, next)) :
    DerivesAt data pos v next := by
  rw [K0Torrent.parseDict] at returned
  split at returned
  · cases returned
  rename_i c found
  split at returned
  · rename_i stop
    subst stop
    cases returned
    exact at_.stop found
  rename_i more
  obtain ⟨⟨key, mid⟩, keyParsed, rest⟩ := Outcome.bind_eq_value.mp returned
  cases key with
  | string key =>
    have name := derived.value (right.key at_ found more) keyParsed
    obtain ⟨⟨val, after_⟩, valParsed, looped⟩ := Outcome.bind_eq_value.mp rest
    have derivesVal := derived.value (right.val at_ name) valParsed
    exact derived.entries right (at_.next name derivesVal) looped
  | int => cases rest
  | list => cases rest
  | dict => cases rest

end Derived

/-- What decoding returns is derived, one round of each loop at a time. -/
theorem derived_of_parse (data : Bytes) (fuel : Nat) : Derived data fuel := by
  induction fuel with
  | zero => exact ⟨nofun, nofun, nofun⟩
  | succ fuel ih =>
    exact ⟨fun right => ih.parse right, fun right at_ => ih.parseList right at_,
      fun right at_ => ih.parseDict right at_⟩

/-! ## What is derived is read right -/

/-- Derived items are the beginning of the items of the list, and another follows
unless the list ends. -/
theorem DerivesItems.follows : ∀ {front : Bytes} {before : List BencodeValue},
    DerivesItems front before → ∀ {bytes : Bytes} {items : List BencodeValue}
    {c : UInt8} {rest last : Bytes}, DerivesItems bytes items → c ≠ Token.stop →
    front ++ c :: rest = bytes ++ Token.stop :: last → (front ++ c :: rest).length < 2 ^ 64 →
    ∃ one item more, Derives one item ∧ c :: rest = one ++ more
  | _, _, .nil, _, _, c, rest, last, items, other, same, size => by
    cases items with
    | nil =>
      cases same
      exact absurd rfl other
    | @cons one more item items first later =>
      exact ⟨one, item, more ++ Token.stop :: last, first, by simpa using same⟩
  | _, _, @DerivesItems.cons one more item before first later, _, _, c, rest, last, items, other,
      same, size => by
    rw [List.append_assoc] at same size
    cases items with
    | nil =>
      obtain ⟨token, tail, rfl, more⟩ := first.head
      cases same
      exact absurd rfl more
    | cons first' later' =>
      rw [List.append_assoc] at same
      obtain ⟨rfl, -, same⟩ := first.unique first' same size
      rw [List.length_append] at size
      exact later.follows later' other same (by omega)

/-- The same for bindings: a key follows, and a value behind each key. -/
theorem DerivesBindings.follows : ∀ {front : Bytes} {before : List (Bytes × BencodeValue)},
    DerivesBindings front before → ∀ {bytes : Bytes} {bindings : List (Bytes × BencodeValue)}
    {c : UInt8} {rest last : Bytes}, DerivesBindings bytes bindings → c ≠ Token.stop →
    front ++ c :: rest = bytes ++ Token.stop :: last → (front ++ c :: rest).length < 2 ^ 64 →
    ∃ keyBytes key one val more, Derives keyBytes (.string key) ∧ Derives one val ∧
      c :: rest = keyBytes ++ (one ++ more)
  | _, _, .nil, _, _, c, rest, last, bindings, other, same, size => by
    cases bindings with
    | nil =>
      cases same
      exact absurd rfl other
    | @cons keyBytes one more key val bindings name first later =>
      exact ⟨keyBytes, key, one, val, more ++ Token.stop :: last, name, first, by simpa using same⟩
  | _, _, @DerivesBindings.cons keyBytes one more key val before name first later, _, _, c, rest,
      last, bindings, other, same, size => by
    rw [List.append_assoc, List.append_assoc] at same size
    cases bindings with
    | nil =>
      obtain ⟨token, tail, rfl, more⟩ := name.head
      cases same
      exact absurd rfl more
    | cons name' first' later' =>
      rw [List.append_assoc, List.append_assoc] at same
      obtain ⟨rfl, -, same⟩ := name.unique name' same size
      rw [List.length_append] at size
      obtain ⟨rfl, -, same⟩ := first.unique first' same (by omega)
      rw [List.length_append] at size
      exact later.follows later' other same (by omega)

section
variable {data : Bytes} {pos : Nat} {v : BencodeValue}

theorem Derives.items {bytes rest : Bytes} (derives : Derives bytes v)
    (here : data.drop pos = bytes ++ rest) (opens : data[pos]? = some Token.list) :
    ∃ inside items, DerivesItems inside items ∧
      data.drop (pos + 1) = inside ++ Token.stop :: rest := by
  have head {token : UInt8} {tail : Bytes} (same : bytes = token :: tail) : token = Token.list :=
    Option.some.inj ((getElem?_of_head here same).symm.trans opens)
  cases derives with
  | @list inside items derives =>
    exact ⟨inside, items, derives, drop_behind (show _ = [Token.list] ++ _ by simpa using here)⟩
  | int => exact absurd (head rfl) (by decide)
  | negative => exact absurd (head rfl) (by decide)
  | string numeral =>
    obtain ⟨c, tail, rfl, digit⟩ := numeral.head
    exact absurd (head rfl) (isDigit_ne digit (by decide))
  | dict => exact absurd (head rfl) (by decide)

theorem Derives.bindings {bytes rest : Bytes} (derives : Derives bytes v)
    (here : data.drop pos = bytes ++ rest) (opens : data[pos]? = some Token.dict) :
    ∃ inside bindings, DerivesBindings inside bindings ∧
      data.drop (pos + 1) = inside ++ Token.stop :: rest := by
  have head {token : UInt8} {tail : Bytes} (same : bytes = token :: tail) : token = Token.dict :=
    Option.some.inj ((getElem?_of_head here same).symm.trans opens)
  cases derives with
  | @dict inside bindings entries derives =>
    exact ⟨inside, bindings, derives, drop_behind (show _ = [Token.dict] ++ _ by simpa using here)⟩
  | int => exact absurd (head rfl) (by decide)
  | negative => exact absurd (head rfl) (by decide)
  | string numeral =>
    obtain ⟨c, tail, rfl, digit⟩ := numeral.head
    exact absurd (head rfl) (isDigit_ne digit (by decide))
  | list => exact absurd (head rfl) (by decide)

/-- Within a derivation every position that is come to has a derivation of its own. -/
theorem Meets.derives (size : data.length < 2 ^ 64) {q : Nat} (meets : Meets data pos q) :
    ∀ {v next}, DerivesAt data pos v next → ∃ v' next', DerivesAt data q v' next' := by
  have short {p : Nat} {bytes : Bytes} (here : data.drop p = bytes) : bytes.length < 2 ^ 64 := by
    rw [← here, List.length_drop]
    omega
  induction meets with
  | self => exact fun derivesAt => ⟨_, _, derivesAt⟩
  | item opens before here more later ih =>
    intro v next derivesAt
    obtain ⟨bytes, rest, whole, derives, -⟩ := derivesAt_iff.mp derivesAt
    obtain ⟨inside, items, derivesItems, behind⟩ := derives.items whole opens
    obtain ⟨one, item, left, derivesItem, same⟩ :=
      before.follows derivesItems more (here.symm.trans behind) (short here)
    exact ih (derivesAt_iff.mpr ⟨one, left, (drop_behind here).trans same, derivesItem, rfl⟩)
  | key opens before here more later ih =>
    intro v next derivesAt
    obtain ⟨bytes, rest, whole, derives, -⟩ := derivesAt_iff.mp derivesAt
    obtain ⟨inside, bindings, derivesBindings, behind⟩ := derives.bindings whole opens
    obtain ⟨keyBytes, key, one, val, left, name, -, same⟩ :=
      before.follows derivesBindings more (here.symm.trans behind) (short here)
    exact ih (derivesAt_iff.mpr ⟨keyBytes, one ++ left, (drop_behind here).trans same, name, rfl⟩)
  | val opens before here name later ih =>
    intro v next derivesAt
    obtain ⟨bytes, rest, whole, derives, -⟩ := derivesAt_iff.mp derivesAt
    obtain ⟨inside, bindings, derivesBindings, behind⟩ := derives.bindings whole opens
    obtain ⟨c, tail, head, more⟩ := name.head
    rw [head, List.cons_append] at here
    obtain ⟨keyBytes, key, one, val, left, name', derivesVal, same⟩ :=
      before.follows derivesBindings more (here.symm.trans behind) (short here)
    rw [← List.cons_append, ← head] at same here
    obtain ⟨rfl, -, same⟩ := name.unique name' same (short (drop_behind here))
    rw [same] at here
    exact ih (derivesAt_iff.mpr ⟨one, left, drop_behind (drop_behind here), derivesVal, rfl⟩)

end

/-- What decoding returns is derived exactly when decoding comes to no string token
that it misreads. -/
theorem derivesAt_iff_readsRight {data : Bytes} (size : data.length < 2 ^ 64) {pos next : Nat}
    {v : BencodeValue} (returns : Returns data pos v next) :
    DerivesAt data pos v next ↔ ReadsRight data pos := by
  constructor
  · intro derivesAt q meets len
    obtain ⟨v', next', here⟩ := meets.derives size derivesAt
    exact not_misreads_of_derivesAt size here len
  · intro right
    obtain ⟨fuel, returned⟩ := returns
    exact (derived_of_parse data fuel).value right returned

theorem readsRight_spam : ReadsRight (ascii "4:spam") 0 := by
  have derives : Derives (ascii "4" ++ Token.colon :: ascii "spam") (.string (ascii "spam")) :=
    .string ⟨by decide, by decide +kernel⟩ (by decide)
  have returns : Returns (ascii "4:spam") 0 (.string (ascii "spam")) 6 := ⟨1, rfl⟩
  exact (derivesAt_iff_readsRight (by decide) returns).mp ⟨by decide, by decide, derives⟩

/-- The `x` in the length is skipped, and the token is no string of the grammar. -/
theorem length_text_skipped :
    Returns (ascii "1x:a") 0 (.string (ascii "a")) 4 ∧
      ¬ DerivesAt (ascii "1x:a") 0 (.string (ascii "a")) 4 := by
  refine ⟨⟨1, rfl⟩, fun derivesAt => not_misreads_of_derivesAt (by decide) derivesAt 1 ?_⟩
  exact ⟨⟨0x31, by decide, by decide⟩, by decide, by decide, by decide, .inl ⟨0x78, by decide, by decide⟩⟩

end K0Torrent
