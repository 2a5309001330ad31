import K0Torrent.Bencode.Decode
import Mathlib.Tactic.Ring

/-! When decoding moves forward and ends.

A string token may carry a length so large that `pos + len` wraps around. The
bounds test then passes and the position can land on, or before, the token's own
first digit. Every other token moves forward; so decoding progresses and ends
exactly when no call of `parse` meets such a token.
-/

set_option autoImplicit false

namespace K0Torrent

/-- Positions at which the list loop of the call at `pos` tests for its end. -/
inductive ListCursor (data : Bytes) (pos : Nat) : Nat → Prop where
  | enter : data[pos]? = some Token.list → ListCursor data pos (pos + 1)
  | advance {p next : Nat} {c : UInt8} {v : BencodeValue} : ListCursor data pos p →
      data[p]? = some c → c ≠ Token.stop → Returns data p v next → ListCursor data pos next

/-- Positions at which the dict loop of the call at `pos` tests for its end. -/
inductive DictCursor (data : Bytes) (pos : Nat) : Nat → Prop where
  | enter : data[pos]? = some Token.dict → DictCursor data pos (pos + 1)
  | advance {p mid next : Nat} {c : UInt8} {key : Bytes} {v : BencodeValue} :
      DictCursor data pos p → data[p]? = some c → c ≠ Token.stop →
      Returns data p (.string key) mid → Returns data mid v next → DictCursor data pos next

/-- `Calls data pos q`: the call of `parse` at `pos` makes a call at `q`, itself
or through the calls it makes for list items, dict keys and dict values. -/
inductive Calls (data : Bytes) : Nat → Nat → Prop where
  | self (pos : Nat) : Calls data pos pos
  | item {pos p q : Nat} {c : UInt8} : ListCursor data pos p → data[p]? = some c →
      c ≠ Token.stop → Calls data p q → Calls data pos q
  | key {pos p q : Nat} {c : UInt8} : DictCursor data pos p → data[p]? = some c →
      c ≠ Token.stop → Calls data p q → Calls data pos q
  | val {pos p mid q : Nat} {c : UInt8} {key : Bytes} : DictCursor data pos p →
      data[p]? = some c → c ≠ Token.stop → Returns data p (.string key) mid →
      Calls data mid q → Calls data pos q

/-- Decoding at `pos` ends, and every call that returns has moved forward
without leaving the data. -/
def Progresses (data : Bytes) (pos : Nat) : Prop :=
  Terminates data pos ∧
    ∀ q, Calls data pos q → ∀ v next, Returns data q v next → q < next ∧ next ≤ data.length

/-- A string token at `pos` whose length, added to the position behind its
colon, passes `2 ^ 64` and comes back to at most `pos`. -/
def JumpsBack (data : Bytes) (pos : Nat) : Prop :=
  ∃ c len, data[pos]? = some c ∧ Decimal.isDigit c = true ∧ scanTo data Token.colon pos < data.length ∧
    stoull (substr data pos (scanTo data Token.colon pos - pos)) = .ok len ∧
    2 ^ 64 ≤ scanTo data Token.colon pos + 1 + len ∧
    scanTo data Token.colon pos + 1 + len ≤ 2 ^ 64 + pos

theorem ListCursor.opened {data : Bytes} {pos p : Nat} (cursor : ListCursor data pos p) :
    data[pos]? = some Token.list := by
  induction cursor with
  | enter found => exact found
  | advance _ _ _ _ ih => exact ih

theorem DictCursor.opened {data : Bytes} {pos p : Nat} (cursor : DictCursor data pos p) :
    data[pos]? = some Token.dict := by
  induction cursor with
  | enter found => exact found
  | advance _ _ _ _ _ ih => exact ih

theorem le_scanTo (data : Bytes) (until_ : UInt8) (pos : Nat) : pos ≤ scanTo data until_ pos :=
  Nat.le_add_right ..

/-- What a finished evaluation at `pos` may look like. -/
def Forward (data : Bytes) (pos : Nat) (result : Outcome DecodeError (BencodeValue × Nat)) : Prop :=
  result ≠ .unfinished ∧ ∀ v next, result = .value (v, next) → pos < next ∧ next ≤ data.length

theorem Forward.thrown {data : Bytes} {pos : Nat} (e : DecodeError) :
    Forward data pos (.thrown e) := ⟨nofun, nofun⟩

theorem parseInteger_forward (data : Bytes) (pos : Nat) :
    Forward data pos (parseInteger data pos) := by
  have front := le_scanTo data Token.stop (pos + 1)
  simp only [parseInteger]
  by_cases short : data.length ≤ scanTo data Token.stop (pos + 1)
  · rw [if_pos short]
    exact .thrown _
  rw [if_neg short]
  split
  · exact .thrown _
  split
  · exact .thrown _
  split
  · exact .thrown _
  · refine ⟨nofun, fun v next returned => ?_⟩
    cases returned
    omega

/-- A string token moves forward unless it jumps back. -/
theorem parseString_forward {data : Bytes} {pos : Nat} (size : data.length < 2 ^ 64) {c : UInt8}
    (first : data[pos]? = some c) (digit : Decimal.isDigit c = true) (onward : ¬ JumpsBack data pos) :
    Forward data pos (parseString data pos) := by
  have front := le_scanTo data Token.colon pos
  simp only [parseString]
  by_cases short : data.length ≤ scanTo data Token.colon pos
  · rw [if_pos short]
    exact .thrown _
  rw [if_neg short]
  split
  · exact .thrown _
  · rename_i len read
    have bound := stoull_lt read
    split
    · exact .thrown _
    · rename_i inside
      refine ⟨nofun, fun v next returned => ?_⟩
      cases returned
      -- A sum that wraps around still lands behind `pos`.
      by_cases wraps : 2 ^ 64 ≤ scanTo data Token.colon pos + 1 + len
      · have past : ¬ (scanTo data Token.colon pos + 1 + len ≤ 2 ^ 64 + pos) := fun back =>
          onward ⟨c, len, first, digit, by omega, read, wraps, back⟩
        omega
      · rw [Nat.mod_eq_of_lt (by omega)] at inside ⊢
        omega

/-- A token that jumps back returns, and returns a position it had already passed. -/
theorem JumpsBack.returns {data : Bytes} {pos : Nat} (size : data.length < 2 ^ 64)
    (back : JumpsBack data pos) :
    ∃ v next, Returns data pos v next ∧ next ≤ pos := by
  obtain ⟨c, len, first, digit, inside, read, wraps, low⟩ := back
  have bound := stoull_lt read
  have there : pos < data.length := (List.getElem?_eq_some_iff.mp first).1
  have landed : (scanTo data Token.colon pos + 1 + len) % 2 ^ 64 =
      scanTo data Token.colon pos + 1 + len - 2 ^ 64 := by omega
  refine ⟨.string (substr data (scanTo data Token.colon pos + 1) len),
    scanTo data Token.colon pos + 1 + len - 2 ^ 64, ⟨1, ?_⟩, by omega⟩
  have notInteger : c ≠ Token.integer := by
    rintro rfl
    cases digit
  -- The bounds test looks at the wrapped sum.
  have passes : ¬ (data.length < scanTo data Token.colon pos + 1 + len - 2 ^ 64) := by omega
  simp only [parse, first, if_neg notInteger, digit, if_true, parseString, if_neg (not_le.mpr inside),
    read, landed, if_neg passes]

section
variable {data : Bytes} {pos : Nat}

/-- The list loop ends and moves forward when every item does. -/
theorem parseList_forward
    (items_forward : ∀ p c, ListCursor data pos p → pos < p → data[p]? = some c →
      c ≠ Token.stop → ∃ fuel, Forward data p (parse data fuel p))
    (remaining : Nat) : ∀ p items, ListCursor data pos p → pos < p → data.length - p ≤ remaining →
      ∃ fuel, Forward data p (parseList data fuel p items) := by
  induction remaining with
  | zero =>
    intro p items _ _ bound
    have outside : data[p]? = none := List.getElem?_eq_none (by omega)
    exact ⟨1, by simp only [parseList, outside]; exact .thrown _⟩
  | succ remaining ih =>
    intro p items cursor ahead bound
    cases found : data[p]? with
    | none => exact ⟨1, by simp only [parseList, found]; exact .thrown _⟩
    | some c =>
      have inside : p < data.length := (List.getElem?_eq_some_iff.mp found).1
      by_cases more : c = Token.stop
      · have read : parseList data 1 p items = .value (.list items, p + 1) := by
          simp only [parseList, found, if_pos more]
        refine ⟨1, Outcome.finished_of_value read, fun v next returned => ?_⟩
        rw [read] at returned
        cases returned
        omega
      · obtain ⟨first, finished, onward⟩ := items_forward p c cursor ahead found more
        cases parsed : parse data first p with
        | unfinished => exact (finished parsed).elim
        | thrown e => exact ⟨first + 1, by rw [parseList_thrown found more parsed]; exact .thrown e⟩
        | value result =>
          obtain ⟨item, next⟩ := result
          obtain ⟨lower, upper⟩ := onward item next parsed
          obtain ⟨second, finished, beyond⟩ := ih next (items ++ [item])
            (.advance cursor found more ⟨first, parsed⟩) (by omega) (by omega)
          refine ⟨max first second + 1, ?_⟩
          rw [parseList_next found more parsed finished]
          refine ⟨finished, fun v last returned => ?_⟩
          have further := beyond v last returned
          omega

/-- The dict loop ends and moves forward when every key and every value does. -/
theorem parseDict_forward
    (keys_forward : ∀ p c, DictCursor data pos p → pos < p → data[p]? = some c →
      c ≠ Token.stop → ∃ fuel, Forward data p (parse data fuel p))
    (vals_forward : ∀ p c key mid, DictCursor data pos p → pos < mid → data[p]? = some c →
      c ≠ Token.stop → Returns data p (.string key) mid →
      ∃ fuel, Forward data mid (parse data fuel mid))
    (remaining : Nat) : ∀ p entries, DictCursor data pos p → pos < p →
      data.length - p ≤ remaining → ∃ fuel, Forward data p (parseDict data fuel p entries) := by
  induction remaining with
  | zero =>
    intro p entries _ _ bound
    have outside : data[p]? = none := List.getElem?_eq_none (by omega)
    exact ⟨1, by simp only [parseDict, outside]; exact .thrown _⟩
  | succ remaining ih =>
    intro p entries cursor ahead bound
    cases found : data[p]? with
    | none => exact ⟨1, by simp only [parseDict, found]; exact .thrown _⟩
    | some c =>
      have inside : p < data.length := (List.getElem?_eq_some_iff.mp found).1
      by_cases more : c = Token.stop
      · have read : parseDict data 1 p entries = .value (.dict entries, p + 1) := by
          simp only [parseDict, found, if_pos more]
        refine ⟨1, Outcome.finished_of_value read, fun v next returned => ?_⟩
        rw [read] at returned
        cases returned
        omega
      · obtain ⟨first, finished, onward⟩ := keys_forward p c cursor ahead found more
        cases keyParsed : parse data first p with
        | unfinished => exact (finished keyParsed).elim
        | thrown e =>
          exact ⟨first + 1, by rw [parseDict_key_thrown found more keyParsed]; exact .thrown e⟩
        | value result =>
          obtain ⟨key, mid⟩ := result
          have step := onward key mid keyParsed
          cases key with
          | string key =>
            have key_returns : Returns data p (.string key) mid := ⟨first, keyParsed⟩
            obtain ⟨second, finished, onward⟩ :=
              vals_forward p c key mid cursor (by omega) found more key_returns
            cases valParsed : parse data second mid with
            | unfinished => exact (finished valParsed).elim
            | thrown e =>
              exact ⟨max first second + 1, by
                rw [parseDict_val_thrown found more keyParsed valParsed]; exact .thrown e⟩
            | value result =>
              obtain ⟨val, next⟩ := result
              obtain ⟨lower, upper⟩ := onward val next valParsed
              obtain ⟨third, finished, beyond⟩ := ih next (assign key val entries)
                (.advance cursor found more key_returns ⟨second, valParsed⟩) (by omega) (by omega)
              refine ⟨max first (max second third) + 1, ?_⟩
              rw [parseDict_next found more keyParsed valParsed finished]
              refine ⟨finished, fun v last returned => ?_⟩
              have further := beyond v last returned
              omega
          | _ =>
            exact ⟨first + 1, by
              rw [parseDict_key_not_string found more keyParsed (by simp)]; exact .thrown _⟩

end

/-- One call ends and moves forward when no call below it jumps back. The
induction is on the data left; items, keys and values all start behind `pos`. -/
theorem parse_forward {data : Bytes} (size : data.length < 2 ^ 64) (remaining : Nat) :
    ∀ pos, data.length - pos ≤ remaining → (∀ q, Calls data pos q → ¬ JumpsBack data q) →
      ∃ fuel, Forward data pos (parse data fuel pos) := by
  induction remaining with
  | zero =>
    intro pos bound _
    have outside : data[pos]? = none := List.getElem?_eq_none (by omega)
    exact ⟨1, by simp only [parse, outside]; exact .thrown _⟩
  | succ remaining ih =>
    intro pos bound onward
    cases found : data[pos]? with
    | none => exact ⟨1, by simp only [parse, found]; exact .thrown _⟩
    | some c =>
      have inside : pos < data.length := (List.getElem?_eq_some_iff.mp found).1
      by_cases integer : c = Token.integer
      · refine ⟨1, ?_⟩
        simp only [parse, found, if_pos integer]
        exact parseInteger_forward data pos
      by_cases digit : Decimal.isDigit c = true
      · refine ⟨1, ?_⟩
        simp only [parse, found, if_neg integer, if_pos digit]
        exact parseString_forward size found digit (onward pos (.self pos))
      by_cases list : c = Token.list
      · have items (p : Nat) (c : UInt8) (cursor : ListCursor data pos p) (ahead : pos < p)
            (here : data[p]? = some c) (more : c ≠ Token.stop) :
            ∃ fuel, Forward data p (parse data fuel p) :=
          ih p (by omega) fun q call => onward q (.item cursor here more call)
        obtain ⟨fuel, finished, beyond⟩ := parseList_forward items _ (pos + 1) []
          (.enter (list ▸ found)) (Nat.lt_succ_self pos) (Nat.le_refl _)
        refine ⟨fuel + 1, ?_⟩
        simp only [parse, found, if_neg integer, if_neg digit, if_pos list]
        refine ⟨finished, fun v next returned => ?_⟩
        have further := beyond v next returned
        omega
      by_cases dict : c = Token.dict
      · have keys (p : Nat) (c : UInt8) (cursor : DictCursor data pos p) (ahead : pos < p)
            (here : data[p]? = some c) (more : c ≠ Token.stop) :
            ∃ fuel, Forward data p (parse data fuel p) :=
          ih p (by omega) fun q call => onward q (.key cursor here more call)
        have vals (p : Nat) (c : UInt8) (key : Bytes) (mid : Nat) (cursor : DictCursor data pos p)
            (ahead : pos < mid) (here : data[p]? = some c) (more : c ≠ Token.stop)
            (returned : Returns data p (.string key) mid) :
            ∃ fuel, Forward data mid (parse data fuel mid) :=
          ih mid (by omega) fun q call => onward q (.val cursor here more returned call)
        obtain ⟨fuel, finished, beyond⟩ := parseDict_forward keys vals _ (pos + 1) []
          (.enter (dict ▸ found)) (Nat.lt_succ_self pos) (Nat.le_refl _)
        refine ⟨fuel + 1, ?_⟩
        simp only [parse, found, if_neg integer, if_neg digit, if_neg list, if_pos dict]
        refine ⟨finished, fun v next returned => ?_⟩
        have further := beyond v next returned
        omega
      · refine ⟨1, ?_⟩
        simp only [parse, found, if_neg integer, if_neg digit, if_neg list, if_neg dict]
        exact .thrown _

theorem Calls.trans {data : Bytes} {pos p q : Nat} (first : Calls data pos p)
    (second : Calls data p q) : Calls data pos q := by
  induction first with
  | self _ => exact second
  | item cursor found more _ ih => exact .item cursor found more (ih second)
  | key cursor found more _ ih => exact .key cursor found more (ih second)
  | val cursor found more returned _ ih => exact .val cursor found more returned (ih second)

/-- Decoding progresses exactly when none of its calls meets a string token that
jumps back. -/
theorem progresses_iff (data : Bytes) (size : data.length < 2 ^ 64) (pos : Nat) :
    Progresses data pos ↔ ∀ q, Calls data pos q → ¬ JumpsBack data q := by
  constructor
  · rintro ⟨_, onward⟩ q call back
    obtain ⟨v, next, returned, low⟩ := back.returns size
    have further := onward q call v next returned
    omega
  · intro onward
    refine ⟨?_, fun q call v next returned => ?_⟩
    · obtain ⟨fuel, finished, _⟩ := parse_forward size _ pos (Nat.le_refl _) onward
      exact ⟨fuel, finished⟩
    · obtain ⟨fuel, finished, beyond⟩ := parse_forward size _ q (Nat.le_refl _)
        fun r below => onward r (call.trans below)
      exact beyond v next (returned.eq finished)

/-- A dictionary with a list of strings. -/
def shortStrings : Bytes := ascii "d3:keyl4:spam2:hi0:e5:otheri42ee"

/-- Its strings are so short that none of them can jump back. -/
theorem progresses_shortStrings : Progresses shortStrings 0 := by
  have few : ∀ q < shortStrings.length,
      (stoull (substr shortStrings q (scanTo shortStrings Token.colon q - q))).toOption.all
        (fun len => decide (len < 100)) = true := by decide +kernel
  refine (progresses_iff shortStrings (by decide) 0).mpr fun q call back => ?_
  obtain ⟨c, len, found, digit, inside, number, wraps, back⟩ := back
  have below := few q (List.getElem?_eq_some_iff.mp found).1
  rw [number] at below
  have short : len < 100 := of_decide_eq_true below
  have size : shortStrings.length = 32 := by decide
  omega

/-- A list whose only item is a string token that jumps back to its own start. -/
def jumpingList : Bytes := ascii "l18446744073709551595:"

theorem parseList_jumpingList (fuel : Nat) : ∀ items, parseList jumpingList fuel 1 items = .unfinished := by
  induction fuel with
  | zero => exact fun _ => rfl
  | succ fuel ih =>
    intro items
    have found : jumpingList[1]? = some 0x31 := by decide
    rw [parseList]
    simp only [found, if_neg (show (0x31 : UInt8) ≠ Token.stop by decide)]
    cases fuel with
    | zero => rfl
    | succ fuel =>
      have again : parse jumpingList (fuel + 1) 1 = .value (.string [], 1) := by
        rw [parse]
        rfl
      rw [again]
      exact ih _

/-- Twenty-two bytes on which the decoder reads the same string for ever. -/
theorem jumpingList_never_ends :
    (∀ fuel, decode jumpingList fuel 0 = .unfinished) ∧ ¬ Progresses jumpingList 0 := by
  have endless (fuel : Nat) : parse jumpingList fuel 0 = .unfinished := by
    cases fuel with
    | zero => rfl
    | succ fuel =>
      rw [parse]
      exact parseList_jumpingList fuel []
  exact ⟨endless, fun progress => progress.1.elim fun fuel finished => finished (endless fuel)⟩

end K0Torrent
