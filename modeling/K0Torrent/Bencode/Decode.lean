import K0Torrent.Common.Types
import K0Torrent.Library.Decimal
import K0Torrent.Library.Outcome
import Mathlib.Data.List.Basic
import Mathlib.Data.List.TakeWhile

/-! The bencode data model and its recursive decoder (`bencode.hpp`, `bencode.cpp`).

Positions and lengths are `size_t`: natural numbers, reduced modulo `2 ^ 64`
where the source adds an unchecked length. The source recurses on the data with
no bound of its own, so the decoder here takes one and says when it ran out.
-/

set_option autoImplicit false

namespace K0Torrent

inductive BencodeValue where
  | int (value : Int)
  | string (bytes : Bytes)
  | list (items : List BencodeValue)
  | dict (entries : List (Bytes × BencodeValue))

inductive DecodeError where
  | unexpectedEnd
  | unterminatedInteger
  | emptyInteger
  | invalidInteger (num : Bytes)
  | noConversion
  | integerOutOfRange
  | lengthOutOfRange
  | malformedString
  | stringOutOfBounds
  | unterminatedList
  | dictKeyNotString
  | unterminatedDict
  | unknownType (byte : UInt8)
  deriving DecidableEq

private def text (bytes : Bytes) : String :=
  String.ofList (bytes.map fun byte => Char.ofNat byte.toNat)

/-- The messages of the exceptions; a failed conversion names its function. -/
def DecodeError.what : DecodeError → String
  | unexpectedEnd => "unexpected end of data"
  | unterminatedInteger => "unterminated integer"
  | emptyInteger => "empty integer"
  | invalidInteger num => "invalid integer: " ++ text num
  | noConversion => "stoll"
  | integerOutOfRange => "stoll"
  | lengthOutOfRange => "stoull"
  | malformedString => "malformed string: no colon"
  | stringOutOfBounds => "string length out of bounds"
  | unterminatedList => "unterminated list"
  | dictKeyNotString => "dict key must be a string"
  | unterminatedDict => "unterminated dict"
  | unknownType byte => "unknown bencode type: " ++ text [byte]

namespace Token
def integer : UInt8 := 0x69 -- 'i'
def list : UInt8 := 0x6C -- 'l'
def dict : UInt8 := 0x64 -- 'd'
def stop : UInt8 := 0x65 -- 'e'
def colon : UInt8 := 0x3A -- ':'
def minus : UInt8 := 0x2D -- '-'
end Token

/-- The position where `while (pos < size && data[pos] != until) pos++` stops. -/
def scanTo (data : Bytes) (until_ : UInt8) (pos : Nat) : Nat :=
  pos + ((data.drop pos).takeWhile (· != until_)).length

def substr (data : Bytes) (start count : Nat) : Bytes := (data.drop start).take count

def afterSign (num : Bytes) : Bytes := if num.head? = some Token.minus then num.tail else num

def signedValue (num : Bytes) : Int :=
  if num.head? = some Token.minus then -(Decimal.value num.tail : Int) else Decimal.value num

/-- `std::stoll` on a text that is an optional minus sign and digits. -/
def stoll (num : Bytes) : Except DecodeError Int :=
  let value := signedValue num
  if (afterSign num).isEmpty then .error .noConversion
  else if value < -2 ^ 63 ∨ 2 ^ 63 ≤ value then .error .integerOutOfRange
  else .ok value

/-- `std::stoull` on a text that starts with a digit: it reads the leading
digits and ignores what follows them. -/
def stoull (num : Bytes) : Except DecodeError Nat :=
  let value := Decimal.value (num.takeWhile Decimal.isDigit)
  if value < 2 ^ 64 then .ok value else .error .lengthOutOfRange

theorem stoull_lt {num : Bytes} {len : Nat} (read : stoull num = .ok len) : len < 2 ^ 64 := by
  unfold stoull at read
  dsimp only at read
  split at read
  · cases read
    assumption
  · cases read

theorem stoull_of_digits {num : Bytes} (digits : ∀ byte ∈ num, Decimal.isDigit byte = true) :
    stoull num =
      if Decimal.value num < 2 ^ 64 then .ok (Decimal.value num) else .error .lengthOutOfRange := by
  have whole : num.takeWhile Decimal.isDigit = num := List.takeWhile_eq_self_iff.mpr digits
  simp only [stoull, whole]

theorem value_of_stoull {num : Bytes} {len : Nat} (digits : ∀ byte ∈ num, Decimal.isDigit byte = true)
    (read : stoull num = .ok len) : Decimal.value num = len := by
  rw [stoull_of_digits digits] at read
  split at read
  · cases read
    rfl
  · cases read

def parseInteger (data : Bytes) (pos : Nat) : Outcome DecodeError (BencodeValue × Nat) :=
  let start := pos + 1
  let pos := scanTo data Token.stop start
  if data.length ≤ pos then .thrown .unterminatedInteger
  else
    let num := substr data start (pos - start)
    if num.isEmpty then .thrown .emptyInteger
    else if (afterSign num).all Decimal.isDigit = false then .thrown (.invalidInteger num)
    else
      match stoll num with
      | .error e => .thrown e
      | .ok value => .value (.int value, pos + 1)

def parseString (data : Bytes) (start : Nat) : Outcome DecodeError (BencodeValue × Nat) :=
  let colon := scanTo data Token.colon start
  if data.length ≤ colon then .thrown .malformedString
  else
    match stoull (substr data start (colon - start)) with
    | .error e => .thrown e
    | .ok len =>
      let pos := colon + 1
      -- Both sums are `size_t` and wrap; `substr` then clips to the end of the data.
      if data.length < (pos + len) % 2 ^ 64 then .thrown .stringOutOfBounds
      else .value (.string (substr data pos len), (pos + len) % 2 ^ 64)

/-- `dict[key] = val` on a `std::map`: entries stay sorted by key, the last
binding of a key is kept. -/
def assign (key : Bytes) (val : BencodeValue) :
    List (Bytes × BencodeValue) → List (Bytes × BencodeValue)
  | [] => [(key, val)]
  | (k, v) :: rest =>
    if key = k then (key, val) :: rest
    else if key < k then (key, val) :: (k, v) :: rest
    else (k, v) :: assign key val rest

mutual
def parse (data : Bytes) : Nat → Nat → Outcome DecodeError (BencodeValue × Nat)
  | 0, _ => .unfinished
  | fuel + 1, pos =>
    match data[pos]? with
    | none => .thrown .unexpectedEnd
    | some c =>
      if c = Token.integer then parseInteger data pos
      else if Decimal.isDigit c then parseString data pos
      else if c = Token.list then parseList data fuel (pos + 1) []
      else if c = Token.dict then parseDict data fuel (pos + 1) []
      else .thrown (.unknownType c)

def parseList (data : Bytes) :
    Nat → Nat → List BencodeValue → Outcome DecodeError (BencodeValue × Nat)
  | 0, _, _ => .unfinished
  | fuel + 1, pos, items =>
    match data[pos]? with
    | none => .thrown .unterminatedList
    | some c =>
      if c = Token.stop then .value (.list items, pos + 1)
      else do
        let (item, pos) ← parse data fuel pos
        parseList data fuel pos (items ++ [item])

def parseDict (data : Bytes) :
    Nat → Nat → List (Bytes × BencodeValue) → Outcome DecodeError (BencodeValue × Nat)
  | 0, _, _ => .unfinished
  | fuel + 1, pos, entries =>
    match data[pos]? with
    | none => .thrown .unterminatedDict
    | some c =>
      if c = Token.stop then .value (.dict entries, pos + 1)
      else do
        let (key, pos) ← parse data fuel pos
        match key with
        | .string key =>
          let (val, pos) ← parse data fuel pos
          parseDict data fuel pos (assign key val entries)
        | _ => .thrown .dictKeyNotString
end

def decode (data : Bytes) (fuel pos : Nat) : Outcome DecodeError (BencodeValue × Nat) :=
  parse data fuel pos

/-! ## The bound is immaterial once it is large enough -/

private theorem bound_succ (data : Bytes) (fuel : Nat) :
    (∀ pos, parse data fuel pos ≠ .unfinished →
      parse data (fuel + 1) pos = parse data fuel pos) ∧
    (∀ pos items, parseList data fuel pos items ≠ .unfinished →
      parseList data (fuel + 1) pos items = parseList data fuel pos items) ∧
    (∀ pos entries, parseDict data fuel pos entries ≠ .unfinished →
      parseDict data (fuel + 1) pos entries = parseDict data fuel pos entries) := by
  induction fuel with
  | zero => exact ⟨fun _ h => (h rfl).elim, fun _ _ h => (h rfl).elim, fun _ _ h => (h rfl).elim⟩
  | succ fuel ih =>
    obtain ⟨parseSame, listSame, dictSame⟩ := ih
    -- The callers pass the smaller bound on, so each call they make has finished too.
    refine ⟨fun pos finished => ?_, fun pos items finished => ?_, fun pos entries finished => ?_⟩
    · rw [parse] at finished ⊢
      rw [parse]
      split <;> try rfl
      rename_i c found
      simp only [found] at finished
      split_ifs at finished ⊢
      · rfl
      · rfl
      · exact listSame _ _ finished
      · exact dictSame _ _ finished
      · rfl
    · rw [parseList] at finished ⊢
      rw [parseList]
      split <;> try rfl
      rename_i c found
      simp only [found] at finished
      split_ifs at finished ⊢
      · rfl
      · exact Outcome.bind_congr_of_finished finished (parseSame _)
          fun _ _ rest => listSame _ _ rest
    · rw [parseDict] at finished ⊢
      rw [parseDict]
      split <;> try rfl
      rename_i c found
      simp only [found] at finished
      split_ifs at finished ⊢
      · rfl
      · refine Outcome.bind_congr_of_finished finished (parseSame _) fun key _ rest => ?_
        obtain ⟨key, next⟩ := key
        cases key with
        | string bytes =>
          exact Outcome.bind_congr_of_finished rest (parseSame _) fun _ _ rest => dictSame _ _ rest
        | _ => rfl

theorem parse_of_le {data : Bytes} {fuel fuel' pos : Nat} (le : fuel ≤ fuel')
    (finished : parse data fuel pos ≠ .unfinished) :
    parse data fuel' pos = parse data fuel pos := by
  induction le with
  | refl => rfl
  | step le ih =>
    have same := (bound_succ data _).1 pos (ih ▸ finished)
    exact same.trans ih

theorem parseList_of_le {data : Bytes} {fuel fuel' pos : Nat} {items : List BencodeValue}
    (le : fuel ≤ fuel') (finished : parseList data fuel pos items ≠ .unfinished) :
    parseList data fuel' pos items = parseList data fuel pos items := by
  induction le with
  | refl => rfl
  | step le ih =>
    have same := (bound_succ data _).2.1 pos items (ih ▸ finished)
    exact same.trans ih

theorem parseDict_of_le {data : Bytes} {fuel fuel' pos : Nat}
    {entries : List (Bytes × BencodeValue)} (le : fuel ≤ fuel')
    (finished : parseDict data fuel pos entries ≠ .unfinished) :
    parseDict data fuel' pos entries = parseDict data fuel pos entries := by
  induction le with
  | refl => rfl
  | step le ih =>
    have same := (bound_succ data _).2.2 pos entries (ih ▸ finished)
    exact same.trans ih

/-! ## One round of each loop -/

section
variable {data : Bytes} {p : Nat} {c : UInt8} (found : data[p]? = some c) (more : c ≠ Token.stop)
include found more

theorem parseList_next {first second next : Nat} {item : BencodeValue} {items : List BencodeValue}
    (parsed : parse data first p = .value (item, next))
    (finished : parseList data second next (items ++ [item]) ≠ .unfinished) :
    parseList data (max first second + 1) p items =
      parseList data second next (items ++ [item]) := by
  have same := parse_of_le (Nat.le_max_left first second) (Outcome.finished_of_value parsed)
  rw [parseList]
  simp only [found, if_neg more, same, parsed, Outcome.value_bind]
  exact parseList_of_le (Nat.le_max_right first second) finished

theorem parseList_thrown {fuel : Nat} {items : List BencodeValue} {e : DecodeError}
    (failed : parse data fuel p = .thrown e) :
    parseList data (fuel + 1) p items = .thrown e := by
  rw [parseList]
  simp only [found, if_neg more, failed, Outcome.thrown_bind]

theorem parseDict_next {first second third mid next : Nat} {key : Bytes} {val : BencodeValue}
    {entries : List (Bytes × BencodeValue)}
    (keyParsed : parse data first p = .value (.string key, mid))
    (valParsed : parse data second mid = .value (val, next))
    (finished : parseDict data third next (assign key val entries) ≠ .unfinished) :
    parseDict data (max first (max second third) + 1) p entries =
      parseDict data third next (assign key val entries) := by
  have keySame := parse_of_le (Nat.le_max_left first (max second third)) (Outcome.finished_of_value keyParsed)
  have valSame := parse_of_le
    (Nat.le_trans (Nat.le_max_left second third) (Nat.le_max_right first _))
    (Outcome.finished_of_value valParsed)
  rw [parseDict]
  simp only [found, if_neg more, keySame, keyParsed, valSame, valParsed, Outcome.value_bind]
  exact parseDict_of_le
    (Nat.le_trans (Nat.le_max_right second third) (Nat.le_max_right first _)) finished

theorem parseDict_key_thrown {fuel : Nat} {entries : List (Bytes × BencodeValue)} {e : DecodeError}
    (failed : parse data fuel p = .thrown e) :
    parseDict data (fuel + 1) p entries = .thrown e := by
  rw [parseDict]
  simp only [found, if_neg more, failed, Outcome.thrown_bind]

theorem parseDict_key_not_string {fuel next : Nat} {entries : List (Bytes × BencodeValue)}
    {key : BencodeValue} (parsed : parse data fuel p = .value (key, next))
    (other : ∀ bytes, key ≠ .string bytes) :
    parseDict data (fuel + 1) p entries = .thrown .dictKeyNotString := by
  rw [parseDict]
  simp only [found, if_neg more, parsed, Outcome.value_bind]

theorem parseDict_val_thrown {first second mid : Nat} {key : Bytes}
    {entries : List (Bytes × BencodeValue)} {e : DecodeError}
    (keyParsed : parse data first p = .value (.string key, mid))
    (failed : parse data second mid = .thrown e) :
    parseDict data (max first second + 1) p entries = .thrown e := by
  have keySame := parse_of_le (Nat.le_max_left first second) (Outcome.finished_of_value keyParsed)
  have valSame := parse_of_le (Nat.le_max_right first second) (Outcome.finished_of_thrown failed)
  rw [parseDict]
  simp only [found, if_neg more, keySame, keyParsed, valSame, failed, Outcome.value_bind,
    Outcome.thrown_bind]

end

/-- `parse`, called at `pos`, returns `v` and leaves the position at `next`. -/
def Returns (data : Bytes) (pos : Nat) (v : BencodeValue) (next : Nat) : Prop :=
  ∃ fuel, parse data fuel pos = .value (v, next)

/-- `parse`, called at `pos`, returns or throws. -/
def Terminates (data : Bytes) (pos : Nat) : Prop := ∃ fuel, parse data fuel pos ≠ .unfinished

theorem Returns.eq {data : Bytes} {pos fuel next : Nat} {v : BencodeValue}
    (returns : Returns data pos v next) (finished : parse data fuel pos ≠ .unfinished) :
    parse data fuel pos = .value (v, next) := by
  obtain ⟨fuel', returned⟩ := returns
  rw [← parse_of_le (Nat.le_max_left fuel fuel') finished,
    parse_of_le (Nat.le_max_right fuel fuel') (Outcome.finished_of_value returned), returned]

end K0Torrent
