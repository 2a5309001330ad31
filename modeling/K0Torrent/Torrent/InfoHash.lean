import K0Torrent.Bencode.Encode
import K0Torrent.Torrent.Metainfo

/-! Which bytes `info_hash` is the hash of.

`find_info_start` takes the first `4:info` anywhere in the file for the key of
the info dictionary. In a well-formed file that is the key itself exactly when
no earlier position of the file starts with these six bytes.
-/

set_option autoImplicit false

namespace K0Torrent

open BencodeValue

/-! ## Well-formed files -/

def IsInt (v : BencodeValue) : Prop := ∃ n, v = .int n

def IsString (v : BencodeValue) : Prop := ∃ bytes, v = .string bytes

def IsPieces (v : BencodeValue) : Prop := ∃ bytes, v = .string bytes ∧ bytes.length % 20 = 0

def IsListOf (type : BencodeValue → Prop) (v : BencodeValue) : Prop :=
  ∃ items, v = .list items ∧ ∀ item ∈ items, type item

def UniqueKeys (dict : List (Bytes × BencodeValue)) : Prop := (dict.map Prod.fst).Nodup

/-- `key` is bound, to a value of the type. -/
def Has (dict : List (Bytes × BencodeValue)) (key : Bytes) (type : BencodeValue → Prop) : Prop :=
  ∃ v, dict.lookup key = some v ∧ type v

/-- `key` is unbound or bound to a value of the type. -/
def MayHave (dict : List (Bytes × BencodeValue)) (key : Bytes) (type : BencodeValue → Prop) :
    Prop :=
  ∀ v, dict.lookup key = some v → type v

def IsFile (v : BencodeValue) : Prop :=
  ∃ d, v = .dict d ∧ UniqueKeys d ∧ Has d (ascii "length") IsInt ∧
    Has d (ascii "path") (IsListOf IsString)

structure ValidInfo (info : List (Bytes × BencodeValue)) : Prop where
  unique : UniqueKeys info
  name : Has info (ascii "name") IsString
  pieceLength : Has info (ascii "piece length") IsInt
  pieces : Has info (ascii "pieces") IsPieces
  layout : Has info (ascii "files") (IsListOf IsFile) ∨
    info.lookup (ascii "files") = none ∧ Has info (ascii "length") IsInt

structure ValidRoot (root : List (Bytes × BencodeValue)) : Prop where
  unique : UniqueKeys root
  announce : MayHave root (ascii "announce") IsString
  announceList : MayHave root (ascii "announce-list") (IsListOf (IsListOf IsString))
  comment : MayHave root (ascii "comment") IsString
  createdBy : MayHave root (ascii "created by") IsString
  creationDate : MayHave root (ascii "creation date") IsInt

/-- A file that holds a bencoded root dictionary, split at its key `info`. Other
keys, their values and the order of the keys are free. -/
structure MetainfoText where
  front : List (Bytes × BencodeValue)
  info : List (Bytes × BencodeValue)
  back : List (Bytes × BencodeValue)
  validInfo : ValidInfo info
  validRoot : ValidRoot (front ++ (ascii "info", .dict info) :: back)
  size : (encode (.dict (front ++ (ascii "info", .dict info) :: back))).length < 2 ^ 64

namespace MetainfoText

variable (text : MetainfoText)

def root : List (Bytes × BencodeValue) := text.front ++ (ascii "info", .dict text.info) :: text.back

def raw : Bytes := encode (.dict text.root)

/-- Where the key `info` of the root dictionary stands. -/
def keyPos : Nat := 1 + (encodeEntries text.front).length

/-- Where the value bound to it starts. -/
def start : Nat := text.keyPos + infoKey.length

theorem encodeString_info : encodeString (ascii "info") = infoKey := by decide

theorem raw_eq : text.raw = Token.dict :: (encodeEntries text.front ++
    (infoKey ++ (encode (.dict text.info) ++ (encodeEntries text.back ++ [Token.stop])))) := by
  simp only [raw, root, encode, encodeEntries_append, encodeEntries, encodeString_info,
    List.append_assoc]

theorem drop_keyPos : text.raw.drop text.keyPos =
    infoKey ++ (encode (.dict text.info) ++ (encodeEntries text.back ++ [Token.stop])) := by
  have opened : text.raw.drop 0 = (Token.dict :: encodeEntries text.front) ++
      (infoKey ++ (encode (.dict text.info) ++ (encodeEntries text.back ++ [Token.stop]))) := by
    rw [List.drop_zero, raw_eq, List.cons_append]
  have behind := drop_behind opened
  rwa [List.length_cons, Nat.zero_add, Nat.add_comm] at behind

theorem drop_start : text.raw.drop text.start =
    encode (.dict text.info) ++ (encodeEntries text.back ++ [Token.stop]) :=
  drop_behind text.drop_keyPos

theorem lookup_info : text.root.lookup (ascii "info") = some (.dict text.info) := by
  have absent : ∀ p ∈ text.front, p.1 ≠ ascii "info" := by
    intro p member same
    have unique := text.validRoot.unique
    simp only [UniqueKeys, List.map_append, List.map_cons, List.nodup_append] at unique
    exact unique.2.2 p.1 (List.mem_map.mpr ⟨p, member, rfl⟩) _ (List.mem_cons_self ..) same
  unfold root
  generalize text.front = front at absent
  induction front with
  | nil => exact List.lookup_cons_self
  | cons entry front ih =>
    obtain ⟨key, val⟩ := entry
    rw [List.cons_append, lookup_cons_other (absent _ (List.mem_cons_self ..)).symm]
    exact ih fun p member => absent p (List.mem_cons_of_mem _ member)

end MetainfoText

/-! ## Where the search stops -/

theorem find_eq_some_iff {raw key : Bytes} {pos : Nat} :
    find raw key = some pos ↔
      pos ≤ raw.length ∧ key <+: raw.drop pos ∧ ∀ i < pos, ¬ key <+: raw.drop i := by
  simp only [find, List.findIdx?_eq_some_iff_getElem, List.getElem_tails, List.length_tails,
    List.isPrefixOf_iff_prefix, Nat.lt_succ_iff]
  constructor
  · rintro ⟨bound, here, earlier⟩
    exact ⟨bound, here, earlier⟩
  · rintro ⟨bound, here, earlier⟩
    exact ⟨bound, here, earlier⟩

theorem findInfoStart_eq_iff (text : MetainfoText) :
    findInfoStart text.raw = .value text.start ↔
      ∀ i < text.keyPos, ¬ infoKey <+: text.raw.drop i := by
  have here : infoKey <+: text.raw.drop text.keyPos := by
    rw [text.drop_keyPos]
    exact List.prefix_append ..
  have inside : text.keyPos ≤ text.raw.length := by
    by_contra outside
    rw [List.drop_eq_nil_of_le (by omega)] at here
    exact absurd (List.prefix_nil.mp here) (by decide)
  constructor
  · -- The offset says where the search has stopped, and it stops at the first occurrence.
    intro found
    unfold findInfoStart at found
    split at found
    · cases found
    · rename_i pos first
      have same : pos = text.keyPos := by
        have sum := Outcome.value.inj found
        unfold MetainfoText.start at sum
        omega
      exact same ▸ (find_eq_some_iff.mp first).2.2
  · intro earlier
    have first := find_eq_some_iff.mpr ⟨inside, here, earlier⟩
    simp only [findInfoStart, first]
    rfl

/-! ## Reading the fields -/

/-- The decoder's version of every value of the type is read without an exception. -/
def Reads {A : Type} (read : BencodeValue → Parsed A) (type : BencodeValue → Prop) : Prop :=
  ∀ v, type v → ∃ a, read (stored v) = .value a

theorem reads_asInt : Reads asInt IsInt := by
  rintro v ⟨n, rfl⟩
  exact ⟨n, rfl⟩

theorem reads_asString : Reads asString IsString := by
  rintro v ⟨bytes, rfl⟩
  exact ⟨bytes, rfl⟩

theorem reads_pieces : Reads (fun val => do splitPieces (← val.asString)) IsPieces := by
  rintro v ⟨bytes, rfl, whole⟩
  refine ⟨(List.range (bytes.length / 20)).map fun k => hashAt bytes (20 * k), ?_⟩
  simp only [stored, asString, Outcome.value_bind, splitPieces, whole, ne_eq, not_true_eq_false,
    if_false]

section
variable {A : Type} {read : BencodeValue → Parsed A} {type : BencodeValue → Prop}
  (reads : Reads read type)
include reads

theorem reads_mapAll (items : List BencodeValue) (typed : ∀ item ∈ items, type item) :
    ∃ bs, mapAll read (storedItems items) = .value bs := by
  induction items with
  | nil => exact ⟨[], rfl⟩
  | cons item items ih =>
    obtain ⟨b, first⟩ := reads item (typed _ (List.mem_cons_self ..))
    obtain ⟨bs, rest⟩ := ih fun item member => typed item (List.mem_cons_of_mem _ member)
    refine ⟨b :: bs, ?_⟩
    simp only [storedItems, mapAll, first, rest, Outcome.value_bind, Outcome.pure_eq_value]

theorem reads_list : Reads (fun val => do mapAll read (← val.asList)) (IsListOf type) := by
  rintro v ⟨items, rfl, typed⟩
  exact reads_mapAll reads items typed

variable {dict : List (Bytes × BencodeValue)} (unique : UniqueKeys dict) {key : Bytes}
include unique

theorem reads_dictAt (has : Has dict key type) :
    ∃ v a, dictAt (storedEntries dict []) key = .value v ∧ read v = .value a := by
  obtain ⟨v, found, typed⟩ := has
  obtain ⟨a, same⟩ := reads v typed
  refine ⟨stored v, a, ?_, same⟩
  simp only [dictAt, lookup_storedEntries dict key unique, found]

theorem reads_required (has : Has dict key type) (missing : MetainfoError) :
    ∃ a, required (storedEntries dict []) key missing read = .value a := by
  obtain ⟨v, found, typed⟩ := has
  obtain ⟨a, same⟩ := reads v typed
  refine ⟨a, ?_⟩
  simp only [required, lookup_storedEntries dict key unique, found, same]

theorem reads_optional (may : MayHave dict key type) (absent : A) :
    ∃ a, optional (storedEntries dict []) key read absent = .value a := by
  unfold optional
  rw [lookup_storedEntries dict key unique]
  cases found : dict.lookup key with
  | none => exact ⟨absent, rfl⟩
  | some v => exact reads v (may v found)

end

theorem reads_parseFile : Reads parseFile IsFile := by
  rintro v ⟨d, rfl, unique, length, path⟩
  obtain ⟨lengthVal, n, lengthFound, lengthRead⟩ := reads_dictAt reads_asInt unique length
  obtain ⟨pathVal, parts, pathFound, pathRead⟩ :=
    reads_dictAt (reads_list reads_asString) unique path
  refine ⟨{ length := n, path := parts }, ?_⟩
  obtain ⟨items, pathList, partsRead⟩ := Outcome.bind_eq_value.mp pathRead
  simp only [stored, parseFile, asDict, lengthFound, lengthRead, pathFound, pathList, partsRead,
    Outcome.value_bind, Outcome.pure_eq_value]

theorem parseLayout_reads {info : List (Bytes × BencodeValue)} (valid : ValidInfo info) :
    ∃ layout, parseLayout (storedEntries info []) = .value layout := by
  unfold parseLayout
  rw [lookup_storedEntries info _ valid.unique]
  rcases valid.layout with ⟨val, found, typed⟩ | ⟨absent, length⟩
  · obtain ⟨files, filesRead⟩ := reads_list reads_parseFile val typed
    obtain ⟨items, filesList, parsed⟩ := Outcome.bind_eq_value.mp filesRead
    refine ⟨(files, 0), ?_⟩
    simp only [found, filesList, parseFiles, parsed, Outcome.value_bind, Outcome.pure_eq_value]
  · obtain ⟨n, lengthRead⟩ :=
      reads_required reads_asInt valid.unique length .missingLength
    refine ⟨([], n), ?_⟩
    simp only [absent, List.lookup_nil, lengthRead, Outcome.value_bind, Outcome.pure_eq_value]

theorem reads_creationDate :
    Reads (fun val => do return some (← val.asInt) : BencodeValue → Parsed (Option Int)) IsInt := by
  rintro v ⟨n, rfl⟩
  exact ⟨some n, rfl⟩

theorem readFields_reads (text : MetainfoText) (infoHash : Digest) :
    ∃ torrent, readFields (storedEntries text.root []) infoHash = .value torrent ∧
      torrent.infoHash = infoHash := by
  have root : ValidRoot text.root := text.validRoot
  have valid := text.validInfo
  obtain ⟨announce, announceRead⟩ := reads_optional reads_asString root.unique root.announce []
  obtain ⟨announceList, announceListRead⟩ :=
    reads_optional (reads_list (reads_list reads_asString)) root.unique root.announceList []
  obtain ⟨comment, commentRead⟩ := reads_optional reads_asString root.unique root.comment []
  obtain ⟨createdBy, createdByRead⟩ := reads_optional reads_asString root.unique root.createdBy []
  obtain ⟨creationDate, creationDateRead⟩ :=
    reads_optional reads_creationDate root.unique root.creationDate none
  obtain ⟨name, nameRead⟩ := reads_required reads_asString valid.unique valid.name .missingName
  obtain ⟨pieceLength, pieceLengthRead⟩ :=
    reads_required reads_asInt valid.unique valid.pieceLength .missingPieceLength
  obtain ⟨pieces, piecesRead⟩ :=
    reads_required reads_pieces valid.unique valid.pieces .missingPieces
  obtain ⟨⟨files, length⟩, layoutRead⟩ := parseLayout_reads valid
  have infoFound : dictAt (storedEntries text.root []) (ascii "info") =
      .value (.dict (storedEntries text.info [])) := by
    simp only [dictAt, lookup_storedEntries text.root _ root.unique, text.lookup_info, stored]
  refine ⟨{ infoHash, name, announce, announceList, pieceLength, pieces, length, files, comment,
            createdBy, creationDate }, ?_, rfl⟩
  simp only [readFields, announceRead, commentRead, createdByRead, creationDateRead, infoFound,
    asDict, nameRead, pieceLengthRead, piecesRead, layoutRead, parseAnnounceList, announceListRead,
    Outcome.value_bind]
  rfl

/-! ## The hashed bytes -/

section
variable (text : MetainfoText)

theorem parse_root : ReadsBack (intsFit (.dict text.root)) (fun fuel => parse text.raw fuel 0)
    (.dict (storedEntries text.root [])) (text.raw.length) := by
  have read := parse_encode text.size (.dict text.root) 0 []
    (by rw [List.drop_zero, List.append_nil]; rfl)
  rw [Nat.zero_add] at read
  exact read

theorem parse_info (fits : intsFit (.dict text.root) = true) :
    ∃ fuel, parse text.raw fuel text.start =
      .value (stored (.dict text.info), text.start + (encode (.dict text.info)).length) := by
  have read := parse_encode text.size (.dict text.info) text.start _
    text.drop_start
  have here : intsFit (.dict text.info) = true := by
    rw [intsFit, MetainfoText.root, intsFitEntries_append, intsFitEntries] at fits
    exact (Bool.and_eq_true_iff.mp (Bool.and_eq_true_iff.mp fits).2).1
  rw [here] at read
  exact read

theorem rawInfo_eq : substr text.raw text.start
    ((text.start + (encode (.dict text.info)).length + 2 ^ 64 - text.start) % 2 ^ 64) =
      encode (.dict text.info) := by
  have total := congrArg List.length text.drop_start
  have size : text.raw.length < 2 ^ 64 := text.size
  simp only [List.length_drop, List.length_append] at total
  have count : (text.start + (encode (.dict text.info)).length + 2 ^ 64 - text.start) % 2 ^ 64 =
      (encode (.dict text.info)).length := by
    rw [Nat.add_assoc, Nat.add_sub_cancel_left, Nat.add_mod_right]
    exact Nat.mod_eq_of_lt (by omega)
  rw [count]
  exact substr_of_drop text.drop_start

/-- `parse_torrent` accepts the file, re-enters the decoder at the value of the
root's key `info` and hashes that value's bytes. -/
def HashesInfo (sha1 : Bytes → Digest) : Prop :=
  findInfoStart text.raw = .value text.start ∧
    ∃ torrent, Accepts sha1 text.raw torrent ∧ torrent.infoHash = sha1 (encode (.dict text.info))

theorem hashesInfo_iff (sha1 : Bytes → Digest) :
    HashesInfo text sha1 ↔
      intsFit (.dict text.root) = true ∧ ∀ i < text.keyPos, ¬ infoKey <+: text.raw.drop i := by
  unfold HashesInfo
  rw [findInfoStart_eq_iff]
  constructor
  · rintro ⟨earlier, torrent, ⟨fuel, accepted⟩, -⟩
    refine ⟨?_, earlier⟩
    obtain ⟨⟨root, next⟩, decoded, -⟩ := Outcome.bind_eq_value.mp accepted
    have returned := decodeAt_eq_value.mp decoded
    have read := parse_root text
    cases fits : intsFit (.dict text.root) with
    | true => rfl
    | false =>
      rw [fits] at read
      obtain ⟨fuel', e, failed⟩ := read
      have one := parse_of_le (Nat.le_max_left fuel fuel') (Outcome.finished_of_value returned)
      have other := parse_of_le (Nat.le_max_right fuel fuel') (Outcome.finished_of_thrown failed)
      rw [one, returned] at other
      exact nomatch other.trans failed
  · rintro ⟨fits, earlier⟩
    refine ⟨earlier, ?_⟩
    have found := (findInfoStart_eq_iff text).mpr earlier
    have rootRead := parse_root text
    rw [fits] at rootRead
    obtain ⟨torrent, fieldsRead, hashed⟩ := readFields_reads text (sha1 (encode (.dict text.info)))
    refine ⟨torrent, accepts_of_returns rootRead found (parse_info text fits) ?_, hashed⟩
    rw [rawInfo_eq]
    exact fieldsRead

end

/-! ## A comment that mentions the key -/

theorem mayHave_of_absent {dict : List (Bytes × BencodeValue)} {key : Bytes}
    (absent : dict.lookup key = none) (type : BencodeValue → Prop) : MayHave dict key type := by
  intro v found
  rw [absent] at found
  cases found

def commentText : MetainfoText where
  front := [(ascii "comment", .string (ascii "4:info"))]
  info := [(ascii "length", .int 1), (ascii "name", .string (ascii "a")),
    (ascii "piece length", .int 1), (ascii "pieces", .string (ascii "AAAAAAAAAAAAAAAAAAAA"))]
  back := []
  validInfo := {
    unique := by unfold UniqueKeys; decide
    name := ⟨_, rfl, _, rfl⟩
    pieceLength := ⟨_, rfl, _, rfl⟩
    pieces := ⟨_, rfl, _, rfl, rfl⟩
    layout := .inr ⟨rfl, _, rfl, _, rfl⟩ }
  validRoot := {
    unique := by unfold UniqueKeys; decide
    announce := mayHave_of_absent rfl _
    announceList := mayHave_of_absent rfl _
    comment := fun _ found => ⟨_, (Option.some.inj found).symm⟩
    createdBy := mayHave_of_absent rfl _
    creationDate := mayHave_of_absent rfl _ }
  size := by decide

/-- What `parse_torrent` makes of it. -/
def commentTorrent (sha1 : Bytes → Digest) : TorrentFile where
  infoHash := sha1 (ascii "4:info")
  name := ascii "a"
  announce := []
  announceList := []
  pieceLength := 1
  pieces := [hashAt (ascii "AAAAAAAAAAAAAAAAAAAA") 0]
  length := 1
  files := []
  comment := ascii "4:info"
  createdBy := []
  creationDate := none

theorem comment_hashed :
    commentText.raw = ascii ("d7:comment6:4:info4:infod6:lengthi1e4:name1:a12:piece lengthi1e" ++
      "6:pieces20:AAAAAAAAAAAAAAAAAAAAee") ∧
    findInfoStart commentText.raw = .value 18 ∧ commentText.start = 24 ∧
    (∀ sha1, Accepts sha1 commentText.raw (commentTorrent sha1)) ∧
    ¬ ∃ sha1, HashesInfo commentText sha1 := by
  refine ⟨by decide, rfl, by decide, fun sha1 => ⟨9, rfl⟩, ?_⟩
  rintro ⟨sha1, found, -⟩
  cases found

end K0Torrent
