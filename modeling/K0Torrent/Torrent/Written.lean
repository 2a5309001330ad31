import K0Torrent.Bencode.Record
import K0Torrent.Bencode.Truncated
import K0Torrent.Library.Chunks
import K0Torrent.Torrent.Accepted
import K0Torrent.Torrent.InfoHash

/-! Writing a torrent down, and reading it back.

The source has no function that writes a `.torrent` file. This one writes each field under the
key at which `parse_torrent` looks for it, in the canonical encoding.
-/

set_option autoImplicit false

namespace K0Torrent

open BencodeValue Truncation

def FileInfo.record (file : FileInfo) : Record :=
  [(ascii "length", some (.int file.length)), (ascii "path", some (.list (file.path.map .string)))]

def FileInfo.value (file : FileInfo) : BencodeValue := .dict (Record.dict file.record)

/-- A text is left out if it is empty. -/
def textField (bytes : Bytes) : Option BencodeValue :=
  if bytes = [] then none else some (.string bytes)

def tierValue (tier : List Bytes) : BencodeValue := .list (tier.map .string)

/-- The tiers are left out if there are none. -/
def tiersField (tiers : List (List Bytes)) : Option BencodeValue :=
  if tiers.isEmpty then none else some (.list (tiers.map tierValue))

namespace TorrentFile

variable (torrent : TorrentFile)

def filesField : Option BencodeValue :=
  if torrent.isMultiFile then some (.list (torrent.files.map FileInfo.value)) else none

def lengthField : Option BencodeValue :=
  if torrent.isMultiFile then none else some (.int torrent.length)

def infoRecord : Record :=
  [(ascii "files", torrent.filesField), (ascii "length", torrent.lengthField),
    (ascii "name", some (.string torrent.name)),
    (ascii "piece length", some (.int torrent.pieceLength)),
    (ascii "pieces", some (.string (torrent.pieces.flatMap Vector.toList)))]

def info : List (Bytes × BencodeValue) := Record.dict torrent.infoRecord

/-- What stands in front of the info dictionary. -/
def frontRecord : Record :=
  [(ascii "announce", textField torrent.announce),
    (ascii "announce-list", tiersField torrent.announceList),
    (ascii "comment", textField torrent.comment),
    (ascii "created by", textField torrent.createdBy),
    (ascii "creation date", torrent.creationDate.map .int)]

def rootRecord : Record := torrent.frontRecord ++ [(ascii "info", some (.dict torrent.info))]

def root : List (Bytes × BencodeValue) := Record.dict torrent.rootRecord

/-- The bytes of the file. -/
def written : Bytes := encode (.dict torrent.root)

/-- Where its key `info` stands. -/
def infoPos : Nat := 1 + (encodeEntries (Record.dict torrent.frontRecord)).length

theorem sorted_infoRecord : torrent.infoRecord.Sorted := by
  have sorted : [ascii "files", ascii "length", ascii "name", ascii "piece length",
      ascii "pieces"].Pairwise (· < ·) := by decide
  exact sorted

theorem sorted_rootRecord : torrent.rootRecord.Sorted := by
  have sorted : [ascii "announce", ascii "announce-list", ascii "comment", ascii "created by",
      ascii "creation date", ascii "info"].Pairwise (· < ·) := by decide
  exact sorted

theorem sorted_record (file : FileInfo) : file.record.Sorted := by
  have sorted : [ascii "length", ascii "path"].Pairwise (· < ·) := by decide
  exact sorted

end TorrentFile

/-! ## The written values are values of the source -/

theorem native_strings (texts : List Bytes) : Native (.list (texts.map .string)) := by
  refine nativeItems_of_forall fun item member => ?_
  obtain ⟨bytes, -, rfl⟩ := List.mem_map.mp member
  trivial

theorem native_textField {bytes : Bytes} {val : BencodeValue} (there : textField bytes = some val) :
    Native val := by
  unfold textField at there
  split at there
  · cases there
  · cases there
    trivial

theorem native_tiersField {tiers : List (List Bytes)} {val : BencodeValue}
    (there : tiersField tiers = some val) : Native val := by
  unfold tiersField at there
  split at there
  · cases there
  · cases there
    refine nativeItems_of_forall fun item member => ?_
    obtain ⟨tier, -, rfl⟩ := List.mem_map.mp member
    exact native_strings tier

theorem FileInfo.native {file : FileInfo} (fits : IsInt64 file.length) : Native file.value := by
  refine Record.native_dict (TorrentFile.sorted_record file) fun key val member => ?_
  simp only [FileInfo.record, List.mem_cons, Prod.mk.injEq, Option.some.injEq,
    List.not_mem_nil, or_false] at member
  rcases member with ⟨-, rfl⟩ | ⟨-, rfl⟩
  · exact fits
  · exact native_strings file.path

namespace TorrentFile

variable {torrent : TorrentFile}

theorem native_info (sizes : Int64Sizes torrent) : Native (.dict torrent.info) := by
  refine Record.native_dict torrent.sorted_infoRecord fun key val member => ?_
  simp only [infoRecord, List.mem_cons, Prod.mk.injEq, Option.some.injEq, List.not_mem_nil,
    or_false] at member
  rcases member with ⟨-, files⟩ | ⟨-, length⟩ | ⟨-, rfl⟩ | ⟨-, rfl⟩ | ⟨-, rfl⟩
  · unfold filesField at files
    split at files
    · cases files
      refine nativeItems_of_forall fun item member => ?_
      obtain ⟨file, listed, rfl⟩ := List.mem_map.mp member
      exact FileInfo.native (sizes.files file listed)
    · cases files
  · unfold lengthField at length
    split at length
    · cases length
    · cases length
      exact sizes.length
  · trivial
  · exact sizes.pieceLength
  · trivial

theorem native_root (sizes : Int64Sizes torrent)
    (date : ∀ date, torrent.creationDate = some date → IsInt64 date) :
    Native (.dict torrent.root) := by
  refine Record.native_dict torrent.sorted_rootRecord fun key val member => ?_
  simp only [rootRecord, frontRecord, List.cons_append, List.nil_append, List.mem_cons,
    Prod.mk.injEq, Option.some.injEq, List.not_mem_nil, or_false] at member
  rcases member with ⟨-, there⟩ | ⟨-, there⟩ | ⟨-, there⟩ | ⟨-, there⟩ | ⟨-, there⟩ | ⟨-, rfl⟩
  · exact native_textField there.symm
  · exact native_tiersField there.symm
  · exact native_textField there.symm
  · exact native_textField there.symm
  · obtain ⟨found, dated, rfl⟩ := Option.map_eq_some_iff.mp there.symm
    exact date found dated
  · exact native_info sizes

end TorrentFile

/-! ## Reading the fields -/

theorem mapAll_map {A B : Type} {read : A → Parsed B} {write : B → A} {items : List B}
    (reads : ∀ b ∈ items, read (write b) = .value b) : mapAll read (items.map write) = .value items := by
  induction items with
  | nil => rfl
  | cons b items ih =>
    obtain ⟨first, later⟩ := List.forall_mem_cons.mp reads
    simp only [List.map_cons, mapAll, first, ih later, Outcome.value_bind]
    rfl

theorem asString_strings (texts : List Bytes) :
    mapAll asString (texts.map BencodeValue.string) = .value texts :=
  mapAll_map fun _ _ => rfl

theorem hashAt_append (front : Bytes) (digest : Digest) (rest : Bytes) :
    hashAt (front ++ (digest.toList ++ rest)) front.length = digest := by
  apply Vector.ext
  intro k inside
  have here : (front ++ (digest.toList ++ rest)).getD (front.length + k) 0 = digest[k] := by
    rw [List.getD_eq_getElem?_getD, List.getElem?_append_right (Nat.le_add_right ..),
      Nat.add_sub_cancel_left, List.getElem?_append_left (by simpa using inside)]
    simp [inside]
  simpa [hashAt] using here

theorem splitPieces_flatMap (pieces : List Digest) :
    splitPieces (pieces.flatMap Vector.toList) = .value pieces := by
  have total : (pieces.flatMap Vector.toList).length = pieces.length * 20 := by
    induction pieces with
    | nil => rfl
    | cons piece pieces ih =>
      rw [List.flatMap_cons, List.length_append, ih, Vector.length_toList, List.length_cons]
      omega
  have found := Chunks.map_read_flatMap (fun digest : Digest => Vector.length_toList)
    hashAt_append pieces []
  simp only [List.nil_append, List.length_nil, Nat.zero_add, List.map_id'] at found
  simp only [splitPieces, total, Nat.mul_mod_left, Nat.mul_div_cancel _ (show 0 < 20 by decide)]
  simpa [Nat.mul_comm] using found

theorem parseFile_value (file : FileInfo) : parseFile file.value = .value file := by
  have bound := Record.lookup_dict (TorrentFile.sorted_record file)
  have length : (Record.dict file.record).lookup (ascii "length") = some (.int file.length) :=
    bound (ascii "length")
  have path : (Record.dict file.record).lookup (ascii "path") =
    some (.list (file.path.map .string)) := bound (ascii "path")
  simp only [parseFile, FileInfo.value, asDict, dictAt, length, path, asInt, asList,
    asString_strings, Outcome.value_bind]
  rfl

section
variable {dict : List (Bytes × BencodeValue)} {key : Bytes}

theorem required_of_lookup {A : Type} {missing : MetainfoError} {read : BencodeValue → Parsed A}
    {val : BencodeValue} (found : dict.lookup key = some val) :
    required dict key missing read = read val := by
  rw [required, found]

theorem optional_textField {bytes : Bytes} (found : dict.lookup key = textField bytes) :
    optional dict key asString [] = .value bytes := by
  rw [optional, found, textField]
  split_ifs with none_
  · rw [none_]
  · rfl

theorem optional_tiersField {tiers : List (List Bytes)} (found : dict.lookup key = tiersField tiers) :
    optional dict key (fun val => do parseAnnounceList (← val.asList)) [] = .value tiers := by
  rw [optional, found, tiersField]
  split_ifs with none_
  · rw [List.isEmpty_iff.mp none_]
  · exact mapAll_map fun tier _ => asString_strings tier

theorem optional_date {date : Option Int} (found : dict.lookup key = date.map .int) :
    optional dict key (fun val => do return some (← val.asInt)) none = .value date := by
  rw [optional, found]
  cases date <;> rfl

end

namespace TorrentFile

variable {torrent : TorrentFile}

theorem parseLayout_info (sizes : Int64Sizes torrent) :
    parseLayout torrent.info = .value (torrent.files, torrent.length) := by
  have bound := Record.lookup_dict torrent.sorted_infoRecord
  have files : torrent.info.lookup (ascii "files") = torrent.filesField :=
    (bound (ascii "files")).trans (Option.join_some ..)
  have length : torrent.info.lookup (ascii "length") = torrent.lengthField :=
    (bound (ascii "length")).trans (Option.join_some ..)
  rw [parseLayout, files, filesField]
  by_cases multi : torrent.isMultiFile = true
  · have read : mapAll parseFile (torrent.files.map FileInfo.value) = .value torrent.files :=
      mapAll_map fun file _ => parseFile_value file
    have some_ : torrent.files ≠ [] := by
      intro none_
      simp [isMultiFile, none_] at multi
    simp only [if_pos multi, asList, parseFiles, read, sizes.single some_, Outcome.value_bind]
    rfl
  · have none_ : torrent.files = [] := by simpa [isMultiFile] using multi
    rw [lengthField, if_neg multi] at length
    simp only [if_neg multi, required, length, asInt, none_, Outcome.value_bind]
    rfl

/-- What is written is read, except for the hash, which is not written. -/
theorem readFields_root (sizes : Int64Sizes torrent) (infoHash : Digest) :
    readFields torrent.root infoHash = .value { torrent with infoHash } := by
  have bound := Record.lookup_dict torrent.sorted_rootRecord
  have boundInfo := Record.lookup_dict torrent.sorted_infoRecord
  have announce := optional_textField ((bound (ascii "announce")).trans (Option.join_some ..))
  have tiers := optional_tiersField ((bound (ascii "announce-list")).trans (Option.join_some ..))
  have comment := optional_textField ((bound (ascii "comment")).trans (Option.join_some ..))
  have createdBy := optional_textField ((bound (ascii "created by")).trans (Option.join_some ..))
  have date := optional_date ((bound (ascii "creation date")).trans (Option.join_some ..))
  have info : torrent.root.lookup (ascii "info") = some (.dict torrent.info) := bound (ascii "info")
  have name : required torrent.info (ascii "name") .missingName asString = .value torrent.name :=
    required_of_lookup (boundInfo (ascii "name"))
  have pieceLength : required torrent.info (ascii "piece length") .missingPieceLength asInt =
      .value torrent.pieceLength := required_of_lookup (boundInfo (ascii "piece length"))
  have pieces : required torrent.info (ascii "pieces") .missingPieces
      (fun val => do splitPieces (← val.asString)) = .value torrent.pieces :=
    (required_of_lookup (boundInfo (ascii "pieces"))).trans (splitPieces_flatMap torrent.pieces)
  unfold root at info
  simp only [readFields, root, announce, tiers, comment, createdBy, date, dictAt, info, asDict,
    name, pieceLength, pieces, parseLayout_info sizes, Outcome.value_bind]
  rfl

/-! ## The whole file -/

variable (torrent) in
theorem written_eq : torrent.written = Token.dict :: (encodeEntries (Record.dict torrent.frontRecord) ++
    (infoKey ++ (encode (.dict torrent.info) ++ [Token.stop]))) := by
  have key : encodeString (ascii "info") = infoKey := by decide
  have entries : torrent.root =
      Record.dict torrent.frontRecord ++ [(ascii "info", .dict torrent.info)] :=
    Record.dict_append ..
  simp only [written, entries, encode, encodeEntries_append, encodeEntries, key, List.append_assoc,
    List.append_nil]

section
variable {sha1 : Bytes → Digest}

/-- Reading a written torrent gives the torrent, and a file of which the end is missing is no
torrent at all. -/
theorem accepts_written (sizes : Int64Sizes torrent)
    (date : ∀ date, torrent.creationDate = some date → IsInt64 date)
    (size : torrent.written.length < 2 ^ 63)
    (first : find torrent.written infoKey = some torrent.infoPos) :
    Accepts sha1 torrent.written { torrent with infoHash := sha1 (encode (.dict torrent.info)) } ∧
      ∀ cut, Cut cut torrent.written →
        ∃ fuel e, parseTorrent sha1 cut fuel = .thrown (.decode e) := by
  have native := native_root sizes date
  constructor
  · refine accepts_encode native (native_info sizes) rfl
      (Token.dict :: (encodeEntries (Record.dict torrent.frontRecord) ++ infoKey)) [Token.stop]
      ?_ size first ?_ (readFields_root sizes _)
    · rw [written_eq]
      simp only [List.cons_append, List.append_assoc]
    · rw [infoPos, List.length_cons, List.length_append]
      omega
  · intro cut truncated
    have short : 0 + torrent.written.length < 2 ^ 64 := by omega
    obtain ⟨fuel, e, failed⟩ := (derives_encode _ native).throws List.drop_zero truncated short
    refine ⟨fuel, e, ?_⟩
    rw [parseTorrent, decodeAt, decode, failed]
    rfl

end

/-- Two files, two tiers, and no comment. -/
def twoFiles : TorrentFile where
  infoHash := hashAt [] 0
  name := ascii "n"
  announce := ascii "udp://t:1"
  announceList := [[ascii "udp://t:1", ascii "http://u/a"], []]
  pieceLength := 16384
  pieces := [hashAt (ascii "AAAAAAAAAAAAAAAAAAAA") 0]
  length := 0
  files := [⟨3, [ascii "d", ascii "a"]⟩, ⟨4, [ascii "b"]⟩]
  comment := []
  createdBy := ascii "k0"
  creationDate := some 1

theorem accepts_written_twoFiles :
    Accepts (hashAt · 0) twoFiles.written
        { twoFiles with infoHash := hashAt (encode (.dict twoFiles.info)) 0 } ∧
      ∃ fuel e, parseTorrent (hashAt · 0) (twoFiles.written.take 40) fuel = .thrown (.decode e) := by
  have sizes : Int64Sizes twoFiles := ⟨by decide, by decide, by decide, fun _ => rfl⟩
  have date : ∀ date, twoFiles.creationDate = some date → IsInt64 date := by
    rintro _ same
    cases same
    decide
  obtain ⟨read, truncated⟩ := @accepts_written twoFiles (hashAt · 0) sizes date
    (by decide +kernel) (by decide +kernel)
  exact ⟨read, truncated _ ⟨List.take_prefix .., by decide +kernel⟩⟩

end TorrentFile

end K0Torrent
