import K0Torrent.Bencode.Canonical
import K0Torrent.Torrent.Metainfo

/-! What is accepted, and what the accepted torrents hold. -/

set_option autoImplicit false

namespace K0Torrent

open BencodeValue

theorem returns_whole {raw : Bytes} {v : BencodeValue} (native : Native v) (whole : raw = encode v)
    (size : raw.length < 2 ^ 63) : Returns raw 0 v raw.length := by
  have returned := returns_encode native [] [] (by rwa [List.nil_append, List.append_nil, ← whole])
  rw [List.nil_append, List.append_nil, ← whole, List.length_nil, Nat.zero_add] at returned
  exact returned

/-- An encoded dictionary is accepted if it has the fields, and its first `4:info` is
the key of the info dictionary. -/
theorem accepts_encode {sha1 : Bytes → Digest} {raw : Bytes} {root : List (Bytes × BencodeValue)}
    {info : BencodeValue} {torrent : TorrentFile} (native : Native (.dict root))
    (nativeInfo : Native info) (whole : raw = encode (.dict root)) (front back : Bytes)
    (part : raw = front ++ encode info ++ back) (size : raw.length < 2 ^ 63) {key : Nat}
    (found : find raw infoKey = some key) (behind : key + infoKey.length = front.length)
    (fields : readFields root (sha1 (encode info)) = .value torrent) : Accepts sha1 raw torrent := by
  have infoRead := returns_encode nativeInfo front back (part ▸ size)
  rw [← part] at infoRead
  refine accepts_of_returns (returns_whole native whole size) ?_ infoRead ?_
  · rw [findInfoStart, found]
    exact congrArg Outcome.value behind
  · have counted : (front.length + (encode info).length + 2 ^ 64 - front.length) % 2 ^ 64 =
        (encode info).length := by
      rw [part, List.length_append, List.length_append] at size
      omega
    rw [counted, part, List.append_assoc, substr, List.drop_left, List.take_left]
    exact fields

/-- What `readFields` finds in the root dictionary. -/
structure ReadFrom (root : List (Bytes × BencodeValue)) (torrent : TorrentFile) : Prop where
  announce : optional root (ascii "announce") asString [] = .value torrent.announce
  announceList : optional root (ascii "announce-list")
    (fun val => do parseAnnounceList (← val.asList)) [] = .value torrent.announceList
  info : ∃ info, root.lookup (ascii "info") = some (.dict info) ∧
    required info (ascii "piece length") .missingPieceLength asInt = .value torrent.pieceLength ∧
    parseLayout info = .value (torrent.files, torrent.length)

theorem asDict_eq_value {v : BencodeValue} {entries : List (Bytes × BencodeValue)}
    (read : v.asDict = .value entries) : v = .dict entries := by
  cases v <;> cases read
  rfl

theorem asInt_eq_value {v : BencodeValue} {n : Int} (read : v.asInt = .value n) : v = .int n := by
  cases v <;> cases read
  rfl

theorem asList_eq_value {v : BencodeValue} {items : List BencodeValue}
    (read : v.asList = .value items) : v = .list items := by
  cases v <;> cases read
  rfl

theorem dictAt_eq_value {dict : List (Bytes × BencodeValue)} {key : Bytes} {val : BencodeValue}
    (read : dictAt dict key = .value val) : dict.lookup key = some val := by
  unfold dictAt at read
  split at read
  · cases read
    assumption
  · cases read

theorem readFrom_of_readFields {root : List (Bytes × BencodeValue)} {infoHash : Digest}
    {torrent : TorrentFile} (read : readFields root infoHash = .value torrent) :
    ReadFrom root torrent := by
  unfold readFields at read
  obtain ⟨announce, announceRead, read⟩ := Outcome.bind_eq_value.mp read
  obtain ⟨announceList, listRead, read⟩ := Outcome.bind_eq_value.mp read
  obtain ⟨_, _, read⟩ := Outcome.bind_eq_value.mp read
  obtain ⟨_, _, read⟩ := Outcome.bind_eq_value.mp read
  obtain ⟨_, _, read⟩ := Outcome.bind_eq_value.mp read
  obtain ⟨infoValue, infoFound, read⟩ := Outcome.bind_eq_value.mp read
  obtain ⟨info, infoRead, read⟩ := Outcome.bind_eq_value.mp read
  obtain ⟨_, _, read⟩ := Outcome.bind_eq_value.mp read
  obtain ⟨pieceLength, widthRead, read⟩ := Outcome.bind_eq_value.mp read
  obtain ⟨_, _, read⟩ := Outcome.bind_eq_value.mp read
  obtain ⟨⟨files, length⟩, layoutRead, read⟩ := Outcome.bind_eq_value.mp read
  cases read
  refine ⟨announceRead, listRead, info, ?_, widthRead, layoutRead⟩
  rw [dictAt_eq_value infoFound, asDict_eq_value infoRead]

theorem readFrom_of_accepts {sha1 : Bytes → Digest} {raw : Bytes} {torrent : TorrentFile}
    (accepted : Accepts sha1 raw torrent) :
    ∃ root next, Returns raw 0 (.dict root) next ∧ ReadFrom root torrent := by
  obtain ⟨fuel, parsed⟩ := accepted
  unfold parseTorrent at parsed
  obtain ⟨⟨value, next⟩, decoded, parsed⟩ := Outcome.bind_eq_value.mp parsed
  obtain ⟨root, rootRead, parsed⟩ := Outcome.bind_eq_value.mp parsed
  obtain ⟨infoStart, _, parsed⟩ := Outcome.bind_eq_value.mp parsed
  obtain ⟨⟨_, infoEnd⟩, _, parsed⟩ := Outcome.bind_eq_value.mp parsed
  rw [asDict_eq_value rootRead] at decoded
  exact ⟨root, next, ⟨fuel, decodeAt_eq_value.mp decoded⟩, readFrom_of_readFields parsed⟩

/-! ## The sizes -/

/-- A value of `int64_t`. -/
def IsInt64 (n : Int) : Prop := -2 ^ 63 ≤ n ∧ n < 2 ^ 63

instance (n : Int) : Decidable (IsInt64 n) := inferInstanceAs (Decidable (_ ∧ _))

/-- The sizes of a torrent as the source's types allow them. -/
structure Int64Sizes (torrent : TorrentFile) : Prop where
  pieceLength : IsInt64 torrent.pieceLength
  length : IsInt64 torrent.length
  files : ∀ file ∈ torrent.files, IsInt64 file.length
  single : torrent.files ≠ [] → torrent.length = 0

theorem isInt64_of_required {info : List (Bytes × BencodeValue)} {key : Bytes}
    {missing : MetainfoError} {n : Int} (native : NativeEntries info)
    (read : required info key missing asInt = .value n) : IsInt64 n := by
  unfold required at read
  split at read
  · cases read
  · rename_i val found
    have fits := native_of_lookup native found
    rw [asInt_eq_value read] at fits
    exact fits

theorem isInt64_parseFile {entry : BencodeValue} {file : FileInfo} (native : Native entry)
    (read : parseFile entry = .value file) : IsInt64 file.length := by
  unfold parseFile at read
  obtain ⟨entries, entriesRead, read⟩ := Outcome.bind_eq_value.mp read
  obtain ⟨lengthValue, lengthFound, read⟩ := Outcome.bind_eq_value.mp read
  obtain ⟨length, lengthRead, read⟩ := Outcome.bind_eq_value.mp read
  obtain ⟨_, _, read⟩ := Outcome.bind_eq_value.mp read
  obtain ⟨_, _, read⟩ := Outcome.bind_eq_value.mp read
  obtain ⟨_, _, read⟩ := Outcome.bind_eq_value.mp read
  cases read
  rw [asDict_eq_value entriesRead] at native
  have fits := native_of_lookup native.1 (dictAt_eq_value lengthFound)
  rw [asInt_eq_value lengthRead] at fits
  exact fits

theorem forall_of_mapAll {A B : Type} {read : A → Parsed B} {P : B → Prop} {items : List A} :
    ∀ {results : List B}, (∀ a ∈ items, ∀ b, read a = .value b → P b) →
      mapAll read items = .value results → ∀ b ∈ results, P b := by
  induction items with
  | nil =>
    intro results _ mapped
    cases mapped
    exact List.forall_mem_nil _
  | cons a items ih =>
    intro results each mapped
    rw [mapAll] at mapped
    obtain ⟨b, first, mapped⟩ := Outcome.bind_eq_value.mp mapped
    obtain ⟨bs, rest, mapped⟩ := Outcome.bind_eq_value.mp mapped
    cases mapped
    refine List.forall_mem_cons.mpr ⟨each a (List.mem_cons_self ..) b first, ?_⟩
    exact ih (fun a member => each a (List.mem_cons_of_mem _ member)) rest

theorem int64Sizes_of_accepts {sha1 : Bytes → Digest} {raw : Bytes} {torrent : TorrentFile}
    (accepted : Accepts sha1 raw torrent) : Int64Sizes torrent := by
  obtain ⟨root, next, returns, readFrom⟩ := readFrom_of_accepts accepted
  obtain ⟨info, found, width, layout⟩ := readFrom.info
  have native : NativeEntries info := (native_of_lookup returns.native.1 found).1
  unfold parseLayout at layout
  split at layout
  · rename_i val filesFound
    obtain ⟨items, itemsRead, layout⟩ := Outcome.bind_eq_value.mp layout
    obtain ⟨files, filesRead, layout⟩ := Outcome.bind_eq_value.mp layout
    obtain ⟨rfl, length⟩ := Prod.mk.inj (Outcome.value.inj layout)
    have nativeItems : NativeItems items := by
      have fits := native_of_lookup native filesFound
      rwa [asList_eq_value itemsRead] at fits
    refine ⟨isInt64_of_required native width, ?_, ?_, fun _ => length.symm⟩
    · rw [← length]
      decide
    · exact forall_of_mapAll (fun entry member file read =>
        isInt64_parseFile (native_of_mem nativeItems member) read) filesRead
  · obtain ⟨length, lengthRead, layout⟩ := Outcome.bind_eq_value.mp layout
    obtain ⟨files, rfl⟩ := Prod.mk.inj (Outcome.value.inj layout)
    refine ⟨isInt64_of_required native width, isInt64_of_required native lengthRead, ?_, ?_⟩
    · rw [← files]
      exact List.forall_mem_nil _
    · exact fun some_ => absurd files.symm some_

end K0Torrent
