import K0Torrent.Bencode.Decode
import K0Torrent.Torrent.TorrentFile
import Mathlib.Data.List.Infix

/-! Reading a `.torrent` file (`metainfo.cpp`), from the bytes of the file on.

SHA-1 is a parameter. The decoder's bound is passed on: `unfinished` means that
the source recurses further than the bound, or for ever.
-/

set_option autoImplicit false

namespace K0Torrent

inductive MetainfoError where
  | missingInfoDict
  | piecesLength
  | missingName
  | missingPieceLength
  | missingPieces
  | missingLength

def MetainfoError.what : MetainfoError → String
  | missingInfoDict => "metainfo: missing info dict"
  | piecesLength => "metainfo: pieces length is not a multiple of 20"
  | missingName => "metainfo: missing name field"
  | missingPieceLength => "metainfo: missing piece length field"
  | missingPieces => "metainfo: missing pieces field"
  | missingLength => "metainfo: missing length field in single file torrent"

/-- The exceptions that leave `parse_torrent`: its own, the decoder's, and those
of `std::get` and `std::map::at`. -/
inductive ParseFailure where
  | metainfo (e : MetainfoError)
  | decode (e : DecodeError)
  | badVariantAccess
  | mapAt

abbrev Parsed (A : Type) := Outcome ParseFailure A

namespace BencodeValue

def asInt : BencodeValue → Parsed Int
  | int n => .value n
  | _ => .thrown .badVariantAccess

def asString : BencodeValue → Parsed Bytes
  | string bytes => .value bytes
  | _ => .thrown .badVariantAccess

def asList : BencodeValue → Parsed (List BencodeValue)
  | list items => .value items
  | _ => .thrown .badVariantAccess

def asDict : BencodeValue → Parsed (List (Bytes × BencodeValue))
  | dict entries => .value entries
  | _ => .thrown .badVariantAccess

end BencodeValue

open BencodeValue

/-- `std::map::at`. -/
def dictAt (dict : List (Bytes × BencodeValue)) (key : Bytes) : Parsed BencodeValue :=
  match dict.lookup key with
  | some val => .value val
  | none => .thrown .mapAt

/-- `std::string::find`: the first position at which `key` occurs. -/
def find (raw key : Bytes) : Option Nat := raw.tails.findIdx? fun tail => key.isPrefixOf tail

def infoKey : Bytes := ascii "4:info"

def findInfoStart (raw : Bytes) : Parsed Nat :=
  match find raw infoKey with
  | none => .thrown (.metainfo .missingInfoDict)
  | some pos => .value (pos + infoKey.length)

/-- `memcpy` of the twenty bytes from `start`. -/
def hashAt (raw : Bytes) (start : Nat) : Digest := Vector.ofFn fun k => raw.getD (start + k) 0

def splitPieces (raw : Bytes) : Parsed (List Digest) :=
  if raw.length % 20 ≠ 0 then .thrown (.metainfo .piecesLength)
  else .value ((List.range (raw.length / 20)).map fun k => hashAt raw (20 * k))

def mapAll {A B : Type} (read : A → Parsed B) : List A → Parsed (List B)
  | [] => .value []
  | a :: rest => do
    let b ← read a
    let bs ← mapAll read rest
    return b :: bs

def parseFile (entry : BencodeValue) : Parsed FileInfo := do
  let d ← entry.asDict
  let length ← (← dictAt d (ascii "length")).asInt
  let path ← mapAll asString (← (← dictAt d (ascii "path")).asList)
  return { length, path }

def parseFiles (list : List BencodeValue) : Parsed (List FileInfo) := mapAll parseFile list

def parseAnnounceList (list : List BencodeValue) : Parsed (List (List Bytes)) :=
  mapAll (fun tier => do mapAll asString (← tier.asList)) list

/-- A key that may be absent: `if (dict.count(key)) field = read(dict.at(key))`. -/
def optional {A : Type} (dict : List (Bytes × BencodeValue)) (key : Bytes)
    (read : BencodeValue → Parsed A) (absent : A) : Parsed A :=
  match dict.lookup key with
  | none => .value absent
  | some val => read val

/-- A key of the info dictionary that must be present. -/
def required {A : Type} (dict : List (Bytes × BencodeValue)) (key : Bytes) (missing : MetainfoError)
    (read : BencodeValue → Parsed A) : Parsed A :=
  match dict.lookup key with
  | none => .thrown (.metainfo missing)
  | some val => read val

/-- The `files` of a multi-file torrent and the `length` of a single-file one. -/
def parseLayout (info : List (Bytes × BencodeValue)) : Parsed (List FileInfo × Int) :=
  match info.lookup (ascii "files") with
  | some val => do
    let files ← parseFiles (← val.asList)
    return (files, 0)
  | none => do
    let length ← required info (ascii "length") .missingLength asInt
    return ([], length)

def decodeAt (raw : Bytes) (fuel pos : Nat) : Parsed (BencodeValue × Nat) :=
  match decode raw fuel pos with
  | .value result => .value result
  | .thrown e => .thrown (.decode e)
  | .unfinished => .unfinished

/-- The part of `parse_torrent` that reads the fields out of the decoded dictionary. -/
def readFields (rootDict : List (Bytes × BencodeValue)) (infoHash : Digest) :
    Parsed TorrentFile := do
  let announce ← optional rootDict (ascii "announce") asString []
  let announceList ← optional rootDict (ascii "announce-list")
    (fun val => do parseAnnounceList (← val.asList)) []
  let comment ← optional rootDict (ascii "comment") asString []
  let createdBy ← optional rootDict (ascii "created by") asString []
  let creationDate ← optional rootDict (ascii "creation date")
    (fun val => do return some (← val.asInt)) none
  let info ← (← dictAt rootDict (ascii "info")).asDict
  let name ← required info (ascii "name") .missingName asString
  let pieceLength ← required info (ascii "piece length") .missingPieceLength asInt
  let pieces ← required info (ascii "pieces") .missingPieces
    (fun val => do splitPieces (← val.asString))
  let (files, length) ← parseLayout info
  return { infoHash, name, announce, announceList, pieceLength, pieces, length, files, comment,
           createdBy, creationDate }

def parseTorrent (sha1 : Bytes → Digest) (raw : Bytes) (fuel : Nat) : Parsed TorrentFile := do
  let (root, _) ← decodeAt raw fuel 0
  let rootDict ← root.asDict
  let infoStart ← findInfoStart raw
  let (_, infoEnd) ← decodeAt raw fuel infoStart
  -- The count is a `size_t` difference and wraps if decoding went backwards.
  let rawInfo := substr raw infoStart ((infoEnd + 2 ^ 64 - infoStart) % 2 ^ 64)
  readFields rootDict (sha1 rawInfo)

/-- `parse_torrent` returns `torrent` for a file with these bytes. -/
def Accepts (sha1 : Bytes → Digest) (raw : Bytes) (torrent : TorrentFile) : Prop :=
  ∃ fuel, parseTorrent sha1 raw fuel = .value torrent

theorem decodeAt_eq_value {raw : Bytes} {fuel pos : Nat} {result : BencodeValue × Nat} :
    decodeAt raw fuel pos = .value result ↔ parse raw fuel pos = .value result := by
  unfold decodeAt decode
  cases parse raw fuel pos <;> simp

theorem decodeAt_of_returns {raw : Bytes} {pos next : Nat} {v : BencodeValue}
    (returns : Returns raw pos v next) :
    ∃ least, ∀ fuel, least ≤ fuel → decodeAt raw fuel pos = .value (v, next) := by
  obtain ⟨least, returned⟩ := returns
  refine ⟨least, fun fuel enough => decodeAt_eq_value.mpr ?_⟩
  exact (parse_of_le enough (Outcome.finished_of_value returned)).trans returned

/-- A file is accepted if it decodes at its start and at the info dictionary, and
has the fields. -/
theorem accepts_of_returns {sha1 : Bytes → Digest} {raw : Bytes}
    {rootDict : List (Bytes × BencodeValue)} {info : BencodeValue} {last infoStart infoEnd : Nat}
    {torrent : TorrentFile} (root : Returns raw 0 (.dict rootDict) last)
    (found : findInfoStart raw = .value infoStart) (infoRead : Returns raw infoStart info infoEnd)
    (fields : readFields rootDict
      (sha1 (substr raw infoStart ((infoEnd + 2 ^ 64 - infoStart) % 2 ^ 64))) = .value torrent) :
    Accepts sha1 raw torrent := by
  obtain ⟨first, rootDecoded⟩ := decodeAt_of_returns root
  obtain ⟨second, infoDecoded⟩ := decodeAt_of_returns infoRead
  refine ⟨max first second, ?_⟩
  simp only [parseTorrent, rootDecoded _ (Nat.le_max_left ..), Outcome.value_bind,
    BencodeValue.asDict, found, infoDecoded _ (Nat.le_max_right ..)]
  exact fields

end K0Torrent
