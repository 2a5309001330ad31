import K0Torrent.Common.Types

/-! The content of a `.torrent` file (`torrent_file.hpp`, `torrent_file.cpp`). -/

set_option autoImplicit false

namespace K0Torrent

structure FileInfo where
  length : Int
  path : List Bytes

structure TorrentFile where
  infoHash : Digest
  name : Bytes
  announce : Bytes
  announceList : List (List Bytes)
  pieceLength : Int
  pieces : List Digest
  length : Int
  files : List FileInfo
  comment : Bytes
  createdBy : Bytes
  -- Never initialised by the source when the key is absent.
  creationDate : Option Int

namespace TorrentFile

def isMultiFile (torrent : TorrentFile) : Bool := !torrent.files.isEmpty

/-- The exact sum. The source adds `int64_t` values, and every use here casts
the result to an unsigned type, which takes the same residue. -/
def totalSize (torrent : TorrentFile) : Int :=
  if torrent.isMultiFile then (torrent.files.map FileInfo.length).sum else torrent.length

def pieceCount (torrent : TorrentFile) : Nat := torrent.pieces.length

end TorrentFile

end K0Torrent
