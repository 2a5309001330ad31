import K0Torrent.Disk.FileMap
import K0Torrent.Library.FileStore
import K0Torrent.Library.LexicalPath
import K0Torrent.Torrent.TorrentFile
import Mathlib.Data.List.Induction

/-! Writing blocks to the files of a torrent (`disk_manager.hpp`, `disk_manager.cpp`).

A file is what its path resolves to, links aside, and a file that does not exist has no bytes.
What each file operation does is given from outside, and so is how much of what a stream has
taken stays in its put area. Nothing but the next seek of the stream empties that.
-/

set_option autoImplicit false

namespace K0Torrent

open LexicalPath FileStore

/-! ## Paths -/

def slash : UInt8 := 47

/-- `is_absolute` of `std::filesystem::path`. -/
def isAbsolute (path : Bytes) : Bool := path.head? == some slash

def hasFilename (path : Bytes) : Bool := path.getLast?.any (· != slash)

/-- `operator/` of `std::filesystem::path`. -/
def joinPath (left right : Bytes) : Bytes :=
  if isAbsolute right then right
  else if hasFilename left then left ++ slash :: right
  else left ++ right

def component (part : Bytes) : Option (Component Bytes) :=
  if part = [] ∨ part = ascii "." then none
  else if part = ascii ".." then some .climb
  else some (.enter part)

def components (path : Bytes) : List (Component Bytes) := (path.splitOn slash).filterMap component

def lexicallyNormal (path : Bytes) : Place Bytes :=
  (if isAbsolute path then Place.root else Place.here).walk (components path)

/-- What the system calls see of a path, which is a C string for them. -/
def cString (path : Bytes) : Bytes := path.takeWhile (· ≠ 0)

/-- The file that is opened for a path. A relative one starts from the working directory. -/
def resolve (workingDir path : Bytes) : Place Bytes :=
  lexicallyNormal (joinPath workingDir (cString path))

/-! ## The files -/

/-- The loop of the constructor that joins the path components of a file. -/
def joinComponents : List Bytes → Bytes
  | [] => []
  | [part] => part
  | part :: rest => part ++ slash :: joinComponents rest

/-- The files the constructor registers, with their lengths. -/
def registered (torrent : TorrentFile) : List (Bytes × Int) :=
  if torrent.isMultiFile then torrent.files.map fun file => (joinComponents file.path, file.length)
  else [(torrent.name, torrent.length)]

/-- `workingDir` is the directory that the process runs in. -/
structure DiskManager where
  fileMap : FileMap
  downloadDir : Bytes
  pieceLength : Nat
  workingDir : Bytes

def addRegistered (map : FileMap) (file : Bytes × Int) : FileMap :=
  map.addFile file.1 (castU64 file.2) (castU64_lt file.2)

def DiskManager.new (torrent : TorrentFile) (downloadDir workingDir : Bytes) : DiskManager where
  fileMap := (registered torrent).foldl addRegistered FileMap.empty
  downloadDir := downloadDir
  pieceLength := castU64 torrent.pieceLength
  workingDir := workingDir

/-- The normal form of the path that `get_or_open_file` makes. -/
def DiskManager.fullPath (manager : DiskManager) (path : Bytes) : Place Bytes :=
  lexicallyNormal (joinPath manager.downloadDir path)

/-- The file that it opens. -/
def DiskManager.file (manager : DiskManager) (path : Bytes) : Place Bytes :=
  resolve manager.workingDir (joinPath manager.downloadDir path)

/-- The registered files as entries of the map, the first one starting at the given offset. -/
def entriesFrom : Nat → List (Bytes × Int) → List FileEntry
  | _, [] => []
  | start, file :: rest =>
    ⟨file.1, castU64 file.2, start, castU64_lt file.2⟩ ::
      entriesFrom ((start + castU64 file.2) % 2 ^ 64) rest

theorem files_foldl_addRegistered (files : List (Bytes × Int)) (map : FileMap) :
    (files.foldl addRegistered map).files = map.files ++ entriesFrom map.totalSize files := by
  induction files generalizing map with
  | nil => exact (List.append_nil _).symm
  | cons file rest ih =>
    rw [List.foldl_cons, ih, entriesFrom, addRegistered, FileMap.addFile, List.append_assoc]
    rfl

/-- Bytes that a stream has taken and has not passed on to its file. -/
structure PutArea where
  offset : Nat := 0
  bytes : Bytes := []
  deriving DecidableEq

inductive StreamState where
  | good (area : PutArea)
  | failed
  deriving DecidableEq

/-- What `open_files_` and the file system hold. What the files hold is `stored`. What they would
hold if each stream passed on at once what it takes is `contents`; the source has no such thing,
and nothing depends on it. -/
structure Disk where
  contents : Files (Place Bytes) UInt8
  stored : Files (Place Bytes) UInt8
  openFiles : Bytes → Option StreamState

/-- Before any file is opened. -/
def Disk.fresh (files : Files (Place Bytes) UInt8) : Disk := ⟨files, files, fun _ => none⟩

def Disk.setStream (disk : Disk) (path : Bytes) (stream : StreamState) : Disk :=
  { disk with openFiles := Function.update disk.openFiles path (some stream) }

/-- What creating and opening a file leads to: an exception, or a stream in one
of its two states. -/
inductive Opening where
  | opened
  | failed
  | thrown
  deriving DecidableEq

/-- What the file system and the stream do with one slice. `flushed` is how many bytes of the put
area are passed on if the seek fails, `moved` how many of the slice if the transfer fails then.
If nothing fails, the last `held` bytes of what is written stay in the put area. -/
structure SliceResult where
  opening : Opening
  flushed : Option Nat
  moved : Option Nat
  held : Nat
  deriving DecidableEq

def SliceResult.done : SliceResult := ⟨.opened, none, none, 0⟩

/-- `none` is an exception, which leaves the stream uncached. -/
def getOrOpenFile (disk : Disk) (path : Bytes) (opening : Opening) : Option (StreamState × Disk) :=
  match disk.openFiles path, opening with
  | some stream, _ => some (stream, disk)
  | none, .opened => some (.good {}, disk.setStream path (.good {}))
  | none, .failed => some (.failed, disk.setStream path .failed)
  | none, .thrown => none

/-- The bytes are in the file. -/
def DiskManager.pass (manager : DiskManager) (disk : Disk) (path : Bytes) (offset : Nat)
    (bytes : Bytes) : Disk :=
  { disk with stored := store 0 disk.stored ⟨manager.file path, offset, bytes⟩ }

/-- The stream has accepted the bytes. -/
def DiskManager.accept (manager : DiskManager) (disk : Disk) (path : Bytes) (offset : Nat)
    (bytes : Bytes) : Disk :=
  { disk with contents := store 0 disk.contents ⟨manager.file path, offset, bytes⟩ }

/-- `seekp` and `seekg`, which empty the put area first. -/
def DiskManager.seek (manager : DiskManager) (disk : Disk) (path : Bytes) (area : PutArea) : Disk :=
  (manager.pass disk path area.offset area.bytes).setStream path (.good {})

/-- `write` on a stream that is at its place. -/
def DiskManager.put (manager : DiskManager) (disk : Disk) (path : Bytes) (offset : Nat)
    (part : Bytes) (result : SliceResult) : Disk :=
  match result.moved with
  | some count =>
    let front := part.take count
    (manager.pass (manager.accept disk path offset front) path offset front).setStream path .failed
  | none =>
    let front := part.take (part.length - result.held)
    let rest := part.drop (part.length - result.held)
    (manager.pass (manager.accept disk path offset part) path offset front).setStream path
      (.good ⟨offset + front.length, rest⟩)

/-- `seekp` and `write` of one slice. A stream that has failed takes no bytes, and passes on none
of those that it still held. -/
def DiskManager.writeSlice (manager : DiskManager) (disk : Disk) (slice : FileSlice)
    (stream : StreamState) (part : Bytes) (result : SliceResult) : Disk :=
  match stream with
  | .failed => disk
  | .good area =>
    match result.flushed with
    | some count =>
      (manager.pass disk slice.filePath area.offset (area.bytes.take count)).setStream
        slice.filePath .failed
    | none =>
      manager.put (manager.seek disk slice.filePath area) slice.filePath slice.fileOffset part result

/-- The loop of `write_block`. Slices without a result of their own succeed. -/
def DiskManager.writeSlices (manager : DiskManager) :
    List FileSlice → Bytes → List SliceResult → Disk → Disk
  | [], _, _, disk => disk
  | slice :: rest, data, results, disk =>
    let result := results.headD .done
    match getOrOpenFile disk slice.filePath result.opening with
    | none => disk
    | some (stream, disk) =>
      let part := data.take slice.size
      manager.writeSlices rest (data.drop slice.size) results.tail
        (manager.writeSlice disk slice stream part result)

/-- Where a block starts in the torrent, as `write_block` computes it. -/
def DiskManager.globalOffset (manager : DiskManager) (pieceIndex blockOffset : Nat) : Nat :=
  (pieceIndex * manager.pieceLength + blockOffset) % 2 ^ 64

def DiskManager.writeBlock (manager : DiskManager) (disk : Disk) (pieceIndex blockOffset : Nat)
    (data : Bytes) (results : List SliceResult) : Disk :=
  let slices := manager.fileMap.mapBlock (manager.globalOffset pieceIndex blockOffset) data.length
  manager.writeSlices slices data results disk

end K0Torrent
