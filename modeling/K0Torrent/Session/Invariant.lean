import K0Torrent.Piece.Blocks
import K0Torrent.Session.Transitions

/-! What holds in every state of every run of a session. -/

set_option autoImplicit false

namespace K0Torrent

namespace Session

open PieceManager

variable {ι : Type}

structure Regular (setup : Setup) (pieces : PieceManager) : Prop where
  torrent : pieces.torrent = setup.torrent
  sound : pieces.Sound

theorem Regular.creates {setup : Setup} {pieces next : PieceManager} {peer : Peer}
    {request : Option BlockRequest} (regular : Regular setup pieces)
    (creates : pieces.Creates peer next request) : Regular setup next :=
  ⟨creates.torrent.trans regular.torrent, regular.sound.creates creates⟩

theorem Regular.processes {setup : Setup} {pieces next : PieceManager}
    {pieceIndex blockOffset : Nat} {data : Bytes} {done : Bool} (regular : Regular setup pieces)
    (processes : pieces.Processes setup.sha1 pieceIndex blockOffset data next done) :
    Regular setup next :=
  ⟨processes.torrent.trans regular.torrent, regular.sound.processes processes⟩

theorem Regular.requestNextBlocks {setup : Setup} {order : IterationOrder} {session : Session ι}
    {connection : ι} (regular : Regular setup session.pieces) :
    Regular setup (requestNextBlocks order session connection).pieces := by
  apply requestNextBlocks_induct (fun next => Regular setup next.pieces) ?_ regular
  intro current pieces request holds creates
  rw [pieces_issue]
  exact holds.creates creates

theorem Initial.regular {setup : Setup} {session : Session ι} (initial : Initial setup session) :
    Regular setup session.pieces := by
  rw [initial.pieces]
  exact ⟨rfl, sound_new _⟩

theorem Initial.inactive {setup : Setup} {session : Session ι} (initial : Initial setup session)
    {pieceIndex k : Nat} {active : ActivePiece} {block : Block} :
    ¬ session.pieces.BlockAt pieceIndex active k block := by
  intro at_
  have found := at_.found
  rw [initial.pieces] at found
  cases found

theorem Initial.incomplete {setup : Setup} {session : Session ι} (initial : Initial setup session)
    (pieceIndex : Nat) : session.pieces.picker.isCompleted pieceIndex ≠ true := by
  rw [initial.pieces, isCompleted_new]
  exact Bool.false_ne_true

variable [DecidableEq ι]

theorem Regular.step {setup : Setup} {session next : Session ι} {event : Event ι}
    (regular : Regular setup session.pieces) (taken : step setup session event = some next) :
    Regular setup next.pieces := by
  cases steps_of_step taken with
  | handshake => exact regular
  | disconnect => exact regular
  | message connected handles =>
    cases handles with
    | noted => exact regular
    | greeted =>
      rw [pieces_queueMessage]
      exact regular
    | unchoked =>
      apply Regular.requestNextBlocks
      exact regular
    | delivered delivers processes =>
      apply Regular.requestNextBlocks
      exact regular.processes processes

theorem Runs.regular {setup : Setup} {start final : Session ι}
    {history : List (Machine.Transition (Session ι) (Event ι))}
    (runs : Runs setup start history final) : Regular setup final.pieces :=
  runs.2.invariant (fun session => Regular setup session.pieces) runs.1.regular
    fun _ _ _ regular taken => regular.step taken

/-! ## A torrent of one byte -/

def oneByteSha1 (bytes : Bytes) : Digest :=
  if bytes = [1] then
    #v[191, 139, 69, 48, 216, 210, 70, 221, 116, 172, 83, 161, 52, 113, 187, 161, 121, 65, 223, 247]
  else if bytes = [2] then
    #v[196, 234, 33, 187, 54, 91, 190, 234, 245, 242, 198, 84, 136, 62, 86, 209, 30, 67, 196, 78]
  else Vector.replicate 20 0

/-- The torrent of the single byte 1, in the file `a`. -/
def oneByte : Setup where
  torrent := {
    infoHash := Vector.replicate 20 0
    name := ascii "a"
    announce := []
    announceList := []
    pieceLength := 1
    pieces := [oneByteSha1 [1]]
    length := 1
    files := []
    comment := []
    createdBy := []
    creationDate := none }
  sha1 := oneByteSha1
  downloadDir := ascii "downloads"
  workingDir := ascii "/home"

/-- Two connections that wait for their handshakes, and an empty disk. -/
def waiting (setup : Setup) : Session Bool where
  connections _ := { state := .handshakeSent }
  pieces := PieceManager.new setup.torrent
  disk := .fresh fun _ => []
  wire := []

theorem waiting_initial (setup : Setup) : Initial setup (waiting setup) where
  waiting _ := nofun
  fresh _ := rfl
  pieces := rfl
  disk := ⟨_, rfl⟩
  silent := rfl

def inOrder : IterationOrder := ⟨id, fun _ => List.Perm.refl _⟩

def receive (connection : Bool) (msg : PeerMessage) : Event Bool :=
  .message connection msg inOrder []

def blockMessage (pieceIndex blockOffset : Nat) (data : Bytes) : PeerMessage :=
  ⟨.piece, writeU32 pieceIndex ++ (writeU32 blockOffset ++ data)⟩

theorem runs_of_replay (setup : Setup) (events : List (Event Bool)) {final : Session Bool}
    {history : List (Machine.Transition (Session Bool) (Event Bool))}
    (replayed : Machine.replay (step setup) [] (waiting setup) events = some (history, final)) :
    Runs setup (waiting setup) history final :=
  ⟨waiting_initial setup, Machine.run_of_replay .start replayed⟩

end Session

end K0Torrent
