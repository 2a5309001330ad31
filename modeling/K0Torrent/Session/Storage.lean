import K0Torrent.Disk.PutAreas
import K0Torrent.Session.Invariant
import Mathlib.Logic.Relation

/-! What a step does to the blocks and the files, whoever it comes from.

A block that is delivered is written and processed; around that, a step only
makes requests, which the files do not take part in.
-/

set_option autoImplicit false

namespace K0Torrent

namespace PieceManager

/-- Any number of requests, for any peers. -/
def Requests : PieceManager → PieceManager → Prop :=
  Relation.ReflTransGen fun manager next => ∃ peer request, manager.Creates peer next request

theorem Requests.keeps {manager next : PieceManager} (requests : manager.Requests next)
    (Holds : PieceManager → Prop)
    (created : ∀ {manager next peer request}, Holds manager → manager.Creates peer next request →
      Holds next) (holds : Holds manager) : Holds next := by
  induction requests with
  | refl => exact holds
  | tail _ last ih =>
    obtain ⟨peer, request, creates⟩ := last
    exact created ih creates

theorem Requests.picker {manager next : PieceManager} (requests : manager.Requests next) :
    next.picker = manager.picker :=
  requests.keeps (fun next => next.picker = manager.picker)
    (fun holds creates => creates.picker.trans holds) rfl

/-- A downloaded block was downloaded before the requests. -/
theorem Requests.downloaded {manager next : PieceManager} (requests : manager.Requests next)
    {pieceIndex k : Nat} {active : ActivePiece} {block : Block}
    (at_ : next.BlockAt pieceIndex active k block) (downloaded : block.state = .downloaded) :
    ∃ active', manager.BlockAt pieceIndex active' k block := by
  refine requests.keeps (fun next => ∀ active, next.BlockAt pieceIndex active k block →
    ∃ active', manager.BlockAt pieceIndex active' k block) ?_ (fun active old => ⟨active, old⟩)
    active at_
  intro current created peer request holds creates active here
  rcases creates.blockAt here with ⟨active', old⟩ | ⟨before, rfl, -⟩ | ⟨-, missing⟩
  · exact holds active' old
  · cases downloaded
  · rw [missing] at downloaded
    cases downloaded

/-- A request keeps every block, or marks it. -/
theorem Creates.kept {manager next : PieceManager} {peer : Peer} {request : Option BlockRequest}
    (creates : manager.Creates peer next request) {pieceIndex k : Nat} {active : ActivePiece}
    {block : Block} (at_ : manager.BlockAt pieceIndex active k block) :
    ∃ active', next.BlockAt pieceIndex active' k block ∨
      (block.state = .missing ∧ next.BlockAt pieceIndex active' k block.request) := by
  have other : ∀ {opened active'}, pieceIndex ≠ opened →
      (manager.setPiece opened active').BlockAt pieceIndex active k block := fun different =>
    ⟨(lookup_setPiece_of_ne _ _ _ different).trans at_.found, at_.at_⟩
  have opened : ∀ {opened}, opened ∉ manager.activePieces → pieceIndex ≠ opened := by
    rintro opened inactive rfl
    exact inactive at_.mem
  cases creates with
  | @reuse reused taken j requested before _ missing =>
    -- Only the requested block changes, and that one was missing.
    by_cases same : pieceIndex = reused
    · subst same
      cases at_.found.symm.trans before.found
      refine ⟨{ active with blocks := active.blocks.modify j Block.request }, ?_⟩
      by_cases here : j = k
      · subst here
        cases at_.at_.symm.trans before.at_
        refine .inr ⟨missing, lookup_setPiece_self .., ?_⟩
        rw [List.getElem?_modify_eq, at_.at_]
        rfl
      · refine .inl ⟨lookup_setPiece_self .., ?_⟩
        rw [List.getElem?_modify_ne _ _ here]
        exact at_.at_
    · exact ⟨active, .inl (other same)⟩
  | idle => exact ⟨active, .inl at_⟩
  | blockless opens => exact ⟨active, .inl (other (opened opens.pickable.inactive))⟩
  | fresh opens => exact ⟨active, .inl (other (opened opens.pickable.inactive))⟩

/-- A block that is delivered changes no other block, unless its piece fails its hash. -/
theorem Processes.kept {sha1 : Bytes → Digest} {manager next : PieceManager}
    {pieceIndex blockOffset : Nat} {data : Bytes} {done : Bool} (sound : manager.Sound)
    (processes : manager.Processes sha1 pieceIndex blockOffset data next done)
    (verified : ∀ active k block, manager.Takes pieceIndex blockOffset active k block →
      active.blocksDownloaded + 1 = active.totalBlocks → manager.torrent.pieces[pieceIndex]? =
        some (sha1 (completedPiece (filled active k data))))
    {other k : Nat} {active : ActivePiece} {block : Block}
    (at_ : manager.BlockAt other active k block) (open_ : block.state ≠ .downloaded)
    (different : ¬ (other = pieceIndex ∧ block.offset = blockOffset)) :
    ∃ active', next.BlockAt other active' k block := by
  -- In the piece of the delivered block, this is another one.
  have apart : ∀ {taken j origin}, manager.Takes pieceIndex blockOffset taken j origin →
      other = pieceIndex → taken = active ∧ (filled active j data)[k]? = some block := by
    rintro taken j origin takes rfl
    cases takes.at_.found.symm.trans at_.found
    refine ⟨rfl, ?_⟩
    have distinct : j ≠ k := by
      rintro rfl
      cases takes.at_.at_.symm.trans at_.at_
      exact different ⟨rfl, takes.offset⟩
    rw [filled, List.getElem?_modify_ne _ _ distinct]
    exact at_.at_
  cases processes with
  | rejected => exact ⟨active, at_⟩
  | recorded takes =>
    by_cases same : other = pieceIndex
    · obtain ⟨rfl, here⟩ := apart takes same
      exact ⟨_, (lookup_setPiece ..).trans (if_pos same), here⟩
    · exact ⟨active, (lookup_setPiece_of_ne _ _ _ same).trans at_.found, at_.at_⟩
  | completed takes last =>
    -- A piece that is completed has no block left that is not downloaded.
    by_cases same : other = pieceIndex
    · obtain ⟨rfl, here⟩ := apart takes same
      exact absurd (downloaded_of_last (sound.wellFormed takes.at_.found) takes.at_.at_ takes.open_
        data last (List.mem_of_getElem? here)) open_
    · exact ⟨active, (AList.lookup_erase_ne same).trans at_.found, at_.at_⟩
  | failed takes last unverified => exact absurd (verified _ _ _ takes last) unverified

theorem Requests.kept {manager next : PieceManager} (requests : manager.Requests next)
    {pieceIndex k : Nat} {active : ActivePiece} {block : Block}
    (at_ : manager.BlockAt pieceIndex active k block) (open_ : block.state ≠ .downloaded) :
    ∃ active' block', next.BlockAt pieceIndex active' k block' ∧ block'.shape = block.shape ∧
      block'.state ≠ .downloaded := by
  refine requests.keeps (fun next => ∃ active' block',
    next.BlockAt pieceIndex active' k block' ∧ block'.shape = block.shape ∧
      block'.state ≠ .downloaded) ?_ ⟨active, block, at_, rfl, open_⟩
  rintro current created peer request ⟨active', block', here, shape, waits⟩ creates
  obtain ⟨active'', now | ⟨-, now⟩⟩ := creates.kept here
  · exact ⟨active'', block', now, shape, waits⟩
  · exact ⟨active'', block'.request, now, shape, nofun⟩

end PieceManager

namespace Session

variable {ι : Type}

theorem requests_requestNextBlocks {order : IterationOrder} {session : Session ι}
    {connection : ι} {pieces : PieceManager} (same : session.pieces = pieces) :
    pieces.Requests (requestNextBlocks order session connection).pieces := by
  subst same
  refine requestNextBlocks_induct (fun next => session.pieces.Requests next.pieces)
    (fun holds creates => ?_) .refl
  rw [pieces_issue]
  exact holds.tail ⟨_, _, creates⟩

/-- The event delivers the data as a block. -/
inductive Carries : Event ι → Nat → Nat → Bytes → List SliceResult → Prop where
  | message {connection : ι} {msg : PeerMessage} {order : IterationOrder}
      {results : List SliceResult} {pieceIndex blockOffset : Nat} {data : Bytes}
      (delivers : Delivers msg pieceIndex blockOffset data) :
      Carries (.message connection msg order results) pieceIndex blockOffset data results

theorem Carries.unique {event : Event ι} {pieceIndex pieceIndex' blockOffset blockOffset' : Nat}
    {data data' : Bytes} {results results' : List SliceResult}
    (carries : Carries event pieceIndex blockOffset data results)
    (carries' : Carries event pieceIndex' blockOffset' data' results') :
    pieceIndex = pieceIndex' ∧ blockOffset = blockOffset' ∧ data = data' ∧ results = results' := by
  obtain ⟨delivers⟩ := carries
  obtain ⟨delivers'⟩ := carries'
  exact ⟨delivers.piece.symm.trans delivers'.piece, delivers.offset.symm.trans delivers'.offset,
    delivers.data.symm.trans delivers'.data, rfl⟩

inductive Moves (setup : Setup) (session : Session ι) (event : Event ι) (next : Session ι) :
    Prop where
  | quiet (empty : ∀ pieceIndex blockOffset data results,
        ¬ Carries event pieceIndex blockOffset data results)
      (files : next.disk = session.disk) (requests : session.pieces.Requests next.pieces)
  | stored {pieceIndex blockOffset : Nat} {data : Bytes} {results : List SliceResult}
      {pieces : PieceManager} {done : Bool}
      (carries : Carries event pieceIndex blockOffset data results)
      (processes : session.pieces.Processes setup.sha1 pieceIndex blockOffset data pieces done)
      (files : next.disk =
        setup.disk.writeBlock session.disk pieceIndex blockOffset data results)
      (requests : pieces.Requests next.pieces)

/-- No file operation of the event fails. -/
def Unfailing (event : Event ι) : Prop :=
  ∀ pieceIndex blockOffset data results, Carries event pieceIndex blockOffset data results →
    DiskManager.Succeed results

theorem Carries.id {connection : ι} {msg : PeerMessage} {order : IterationOrder}
    {results results' : List SliceResult} {pieceIndex blockOffset : Nat} {data : Bytes}
    (carries : Carries (.message connection msg order results) pieceIndex blockOffset data results') :
    msg.id = .piece := by
  obtain ⟨delivers⟩ := carries
  exact delivers.id

theorem not_carries_quiet {connection : ι} {msg : PeerMessage} {order : IterationOrder}
    {results results' : List SliceResult} (quiet : ¬ Schedules msg ∨ msg.id = .unchoke)
    (pieceIndex blockOffset : Nat) (data : Bytes) :
    ¬ Carries (.message connection msg order results) pieceIndex blockOffset data results' := by
  rintro ⟨delivers⟩
  rcases quiet with none_ | id
  · exact none_ (.inr ⟨delivers.id, delivers.long⟩)
  · rw [delivers.id] at id
    cases id

variable [DecidableEq ι]

theorem moves_of_step {setup : Setup} {session next : Session ι} {event : Event ι}
    (taken : step setup session event = some next) : Moves setup session event next := by
  cases steps_of_step taken with
  | handshake => exact .quiet nofun rfl .refl
  | disconnect => exact .quiet nofun rfl .refl
  | @message connection msg order results next connected handles =>
    cases handles with
    | noted quiet => exact .quiet (fun _ _ _ _ => not_carries_quiet (.inl quiet) _ _ _) rfl .refl
    | greeted quiet =>
      refine .quiet (fun _ _ _ _ => not_carries_quiet (.inl quiet) _ _ _) (disk_queueMessage ..) ?_
      rw [pieces_queueMessage]
      exact .refl
    | unchoked id =>
      exact .quiet (fun _ _ _ _ => not_carries_quiet (.inr id) _ _ _)
        (disk_requestNextBlocks ..) (requests_requestNextBlocks rfl)
    | delivered delivers processes =>
      exact .stored (.message delivers) processes (disk_requestNextBlocks ..)
        (requests_requestNextBlocks rfl)

end Session

end K0Torrent
