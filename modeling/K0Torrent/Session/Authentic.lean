import K0Torrent.Session.Download
import K0Torrent.Session.Origin
import K0Torrent.Session.Requests

/-! Blocks of the content, whoever sends them.

A seeder answers what it was asked. Nothing is assumed here of the order in which blocks come, nor
that they were asked for, or asked for once: it is enough that they are blocks of the content.
-/

set_option autoImplicit false

namespace K0Torrent.Session

open PieceManager DiskManager

variable {ι : Type}

/-- The data is the content at its place, as far as there is content. Where a block of the piece
starts, it is all of the block. -/
structure Authentic (setup : Setup) (content : Bytes) (pieceIndex blockOffset : Nat) (data : Bytes) :
    Prop where
  bytes : ∀ j byte expected, data[j]? = some byte →
    content[setup.disk.globalOffset pieceIndex blockOffset + j]? = some expected → byte = expected
  whole : ∀ k < blockCount (pieceSize setup.torrent pieceIndex), blockOffset = k * blockSize →
    data.length = min blockSize (pieceSize setup.torrent pieceIndex - k * blockSize)

/-- If the event brings a block, it is one of the content, and it is written. -/
structure Sincere (setup : Setup) (content : Bytes) (event : Event ι) : Prop where
  unfailing : Unfailing event
  authentic : ∀ pieceIndex blockOffset data results,
    Carries event pieceIndex blockOffset data results →
      Authentic setup content pieceIndex blockOffset data

/-- What blocks of the content keep. -/
structure Truthful (setup : Setup) (content : Bytes) (session : Session ι) : Prop where
  regular : Regular setup session.pieces
  holding : Holding setup session.pieces session.disk
  agrees : Agrees setup content session.pieces session.disk

section
variable {setup : Setup} {content : Bytes} {session : Session ι} {pieceIndex blockOffset : Nat}
  {data : Bytes} (describes : Describes setup content)
  (regular : Regular setup session.pieces)
include describes regular

theorem lt_length_of_held {position : Nat} (held : Held setup.torrent session.pieces position) :
    position < content.length := by
  cases held with
  | @piece pieceIndex completed inside =>
    have bound := regular.sound.index_lt (isCompleted_lt completed)
    rw [regular.torrent] at bound
    exact Nat.lt_of_lt_of_le inside.upper (pieceEnd_le describes.toMeasures bound)
  | block at_ _ inside =>
    exact Nat.lt_of_lt_of_le inside.upper (blockEnd_le describes.toMeasures regular at_).2

variable (authentic : Authentic setup content pieceIndex blockOffset data)
include authentic

omit describes in
theorem length_of_takes {active : ActivePiece} {k : Nat} {block : Block}
    (takes : session.pieces.Takes pieceIndex blockOffset active k block) :
    data.length = block.length := by
  have wellFormed := regular.sound.wellFormed takes.at_.found
  rw [regular.torrent] at wellFormed
  obtain ⟨inside, -, offset, length⟩ := wellFormed.block takes.at_.at_
  rw [length]
  exact authentic.whole k inside (takes.offset.symm.trans offset)

/-- A block that is taken is what a request for it would have brought. -/
theorem data_of_takes {active : ActivePiece} {k : Nat} {block : Block}
    (takes : session.pieces.Takes pieceIndex blockOffset active k block) :
    data = requestedBytes setup.torrent content ⟨pieceIndex, block.offset, block.length⟩ := by
  have inTorrent := regular.sound.index_lt (regular.sound.bound takes.at_.mem)
  rw [regular.torrent] at inTorrent
  have start : setup.disk.globalOffset pieceIndex blockOffset =
      pieceIndex * setup.torrent.pieceWidth + blockOffset := by
    rw [← takes.offset]
    exact globalOffset_eq describes.addressable inTorrent (takes.at_.fits regular.sound).2.1
  have whole := length_of_takes regular authentic takes
  have asked := @length_requestedBytes _ setup content session describes.toMeasures _ _ _ _ regular takes.at_
  apply List.ext_getElem?
  intro j
  by_cases inside : j < block.length
  · have bound : j < data.length := by rwa [whole]
    have reaches := (blockEnd_le describes.toMeasures regular takes.at_).2
    have within : pieceIndex * setup.torrent.pieceWidth + blockOffset + j < content.length := by
      rw [← takes.offset]
      omega
    have expected := List.getElem?_eq_getElem within
    rw [getElem?_requestedBytes inside, takes.offset, expected, List.getElem?_eq_getElem bound]
    refine congrArg some (authentic.bytes j _ _ (List.getElem?_eq_getElem bound) ?_)
    rw [start]
    exact expected
  · rw [List.getElem?_eq_none (by omega), List.getElem?_eq_none (by omega)]

theorem careful_of_authentic (holding : Holding setup session.pieces session.disk)
    (agrees : Agrees setup content session.pieces session.disk) :
    Careful setup session pieceIndex blockOffset data where
  whole _ _ _ takes := length_of_takes regular authentic takes
  keeps j byte value held := by
    have inside := lt_length_of_held describes regular held
    have expected := List.getElem?_eq_getElem inside
    rw [byteAt_of_agrees holding agrees held, expected]
    exact congrArg some (authentic.bytes j _ _ value expected).symm

/-- No block of the content makes its piece fail. -/
theorem verified_of_authentic (collected : Collected setup content session.pieces)
    {active : ActivePiece} {k : Nat} {block : Block}
    (takes : session.pieces.Takes pieceIndex blockOffset active k block)
    (last : active.blocksDownloaded + 1 = active.totalBlocks) :
    session.pieces.torrent.pieces[pieceIndex]? =
      some (setup.sha1 (completedPiece (filled active k data))) := by
  rw [data_of_takes describes regular authentic takes]
  exact @verified_content _ setup content session ⟨pieceIndex, block.offset, block.length⟩ active k
    block describes.toMeasures regular takes.at_ takes.open_ rfl collected last

theorem Agrees.stores {next : PieceManager} {done : Bool} {results : List SliceResult}
    (holding : Holding setup session.pieces session.disk)
    (agrees : Agrees setup content session.pieces session.disk) (succeed : Succeed results)
    (processes : session.pieces.Processes setup.sha1 pieceIndex blockOffset data next done) :
    Agrees setup content next
      (setup.disk.writeBlock session.disk pieceIndex blockOffset data results) := by
  have careful := careful_of_authentic describes regular authentic holding agrees
  by_cases taken : ∃ active k block, session.pieces.Takes pieceIndex blockOffset active k block
  · obtain ⟨active, k, block, takes⟩ := taken
    have same := data_of_takes describes regular authentic takes
    have offset := takes.offset
    subst same offset
    exact @Agrees.processes _ setup content session ⟨pieceIndex, block.offset, block.length⟩ active k
      block describes regular takes.at_ takes.open_ rfl next done results holding agrees succeed
      processes
  · -- What is not taken is written where it makes no difference.
    constructor
    · intro other active j found here downloaded
      rcases processes.blockAt regular.sound here with
        ⟨active', old, -⟩ | ⟨-, active', origin, takes, -⟩ | ⟨-, missing⟩
      · exact agrees.downloaded _ _ _ _ old downloaded
      · exact absurd ⟨_, _, _, takes⟩ taken
      · rw [missing] at downloaded
        cases downloaded
    · intro other completed
      rcases processes.isCompleted regular.sound completed with old | ⟨-, _, _, _, takes, -⟩
      · exact heldRange_kept describes.addressable holding succeed careful old
          (agrees.completed other old)
      · exact absurd ⟨_, _, _, takes⟩ taken

end

/-! ## What is held -/

theorem Held.creates {torrent : TorrentFile} {manager next : PieceManager} {peer : Peer}
    {request : Option BlockRequest} {position : Nat} (held : Held torrent manager position)
    (creates : manager.Creates peer next request) : Held torrent next position := by
  cases held with
  | piece completed inside =>
    rw [← creates.picker] at completed
    exact .piece completed inside
  | block at_ downloaded inside =>
    obtain ⟨active, same | ⟨missing, -⟩⟩ := creates.kept at_
    · exact .block same downloaded inside
    · rw [missing] at downloaded
      cases downloaded

theorem Held.requests {torrent : TorrentFile} {manager next : PieceManager} {position : Nat}
    (held : Held torrent manager position) (requests : manager.Requests next) :
    Held torrent next position :=
  requests.keeps (fun next => Held torrent next position) Held.creates held

/-- A block that is delivered takes nothing away, unless its piece fails its hash. -/
theorem Held.processes {sha1 : Bytes → Digest} {manager next : PieceManager}
    {pieceIndex blockOffset position : Nat} {data : Bytes} {done : Bool}
    (held : Held manager.torrent manager position) (sound : manager.Sound)
    (processes : manager.Processes sha1 pieceIndex blockOffset data next done)
    (verified : ∀ active k block, manager.Takes pieceIndex blockOffset active k block →
      active.blocksDownloaded + 1 = active.totalBlocks → manager.torrent.pieces[pieceIndex]? =
        some (sha1 (completedPiece (filled active k data)))) :
    Held manager.torrent next position := by
  cases processes with
  | rejected => exact held
  | @recorded taken j before takes =>
    cases held with
    | piece completed inside => exact .piece completed inside
    | @block other k active block at_ downloaded inside =>
      by_cases same : other = pieceIndex
      · subst same
        cases takes.at_.found.symm.trans at_.found
        -- The block that is taken was not downloaded, so this is another one.
        have apart : j ≠ k := by
          rintro rfl
          cases takes.at_.at_.symm.trans at_.at_
          exact takes.open_ downloaded
        have kept : (filled taken j data)[k]? = some block := by
          rw [filled, List.getElem?_modify_ne _ _ apart]
          exact at_.at_
        exact @Held.block _ _ _ other k _ block ⟨(lookup_setPiece ..).trans (if_pos rfl), kept⟩
          downloaded inside
      · exact .block ⟨(lookup_setPiece_of_ne _ _ _ same).trans at_.found, at_.at_⟩ downloaded inside
  | completed takes =>
    have marked (other : Nat) := isCompleted_markCompleted manager.picker pieceIndex other
      (sound.bound takes.at_.mem)
    cases held with
    | @piece other completed inside =>
      refine .piece ((marked other).trans ?_) inside
      rw [completed, Bool.or_true]
    | @block other k active block at_ downloaded inside =>
      by_cases same : other = pieceIndex
      · refine .piece ((marked other).trans ?_) (inside.inPiece (sound.wellFormed at_.found) at_.at_)
        rw [decide_eq_true same, Bool.true_or]
      · exact .block ⟨(AList.lookup_erase_ne same).trans at_.found, at_.at_⟩ downloaded inside
  | failed takes last unverified => exact absurd (verified _ _ _ takes last) unverified

/-! ## Runs -/

variable [DecidableEq ι] {setup : Setup} {content : Bytes} {session next : Session ι}

theorem Truthful.step {event : Event ι} (truthful : Truthful setup content session)
    (describes : Describes setup content) (sincere : Sincere setup content event)
    (taken : step setup session event = some next) : Truthful setup content next := by
  have addressable := describes.addressable
  obtain ⟨regular, holding, agrees⟩ := truthful
  cases moves_of_step taken with
  | quiet _ files requests =>
    refine ⟨regular.step taken, ?_, ?_⟩
    · rw [files]
      exact holding.requests requests
    · rw [files]
      exact agrees.requests requests
  | stored carries processes files requests =>
    have succeed := sincere.unfailing _ _ _ _ carries
    have block := sincere.authentic _ _ _ _ carries
    have careful := careful_of_authentic describes regular block holding agrees
    refine ⟨regular.step taken, ?_, ?_⟩
    · rw [files]
      exact (holding.processes addressable regular succeed careful processes).requests requests
    · rw [files]
      exact (agrees.stores describes regular block holding succeed processes).requests requests

theorem Truthful.bounded {event : Event ι} (truthful : Truthful setup content session)
    (describes : Describes setup content) (taken : Session.step setup session event = some next)
    (bounded : setup.disk.Bounded session.disk.stored) : setup.disk.Bounded next.disk.stored := by
  cases moves_of_step taken with
  | quiet _ files =>
    rw [files]
    exact bounded
  | stored _ _ files =>
    rw [files]
    exact bounded_writeBlock (distinct_places describes.addressable.toConsistent) bounded
      truthful.holding.tidy

/-- While blocks of the content come in, nothing that is held is given up. -/
theorem Truthful.held {event : Event ι} (truthful : Truthful setup content session)
    (describes : Describes setup content) (sincere : Sincere setup content event)
    (taken : Session.step setup session event = some next) {position : Nat}
    (held : Held setup.torrent session.pieces position) : Held setup.torrent next.pieces position := by
  cases moves_of_step taken with
  | quiet _ _ requests => exact held.requests requests
  | stored carries processes _ requests =>
    have verified := @verified_of_authentic _ setup content session _ _ _ describes truthful.regular
      (sincere.authentic _ _ _ _ carries) truthful.agrees.downloaded
    rw [← truthful.regular.torrent] at held
    have after_ := held.processes truthful.regular.sound processes fun _ _ _ => verified
    rw [truthful.regular.torrent] at after_
    exact after_.requests requests

/-- What is in its file stays there. -/
theorem Truthful.settled {event : Event ι} (truthful : Truthful setup content session)
    (describes : Describes setup content) (sincere : Sincere setup content event)
    (taken : Session.step setup session event = some next) {position : Nat}
    (held : Held setup.torrent session.pieces position)
    (settled : setup.disk.Settled session.disk position) :
    setup.disk.Settled next.disk position := by
  cases moves_of_step taken with
  | quiet _ files =>
    rw [files]
    exact settled
  | stored carries _ files =>
    rw [files]
    exact settled_of_held describes.addressable truthful.holding (sincere.unfailing _ _ _ _ carries)
      (careful_of_authentic describes truthful.regular (sincere.authentic _ _ _ _ carries)
        truthful.holding truthful.agrees) held settled

omit [DecidableEq ι] in
theorem Truthful.unfailed {event : Event ι} (truthful : Truthful setup content session)
    (describes : Describes setup content) (sincere : Sincere setup content event) {pieceIndex : Nat}
    {wire : List (Wire ι)} : ¬ HashFailure setup pieceIndex wire ⟨session, event, next⟩ := by
  rintro ⟨delivers, takes, fails⟩
  have verified := verified_of_authentic describes truthful.regular
    (sincere.authentic _ _ _ _ (.message delivers)) truthful.agrees.downloaded takes fails.last
  rw [truthful.regular.torrent] at verified
  exact fails.unverified verified

section
variable {start final : Session ι}
  {history : List (Machine.Transition (Session ι) (Event ι))}
  (describes : Describes setup content) (runs : Runs setup start history final)
  (unfailing : ∀ x ∈ history, Unfailing x.event)

omit [DecidableEq ι] in
theorem Initial.truthful (initial : Initial setup start) : Truthful setup content start where
  regular := initial.regular
  holding := initial.holding
  agrees :=
    { downloaded := fun _ _ _ _ at_ => absurd at_ initial.inactive
      completed := fun pieceIndex completed => absurd completed (initial.incomplete pieceIndex) }

include runs in
/-- What has carried a block has come in. -/
theorem Runs.received {pieceIndex blockOffset : Nat} {data : Bytes} {results : List SliceResult}
    {x : Machine.Transition (Session ι) (Event ι)} (member : x ∈ history)
    (carries : Carries x.event pieceIndex blockOffset data results) :
    ∃ connection msg, .received connection msg ∈ final.wire ∧
      Delivers msg pieceIndex blockOffset data := by
  have came : ∀ y ∈ history, ∀ connection msg order results,
      y.event = .message connection msg order results → .received connection msg ∈ final.wire := by
    refine runs.2.invariant_of_history (fun history session => ∀ y ∈ history,
      ∀ connection msg order results, y.event = .message connection msg order results →
        .received connection msg ∈ session.wire) (List.forall_mem_nil _) ?_
    intro history session event next _ came taken y member connection msg order results same
    rcases List.mem_cons.mp member with rfl | before
    · cases same
      exact received_of_step taken
    · exact wire_subset_of_step taken (came y before connection msg order results same)
  obtain ⟨before, event, after_⟩ := x
  obtain ⟨delivers⟩ := carries
  exact ⟨_, _, came _ member _ _ _ _ rfl, delivers⟩

variable (authentic : ∀ connection msg, .received connection msg ∈ final.wire →
  ∀ pieceIndex blockOffset data, Delivers msg pieceIndex blockOffset data →
    Authentic setup content pieceIndex blockOffset data)

include runs unfailing authentic in
theorem Runs.sincere : ∀ x ∈ history, Sincere setup content x.event := by
  refine fun x member => ⟨unfailing x member, ?_⟩
  intro pieceIndex blockOffset data results carries
  obtain ⟨connection, msg, came, delivers⟩ := runs.received member carries
  exact authentic connection msg came pieceIndex blockOffset data delivers

include describes runs unfailing authentic

theorem Runs.truthful : Truthful setup content final := by
  refine runs.2.invariant_of_guard (fun _ session => Truthful setup content session)
    (fun _ event => Sincere setup content event) runs.1.truthful ?_
    (runs.sincere unfailing authentic)
  rintro history session event next - truthful sincere taken
  exact truthful.step describes sincere taken

theorem Runs.bounded (bounded : setup.disk.Bounded start.disk.stored) :
    setup.disk.Bounded final.disk.stored := by
  have both : Truthful setup content final ∧ setup.disk.Bounded final.disk.stored := by
    refine runs.2.invariant_of_guard
      (fun _ session => Truthful setup content session ∧ setup.disk.Bounded session.disk.stored)
      (fun _ event => Sincere setup content event) ⟨runs.1.truthful, bounded⟩ ?_
      (runs.sincere unfailing authentic)
    rintro history session event next - ⟨truthful, bounded⟩ sincere taken
    exact ⟨truthful.step describes sincere taken,
      truthful.bounded describes taken bounded⟩
  exact both.2

/-- No piece fails its hash. Whatever of the content has been held in a downloaded block or a
completed piece is still held, in the files and the put areas, however often blocks come, and over
whichever connections; and what has come to its file stays there. -/
theorem held_of_authentic {x : Machine.Transition (Session ι) (Event ι)} (member : x ∈ history) :
    (∀ pieceIndex wire, ¬ HashFailure setup pieceIndex wire x) ∧
    ∀ position, Held setup.torrent x.before.pieces position →
      Held setup.torrent final.pieces position ∧
      setup.disk.byteAt final.disk position = content[position]? ∧
      (setup.disk.Settled x.before.disk position ∨
        (∀ cell, locate setup.disk.fileMap.files position = some cell →
          final.disk.pending cell = none) →
        setup.disk.storedAt final.disk position = content[position]?) := by
  obtain ⟨truthful, all⟩ : Truthful setup content final ∧ ∀ x ∈ history,
      (∀ pieceIndex wire, ¬ HashFailure setup pieceIndex wire x) ∧
      ∀ position, Held setup.torrent x.before.pieces position →
        Held setup.torrent final.pieces position ∧
        (setup.disk.Settled x.before.disk position → setup.disk.Settled final.disk position) := by
    refine runs.2.invariant_of_guard (fun history session => Truthful setup content session ∧
      ∀ x ∈ history, (∀ pieceIndex wire, ¬ HashFailure setup pieceIndex wire x) ∧
        ∀ position, Held setup.torrent x.before.pieces position →
          Held setup.torrent session.pieces position ∧
          (setup.disk.Settled x.before.disk position → setup.disk.Settled session.disk position))
      (fun _ event => Sincere setup content event) ⟨runs.1.truthful, List.forall_mem_nil _⟩ ?_
      (runs.sincere unfailing authentic)
    rintro history session event next - ⟨truthful, all⟩ sincere taken
    refine ⟨truthful.step describes sincere taken, List.forall_mem_cons.mpr ⟨⟨?_, ?_⟩, ?_⟩⟩
    · exact fun _ _ failure => truthful.unfailed describes sincere failure
    · intro position held
      exact ⟨truthful.held describes sincere taken held,
        truthful.settled describes sincere taken held⟩
    · intro x before
      refine ⟨(all x before).1, fun position held => ?_⟩
      obtain ⟨still, settled⟩ := (all x before).2 position held
      exact ⟨truthful.held describes sincere taken still,
        fun first => truthful.settled describes sincere taken still (settled first)⟩
  refine ⟨(all x member).1, fun position held => ?_⟩
  obtain ⟨now, settled⟩ := (all x member).2 position held
  have here := byteAt_of_agrees truthful.holding truthful.agrees now
  refine ⟨now, here, ?_⟩
  obtain ⟨byte, value⟩ : ∃ byte, content[position]? = some byte :=
    ⟨_, List.getElem?_eq_getElem (lt_length_of_held describes truthful.regular now)⟩
  rw [value] at here ⊢
  rintro (first | passed)
  · exact (settled first).storedAt here
  · exact (settled_of_pending here passed).storedAt here

end

theorem authentic_oneByte {msg : PeerMessage} {pieceIndex blockOffset : Nat} {data : Bytes}
    (delivers : Delivers msg pieceIndex blockOffset data)
    (block : msg = blockMessage 0 0 [1]) : Authentic oneByte [1] pieceIndex blockOffset data := by
  subst block
  obtain ⟨-, -, rfl, rfl, rfl⟩ := delivers
  constructor
  · intro j byte expected value content
    have start : oneByte.disk.globalOffset 0 0 + j = j := Nat.zero_add j
    exact Option.some.inj (value.symm.trans ((congrArg ([1][·]?) start).symm.trans content))
  · intro k few _
    have single : k < 1 := few
    cases Nat.lt_one_iff.mp single
    rfl

def incoming : Wire Bool → Option PeerMessage
  | .received _ msg => some msg
  | .queued .. | .closed _ => none

/-- The one block comes twice. -/
theorem held_of_authentic_oneByte : ∃ history final, Runs oneByte (waiting oneByte) history final ∧
    ∃ x ∈ history, (∀ pieceIndex wire, ¬ HashFailure oneByte pieceIndex wire x) ∧
      x.before.pieces.picker.isCompleted 0 = true ∧
      Held oneByte.torrent final.pieces 0 ∧ oneByte.disk.byteAt final.disk 0 = some 1 ∧
      oneByte.disk.storedAt final.disk 0 = some 1 := by
  obtain ⟨before, event, final, history, runs, completed, wire, unfailing, passed⟩ :
      ∃ before event final history,
        Runs oneByte (waiting oneByte) (⟨before, event, final⟩ :: history) final ∧
          before.pieces.picker.isCompleted 0 = true ∧
          (∀ msg ∈ final.wire.filterMap incoming, msg = blockMessage 0 0 [1] ∨ msg.id ≠ .piece) ∧
          (∀ x ∈ Machine.Transition.mk before event final :: history, Unfailing x.event) ∧
          ∀ cell ∈ locate oneByte.disk.fileMap.files 0, final.disk.pending cell = none := by
    refine ⟨_, _, _, _, runs_of_replay oneByte (unchoking ++
      [receive true (blockMessage 0 0 [1]), receive true (blockMessage 0 0 [1])]) rfl,
      by decide +kernel, by decide +kernel, ?_, by decide +kernel⟩
    simp only [List.forall_mem_cons]
    exact ⟨unfailing_receive _ _, unfailing_receive _ _, unfailing_receive _ _,
      unfailing_receive _ _, nofun, List.forall_mem_nil _⟩
  have inside : InPiece oneByte.torrent 0 0 := ⟨by decide, by decide⟩
  obtain ⟨sound, all⟩ := held_of_authentic describes_oneByte runs unfailing
    (fun connection msg received pieceIndex blockOffset data delivers =>
      authentic_oneByte delivers ((wire msg (List.mem_filterMap.mpr ⟨_, received, rfl⟩)).resolve_right
        fun other => other delivers.id))
    (List.mem_cons_self ..)
  obtain ⟨held, byte, stored⟩ := all 0 (.piece completed inside)
  exact ⟨_, final, runs, _, List.mem_cons_self .., sound, completed, held, byte, stored (.inr passed)⟩

end K0Torrent.Session
