import K0Torrent.Session.Download
import Mathlib.Algebra.BigOperators.Group.Finset.Piecewise
import Mathlib.Algebra.Order.BigOperators.Group.Finset

/-! How many blocks a download takes.

A block that is taken is one more of its piece, until the piece is completed, and an honest seeder
sends none that is not taken. So a download is over with as many blocks as there are.
-/

set_option autoImplicit false

namespace K0Torrent

namespace PieceManager

/-- The blocks of a piece that have been downloaded. -/
def gathered (manager : PieceManager) (pieceIndex : Nat) : Nat :=
  if manager.picker.isCompleted pieceIndex then blockCount (pieceSize manager.torrent pieceIndex)
  else (manager.activePieces.lookup pieceIndex).elim 0 ActivePiece.blocksDownloaded

/-- Those of all the pieces. -/
def gatheredAll (manager : PieceManager) : Nat :=
  ∑ pieceIndex ∈ Finset.range manager.torrent.pieces.length, manager.gathered pieceIndex

section
variable {manager next : PieceManager} {pieceIndex : Nat} {active : ActivePiece}

theorem gathered_of_active (sound : manager.Sound)
    (found : manager.activePieces.lookup pieceIndex = some active) :
    manager.gathered pieceIndex = active.blocksDownloaded := by
  have member : pieceIndex ∈ manager.activePieces := by
    rw [← AList.lookup_isSome, found]
    rfl
  rw [gathered, sound.incomplete member, if_neg Bool.false_ne_true, found]
  rfl

theorem gathered_le (sound : manager.Sound) (pieceIndex : Nat) :
    manager.gathered pieceIndex ≤ blockCount (pieceSize manager.torrent pieceIndex) := by
  unfold gathered
  split
  · exact Nat.le_refl _
  · cases found : manager.activePieces.lookup pieceIndex with
    | none => exact Nat.zero_le _
    | some active =>
      have wellFormed := sound.wellFormed found
      have few := List.countP_le_length (p := Block.isDownloaded) (l := active.blocks)
      rwa [← wellFormed.count, wellFormed.length, length_initActivePiece] at few

/-- A piece that changes and keeps its count leaves all counts. -/
theorem gathered_setPiece (incomplete : manager.picker.isCompleted pieceIndex = false)
    (same : active.blocksDownloaded =
      (manager.activePieces.lookup pieceIndex).elim 0 ActivePiece.blocksDownloaded) :
    (manager.setPiece pieceIndex active).gathered = manager.gathered := by
  funext other
  unfold gathered
  rw [picker_setPiece, torrent_setPiece, lookup_setPiece]
  by_cases here : other = pieceIndex
  · subst here
    rw [incomplete, if_neg Bool.false_ne_true, if_neg Bool.false_ne_true, if_pos rfl]
    exact same
  · rw [if_neg here]

theorem gathered_creates {peer : Peer} {request : Option BlockRequest} (sound : manager.Sound)
    (creates : manager.Creates peer next request) : next.gathered = manager.gathered := by
  have unopened {pieceIndex : Nat} (opens : manager.Opens peer pieceIndex) :
      (initActivePiece manager.torrent pieceIndex).blocksDownloaded =
        (manager.activePieces.lookup pieceIndex).elim 0 ActivePiece.blocksDownloaded := by
    rw [AList.lookup_eq_none.mpr opens.pickable.inactive]
    unfold initActivePiece
    dsimp only
    split <;> rfl
  cases creates with
  | reuse at_ =>
    refine gathered_setPiece (sound.incomplete at_.mem) ?_
    rw [at_.found]
    rfl
  | idle => rfl
  | blockless opens => exact gathered_setPiece opens.pickable.incomplete (unopened opens)
  | fresh opens => exact gathered_setPiece opens.pickable.incomplete (unopened opens)

theorem gatheredAll_requests (sound : manager.Sound) (requests : manager.Requests next) :
    next.gatheredAll = manager.gatheredAll := by
  have both : next.Sound ∧ next.torrent = manager.torrent ∧ next.gathered = manager.gathered := by
    refine requests.keeps (fun next => next.Sound ∧ next.torrent = manager.torrent ∧
      next.gathered = manager.gathered) ?_ ⟨sound, rfl, rfl⟩
    rintro current created peer request ⟨sound, torrent, gathered⟩ creates
    exact ⟨sound.creates creates, creates.torrent.trans torrent,
      (gathered_creates sound creates).trans gathered⟩
  rw [gatheredAll, both.2.1, both.2.2, gatheredAll]

/-- A block that is taken is one more of its piece, unless the piece fails its hash. -/
theorem gathered_processes {sha1 : Bytes → Digest} {blockOffset k : Nat} {data : Bytes} {done : Bool}
    {block : Block} (sound : manager.Sound)
    (takes : manager.Takes pieceIndex blockOffset active k block)
    (processes : manager.Processes sha1 pieceIndex blockOffset data next done)
    (verified : active.blocksDownloaded + 1 = active.totalBlocks → manager.torrent.pieces[pieceIndex]? =
      some (sha1 (completedPiece (filled active k data)))) (other : Nat) :
    next.gathered other = manager.gathered other + if other = pieceIndex then 1 else 0 := by
  have before := gathered_of_active sound takes.at_.found
  have incomplete := sound.incomplete takes.at_.mem
  cases processes with
  | rejected rejects => exact absurd takes (rejects _ _ _)
  | @recorded active' j block' takes' =>
    obtain ⟨rfl, rfl, rfl⟩ := takes.unique sound takes'
    by_cases here : other = pieceIndex
    · subst here
      rw [if_pos rfl, before, gathered, picker_setPiece, incomplete, if_neg Bool.false_ne_true,
        lookup_setPiece, if_pos rfl]
      rfl
    · rw [if_neg here, gathered, gathered, picker_setPiece, torrent_setPiece,
        lookup_setPiece_of_ne _ _ _ here]
      rfl
  | @completed active' j block' takes' last =>
    obtain ⟨rfl, rfl, rfl⟩ := takes.unique sound takes'
    have bound := sound.bound takes.at_.mem
    have wellFormed := sound.wellFormed takes.at_.found
    by_cases here : other = pieceIndex
    · subst here
      rw [if_pos rfl, before, last, wellFormed.total, wellFormed.length, length_initActivePiece,
        gathered, isCompleted_markCompleted _ _ _ bound, decide_eq_true rfl, Bool.true_or, if_pos rfl]
    · rw [if_neg here, gathered, gathered, isCompleted_markCompleted _ _ _ bound,
        decide_eq_false here, Bool.false_or, AList.lookup_erase_ne here]
      rfl
  | @failed active' j block' takes' last unverified =>
    obtain ⟨rfl, rfl, rfl⟩ := takes.unique sound takes'
    exact absurd (verified last) unverified

end

end PieceManager

/-- The blocks of a torrent. -/
def TorrentFile.blockTotal (torrent : TorrentFile) : Nat :=
  ∑ pieceIndex ∈ Finset.range torrent.pieces.length,
    PieceManager.blockCount (PieceManager.pieceSize torrent pieceIndex)

namespace Session

open PieceManager

variable {ι : Type}

/-- The message is a block. -/
def bringsBlock : Event ι → Bool
  | .message _ msg _ _ => msg.id = .piece
  | .handshake _ | .disconnect _ => false

section
variable {setup : Setup} {content : Bytes} {manager : PieceManager}
  (measures : Measures setup content) (regular : Regular setup manager)
include measures regular

theorem gathered_lt {pieceIndex : Nat} (bound : pieceIndex < setup.torrent.pieces.length)
    (incomplete : manager.picker.isCompleted pieceIndex = false) :
    manager.gathered pieceIndex < blockCount (pieceSize setup.torrent pieceIndex) := by
  cases found : manager.activePieces.lookup pieceIndex with
  | none =>
    rw [gathered, incomplete, if_neg Bool.false_ne_true, found]
    exact measures.blockCount_pos bound
  | some active =>
    have wellFormed := regular.sound.wellFormed found
    have waits := wellFormed.waits (blocks_ne_nil measures regular found)
    rw [gathered_of_active regular.sound found]
    rwa [wellFormed.total, wellFormed.length, length_initActivePiece, regular.torrent] at waits

omit measures in
theorem gatheredAll_le : manager.gatheredAll ≤ setup.torrent.blockTotal := by
  rw [gatheredAll, TorrentFile.blockTotal, ← regular.torrent]
  exact Finset.sum_le_sum fun pieceIndex _ => gathered_le regular.sound pieceIndex

theorem gatheredAll_eq_iff : manager.gatheredAll = setup.torrent.blockTotal ↔
    ∀ pieceIndex < setup.torrent.pieces.length, manager.picker.isCompleted pieceIndex = true := by
  rw [gatheredAll, TorrentFile.blockTotal, ← regular.torrent,
    Finset.sum_eq_sum_iff_of_le fun pieceIndex _ => gathered_le regular.sound pieceIndex]
  simp only [Finset.mem_range]
  refine forall₂_congr fun pieceIndex bound => ?_
  constructor
  · intro all
    by_contra incomplete
    rw [regular.torrent] at bound all
    have few := gathered_lt measures regular bound (Bool.eq_false_of_not_eq_true incomplete)
    omega
  · intro completed
    rw [gathered, if_pos completed]

end

variable [DecidableEq ι] {setup : Setup} {content : Bytes} {session next : Session ι}

/-- An honest seeder's block is one more, and nothing else that it sends is. -/
theorem Downloading.gathers {event : Event ι} (downloading : Downloading setup content session)
    (measures : Measures setup content) (honest : Honest setup content session event)
    (taken : Session.step setup session event = some next) :
    next.pieces.gatheredAll = session.pieces.gatheredAll + (bringsBlock event).toNat := by
  have regular := downloading.regular
  have quiet (empty : ∀ pieceIndex blockOffset data results,
      ¬ Carries event pieceIndex blockOffset data results) :
      next.pieces.gatheredAll = session.pieces.gatheredAll := by
    cases moves_of_step taken with
    | quiet _ _ requests => exact gatheredAll_requests regular.sound requests
    | stored carries => exact absurd carries (empty _ _ _ _)
  cases honest with
  | handshake => exact quiet nofun
  | bitfield => exact quiet fun _ _ _ _ carries => nomatch carries.id
  | unchoke => exact quiet fun _ _ _ _ carries => nomatch carries.id
  | @answer connection request order results fits owes =>
    have whole := delivers_answer measures downloading.toOngoing fits owes
    have brings := @Carries.message _ connection _ order results _ _ _ whole
    obtain ⟨active, k, block, at_, requested, same⟩ :=
      downloading.ledger.marked connection request fits owes
    have waits : block.state ≠ .downloaded := by
      rw [requested]
      nofun
    cases moves_of_step taken with
    | quiet empty => exact absurd brings (empty _ _ _ _)
    | stored carries processes files requests =>
      obtain ⟨rfl, rfl, rfl, -⟩ := brings.unique carries
      have counts := gathered_processes regular.sound (takes_of_request at_ waits same) processes
        fun last => verified_content measures regular at_ waits same downloading.collected last
      have bound := regular.sound.index_lt (regular.sound.bound at_.mem)
      have sum : (∑ pieceIndex ∈ Finset.range session.pieces.torrent.pieces.length,
          if pieceIndex = request.piece then 1 else 0) = 1 := by
        rw [Finset.sum_ite_eq', if_pos (Finset.mem_range.mpr bound)]
      rw [gatheredAll_requests (regular.sound.processes processes) requests, gatheredAll,
        processes.torrent, Finset.sum_congr rfl fun pieceIndex _ => counts pieceIndex,
        Finset.sum_add_distrib, sum]
      rfl

/-- With honest seeders every block comes once: there are never more of them than the torrent has,
the download is complete when there are as many, and until then a request is unanswered. What the
file operations come to makes no difference. -/
theorem completed_of_count {start final : Session ι}
    {history : List (Machine.Transition (Session ι) (Event ι))}
    (measures : Measures setup content) (runs : Runs setup start history final)
    (honest : ∀ x ∈ history, Honest setup content x.before x.event) :
    history.countP (fun x => bringsBlock x.event) ≤ setup.torrent.blockTotal ∧
    (history.countP (fun x => bringsBlock x.event) = setup.torrent.blockTotal ↔
      ∀ pieceIndex < setup.torrent.pieces.length,
        final.pieces.picker.isCompleted pieceIndex = true) ∧
    ∀ connection, .received connection ⟨.unchoke, []⟩ ∈ final.wire →
      history.countP (fun x => bringsBlock x.event) < setup.torrent.blockTotal →
        ∃ other request, BlockRequest.Fits request ∧
          Unanswered setup content final.wire other request := by
  obtain ⟨downloading, count⟩ : Downloading setup content final ∧
      final.pieces.gatheredAll = history.countP fun x => bringsBlock x.event := by
    refine runs.2.invariant_of_guard (fun history session => Downloading setup content session ∧
        session.pieces.gatheredAll = history.countP fun x => bringsBlock x.event)
      (fun session event => Honest setup content session event) ⟨runs.1.downloading, ?_⟩ ?_ honest
    · rw [runs.1.pieces]
      exact Finset.sum_eq_zero fun pieceIndex _ => by
        rw [gathered, isCompleted_new, if_neg Bool.false_ne_true]
        rfl
    · rintro history session event next - ⟨downloading, count⟩ honest taken
      refine ⟨downloading.step measures honest taken, ?_⟩
      rw [downloading.gathers measures honest taken, count, List.countP_cons]
      cases bringsBlock event <;> rfl
  rw [← count]
  have complete := gatheredAll_eq_iff measures downloading.regular
  refine ⟨gatheredAll_le downloading.regular, complete, fun connection member fewer => ?_⟩
  have unchoked := downloading.introduced.heard connection member
  refine (downloading.completes measures unchoked).resolve_right fun completed => ?_
  exact absurd (complete.mpr completed) (Nat.ne_of_lt fewer)

/-- A torrent of two pieces. -/
def twoBytes : Setup :=
  { oneByte with
    torrent := { oneByte.torrent with
      length := 2
      pieces := [oneByteSha1 [1], oneByteSha1 [2]] } }

theorem measures_twoBytes : Measures twoBytes [1, 2] where
  total := by decide
  positive := by decide
  pieceLength := by decide
  pieces := by decide
  few := by decide
  hashes := by decide

/-- Two seeders, of which the one that is asked answers in the other order, to a disk that
cannot be written to. -/
def twoSeeders : List (Event Bool) :=
  [.handshake true, receive true ⟨.bitfield, [192]⟩, .handshake false, receive true ⟨.unchoke, []⟩,
    receive false ⟨.bitfield, [192]⟩, receive false ⟨.unchoke, []⟩,
    .message true (answer twoBytes.torrent [1, 2] ⟨1, 0, 1⟩) inOrder [⟨.failed, none, none, 0⟩],
    receive true (answer twoBytes.torrent [1, 2] ⟨0, 0, 1⟩)]

theorem completed_of_count_twoBytes :
    ∃ history final, Runs twoBytes (waiting twoBytes) history final ∧
      twoBytes.torrent.blockTotal = 2 ∧ history.countP (fun x => bringsBlock x.event) = 2 ∧
      ∀ pieceIndex < twoBytes.torrent.pieces.length,
        final.pieces.picker.isCompleted pieceIndex = true := by
  obtain ⟨history, final, runs, honest, count⟩ : ∃ history final,
      Runs twoBytes (waiting twoBytes) history final ∧
        (∀ x ∈ history, Honest twoBytes [1, 2] x.before x.event) ∧
        history.countP (fun x => bringsBlock x.event) = 2 := by
    have full : Full twoBytes.torrent { bitfield := [192] } := by decide
    refine ⟨_, _, runs_of_replay twoBytes twoSeeders rfl, ?_, by decide⟩
    simp only [List.forall_mem_cons]
    refine ⟨.answer (by decide) (by decide +kernel), .answer (by decide) (by decide +kernel),
      .unchoke full (.tail _ (.head _)), .bitfield full, .unchoke full (.tail _ (.head _)),
      .handshake, .bitfield full, .handshake, List.forall_mem_nil _⟩
  have total : twoBytes.torrent.blockTotal = 2 := by decide
  have counted := completed_of_count measures_twoBytes runs honest
  exact ⟨history, final, runs, total, count, counted.2.1.mp (count.trans total.symm)⟩

end Session

end K0Torrent
