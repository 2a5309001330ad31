import K0Torrent.Client.Origin
import K0Torrent.Session.Authentic

/-! What is in the files, from the sockets on.

The session is told no more than what the connections deliver. If all the blocks among that are
the content's, it does not matter which peer sent them, in how many pieces they were read, or
who else was there.
-/

set_option autoImplicit false

namespace K0Torrent.Client

open Machine Session DiskManager PieceManager

variable {ι : Type} [DecidableEq ι]

section
variable {setup : Setup} {content : Bytes} {start final : Client ι}
  {history : List (Transition (Client ι) (Event ι))}

/-- No file operation of the pass fails. -/
def Unfailing : Event ι → Prop
  | .pass _ _ around => ∀ k calls, Succeed ((around k).results calls)
  | .stop => True

omit [DecidableEq ι] in
theorem unfailing_of_answers {event : Event ι} {answer : K0Torrent.Event ι}
    (unfailing : Unfailing event) (answers : Answers event answer) : Session.Unfailing answer := by
  rintro pieceIndex blockOffset data results ⟨delivers⟩
  cases event with
  | pass order revents around =>
    cases answers with
    | message => exact unfailing _ _
  | stop =>
    obtain ⟨i, same⟩ := answers
    cases same

omit [DecidableEq ι] in
/-- With every piece completed, the files and put areas are the content. -/
theorem content_of_truthful {session : Session ι} (truthful : Truthful setup content session)
    (describes : Describes setup content) (bounded : setup.disk.Bounded session.disk.stored)
    (completed : ∀ pieceIndex < setup.torrent.pieces.length,
      session.pieces.picker.isCompleted pieceIndex = true) :
    (setup.disk.fileMap.files.map fun file =>
        setup.disk.flushed session.disk file.path).flatten = content ∧
      ((∀ cell, session.disk.pending cell = none) →
        (setup.disk.fileMap.files.map fun file =>
          session.disk.stored (setup.disk.file file.path)).flatten = content) := by
  have consistent := describes.addressable.toConsistent
  have held : ∀ position cell, locate setup.disk.fileMap.files position = some cell →
      ∃ byte, setup.disk.byteOf session.disk cell = some byte ∧
        content[position]? = some byte := by
    intro position cell here
    obtain ⟨-, byte, -, -, held, value⟩ :=
      byteAt_of_completed describes truthful.holding truthful.agrees completed here
    rw [byteAt, here, Option.bind_some] at held
    exact ⟨byte, held, value⟩
  constructor
  · refine flatten_bytes (fun path => setup.disk.flushed session.disk path) consistent
      (fun _ => length_flushed_le (distinct_places consistent) bounded truthful.holding.tidy)
      describes.size fun position cell here => ?_
    obtain ⟨byte, held, value⟩ := held position cell here
    rw [value]
    exact getElem?_flushed held
  · intro passed
    refine flatten_bytes (fun path => session.disk.stored (setup.disk.file path)) consistent
      bounded describes.size fun position cell here => ?_
    obtain ⟨byte, held, value⟩ := held position cell here
    rw [value]
    rcases byteOf_eq_some.mp held with pends | ⟨-, stored⟩
    · cases (passed cell).symm.trans pends
    · exact stored

variable (describes : Describes setup content) (runs : Runs setup start history final)
  (unfailing : ∀ x ∈ history, Unfailing x.event)
  (authentic : ∀ i, ∀ msg ∈ (final.net.endpoints i).connection.delivered,
    ∀ pieceIndex blockOffset data, Delivers msg pieceIndex blockOffset data →
      Authentic setup content pieceIndex blockOffset data)

include describes runs unfailing authentic

/-- If the blocks that come in are the content's, then the pieces that the client has completed are
the content's in the files and put areas. With all of them completed, the files are the content,
once their streams have passed on what they hold, unless one has been longer from the start. -/
theorem contents_of_authentic :
    (∀ pieceIndex, final.pieces.picker.isCompleted pieceIndex = true →
      setup.disk.heldRange final.disk (pieceIndex * setup.torrent.pieceWidth)
          (pieceSize setup.torrent pieceIndex) =
        ((content.drop (pieceIndex * setup.torrent.pieceWidth)).take
          (pieceSize setup.torrent pieceIndex)).map some) ∧
      (setup.disk.Bounded start.disk.stored → (∀ pieceIndex < setup.torrent.pieces.length,
          final.pieces.picker.isCompleted pieceIndex = true) →
        (setup.disk.fileMap.files.map fun file =>
          setup.disk.flushed final.disk file.path).flatten = content ∧
        ((∀ cell, final.disk.pending cell = none) →
          (setup.disk.fileMap.files.map fun file =>
            final.disk.stored (setup.disk.file file.path)).flatten = content)) := by
  obtain ⟨session, messages, run, follows, answered⟩ := runs.answers
  have runs' : Session.Runs setup start.session messages session := ⟨runs.1.waiting.initial, run⟩
  have unfailing' : ∀ y ∈ messages, Session.Unfailing y.event := by
    intro y member
    obtain ⟨x, found, answers⟩ := answered y member
    exact unfailing_of_answers (unfailing x found) answers
  have authentic' : ∀ i msg, .received i msg ∈ session.wire → ∀ pieceIndex blockOffset data,
      Delivers msg pieceIndex blockOffset data →
        Authentic setup content pieceIndex blockOffset data :=
    fun i msg received => authentic i msg (follows.shows_.mem_delivered received)
  have truthful := runs'.truthful describes unfailing' authentic'
  rw [← follows.shows_.pieces, ← follows.shows_.disk]
  refine ⟨truthful.agrees.completed, fun bounded completed => ?_⟩
  exact content_of_truthful truthful describes
    (runs'.bounded describes unfailing' authentic' bounded) completed

end

/-- As `hears`, and the streams keep a byte of what is written. -/
def hearsKeeping (bytes : Bytes) : Event Unit :=
  .pass (.asStored _) ready fun k =>
    { hearing bytes k with results := fun _ => [⟨.opened, none, none, 1⟩] }

theorem unfailing_hearsKeeping (bytes : Bytes) : Unfailing (hearsKeeping bytes) :=
  fun _ _ => List.forall_mem_singleton.mpr ⟨rfl, rfl, rfl⟩

/-- The peer sends the one block in two parts, and then once more. -/
theorem contents_of_authentic_dialled : ∃ history final, Runs oneByte dialled history final ∧
    final.pieces.picker.isCompleted 0 = true ∧
    (oneByte.disk.fileMap.files.map fun file =>
      oneByte.disk.flushed final.disk file.path).flatten = [1] := by
  obtain ⟨history, final, runs, completed, delivered, unfailing⟩ : ∃ history final,
      Runs oneByte dialled history final ∧ final.pieces.picker.isCompleted 0 = true ∧
        (final.net.endpoints ()).connection.delivered = [⟨.bitfield, [0x80]⟩, ⟨.unchoke, []⟩,
          blockMessage 0 0 [1], blockMessage 0 0 [1]] ∧ ∀ x ∈ history, Unfailing x.event := by
    refine ⟨_, _, @runs_of_replay [hearsKeeping itsHandshake,
      hearsKeeping [0, 0, 0, 2, 5, 0x80, 0, 0, 0, 1, 1, 0, 0, 0, 10, 7, 0, 0, 0, 0],
      hearsKeeping [0, 0, 0, 0, 1, 0, 0, 0, 10, 7, 0, 0, 0, 0, 0, 0, 0, 0, 1]] _ _ rfl, by decide,
      by decide, ?_⟩
    simp only [List.forall_mem_cons]
    exact ⟨unfailing_hearsKeeping _, unfailing_hearsKeeping _, unfailing_hearsKeeping _,
      List.forall_mem_nil _⟩
  refine ⟨history, final, runs, completed, ?_⟩
  refine ((contents_of_authentic describes_oneByte runs unfailing ?_).2 ?_ ?_).1
  · intro i msg member pieceIndex blockOffset data delivers
    rw [delivered] at member
    refine authentic_oneByte delivers ?_
    simp only [List.mem_cons, List.not_mem_nil, or_false, or_self] at member
    rcases member with rfl | rfl | block
    · exact nomatch delivers.id
    · exact nomatch delivers.id
    · exact block
  · exact fun _ _ => Nat.zero_le _
  · intro pieceIndex bound
    cases Nat.lt_one_iff.mp bound
    exact completed

end K0Torrent.Client
