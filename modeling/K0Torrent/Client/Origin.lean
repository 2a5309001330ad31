import K0Torrent.Client.Refinement
import K0Torrent.Session.Origin

/-! Where the bytes of the files come from, from the sockets on. -/

set_option autoImplicit false

namespace K0Torrent.Client

open Machine Session FileStore LexicalPath

variable {ι : Type} [DecidableEq ι]

section
variable {setup : Setup} {start final : Client ι} {history : List (Transition (Client ι) (Event ι))}

theorem Shows.mem_delivered {client : Client ι} {session : Session ι} (shows_ : Shows client session)
    {i : ι} {msg : PeerMessage} (received : .received i msg ∈ session.wire) :
    msg ∈ (client.net.endpoints i).connection.delivered := by
  rw [shows_.delivered, List.mem_reverse]
  exact List.mem_filterMap.mpr ⟨_, received, if_pos rfl⟩

/-- Whoever sends what, nothing changes outside of the torrent's files and their lengths, no file
becomes shorter, and each byte in a file has been there from the start, or has come from a peer
in a block for that very place, or is a zero of a gap. This is so of the files as they are, and
with all that the streams have taken. -/
theorem at_disk_cases (runs : Runs setup start history final)
    {files : Disk → Files (Place Bytes) UInt8} (which : files ∈ [Disk.stored, Disk.contents]) :
    (∀ cell, ¬ setup.disk.Reaches cell →
        (files final.disk).at cell = (files start.disk).at cell) ∧
      (∀ path, (files start.disk path).length ≤ (files final.disk path).length) ∧
      ∀ cell byte, (files final.disk).at cell = some byte →
        (files start.disk).at cell = some byte ∨
          (∃ i, ∃ msg ∈ (final.net.endpoints i).connection.delivered,
            ∃ pieceIndex blockOffset data, Delivers msg pieceIndex blockOffset data ∧
              setup.disk.Brings pieceIndex blockOffset data cell byte) ∨
          byte = 0 ∧ (files start.disk).at cell = none ∧ setup.disk.Reaches cell := by
  obtain ⟨session, ⟨messages, run⟩, follows⟩ := runs.advances
  have accounted : Accounted setup start.disk session :=
    Session.Runs.accounted ⟨runs.1.waiting.initial, run⟩
  have traced : Traced setup session (files start.disk) (files session.disk) := by
    rcases List.mem_pair.mp which with rfl | rfl
    · exact accounted.stored
    · exact accounted.contents
  rw [← follows.shows_.disk]
  refine ⟨fun cell outside => ?_, fun path => ?_, fun cell byte stored => ?_⟩
  · cases stored : (files session.disk).at cell with
    | none =>
      cases held : (files start.disk).at cell with
      | none => rfl
      | some byte => cases stored.symm.trans (traced.outside cell byte outside held)
    | some byte =>
      rcases traced.origin cell byte stored with old | came | ⟨-, -, reaches⟩
      · exact old.symm
      · obtain ⟨_, _, _, _, _, -, -, brings⟩ := came
        exact absurd brings.reaches outside
      · exact absurd reaches outside
  · by_contra shorter
    refine traced.kept (path, (files session.disk path).length) ?_
      (List.getElem?_eq_none (Nat.le_refl _))
    exact fun none_ => shorter (List.getElem?_eq_none_iff.mp none_)
  · refine (traced.origin cell byte stored).imp_right (Or.imp_left ?_)
    rintro ⟨i, msg, pieceIndex, blockOffset, data, received, delivers, brings⟩
    exact ⟨i, msg, follows.shows_.mem_delivered received, pieceIndex, blockOffset, data, delivers,
      brings⟩

/-- The file of one byte has it from the peer. -/
theorem at_disk_cases_dialled : ∃ history final, Runs oneByte dialled history final ∧
    final.disk.stored (oneByte.disk.file (ascii "a")) = [1] ∧
    ∃ i, ∃ msg ∈ (final.net.endpoints i).connection.delivered,
      ∃ pieceIndex blockOffset data, Delivers msg pieceIndex blockOffset data ∧
        oneByte.disk.Brings pieceIndex blockOffset data
          (oneByte.disk.file (ascii "a"), 0) 1 := by
  obtain ⟨history, final, runs, stored⟩ : ∃ history final, Runs oneByte dialled history final ∧
      final.disk.stored (oneByte.disk.file (ascii "a")) = [1] :=
    ⟨_, _, @runs_of_replay [hears itsHandshake,
      hears [0, 0, 0, 2, 5, 0x80, 0, 0, 0, 1, 1, 0, 0, 0, 10, 7, 0, 0, 0, 0, 0, 0, 0, 0, 1]] _ _ rfl,
      by decide⟩
  refine ⟨history, final, runs, stored, ?_⟩
  have here : final.disk.stored.at (oneByte.disk.file (ascii "a"), 0) = some 1 := by
    rw [FileStore.Files.at, stored]
    rfl
  rcases (at_disk_cases runs (List.mem_cons_self ..)).2.2 _ _ here with old | came | ⟨zero, -⟩
  · cases old
  · exact came
  · cases zero

end

end K0Torrent.Client
