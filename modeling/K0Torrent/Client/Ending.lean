import K0Torrent.Client.Serving

/-! What is left of a client behind `stop`. -/

set_option autoImplicit false

namespace K0Torrent.Client

open Machine EventLoop

variable {ι : Type} [DecidableEq ι]

/-- Nothing is open or registered, there is something in the pipe, and nothing else has changed
but what `poll` has noted. -/
structure Inert (ended client : Client ι) : Prop where
  dead : ∀ i, (client.net.endpoints i).state = .disconnected ∧ (client.net.endpoints i).fd = -1
  opened : client.net.opened = ∅
  unregistered : ∀ fd, client.net.loop.lookup fd = none
  connections : client.connections = []
  woken : client.unread ≠ 0
  endpoints : client.net.endpoints = ended.net.endpoints
  peers : client.peers = ended.peers
  pieces : client.pieces = ended.pieces
  disk : client.disk = ended.disk
  arrived : client.arrived = ended.arrived

section
variable {setup : Setup} {pipeRead : Int} {start client ended later : Client ι}
  {history : List (Transition (Client ι) (Event ι))}

/-- Whatever holds a descriptor or a registration is alive. -/
theorem Regular.inert_stop (regular : Regular setup pipeRead client) :
    Inert client.stop client.stop where
  dead i := ⟨regular.dead_stop i, regular.stop.agree.dead i (regular.dead_stop i)⟩
  opened := by
    rw [Finset.eq_empty_iff_forall_notMem]
    intro fd member
    obtain ⟨i, alive, -⟩ := regular.stop.agree.owned fd member
    exact alive (regular.dead_stop i)
  unregistered fd := by
    by_contra some_
    obtain ⟨entry, found⟩ := Option.ne_none_iff_exists'.mp some_
    exact (regular.stop.agree.registered fd entry found).1 (regular.dead_stop entry.cb)
  connections := rfl
  woken := Nat.succ_ne_zero _
  endpoints := rfl
  peers := rfl
  pieces := rfl
  disk := rfl
  arrived := rfl

omit [DecidableEq ι] in
theorem Inert.polled (inert : Inert ended client) (order : EntryOrder ι) (revents : Nat → Nat) :
    Inert ended (client.polled order revents) where
  dead := inert.dead
  opened := inert.opened
  unregistered fd := (lookup_poll order revents fd).trans (inert.unregistered fd)
  connections := inert.connections
  woken := inert.woken
  endpoints := inert.endpoints
  peers := inert.peers
  pieces := inert.pieces
  disk := inert.disk
  arrived := inert.arrived

omit [DecidableEq ι] in
theorem Inert.dues (inert : Inert ended client) : client.dues = [] := by
  unfold Client.dues
  rw [List.filterMap_eq_nil_iff]
  intro at_ member
  unfold due
  rw [inert.unregistered]
  split <;> rfl

theorem Inert.stop (inert : Inert ended client) : Inert ended client.stop := by
  have same : client.stop = { client with unread := client.unread + 1 } := by
    obtain ⟨net, connections, peers, pieces, disk, arrived, unread⟩ := client
    cases inert.connections
    rfl
  rw [same]
  exact { inert with woken := Nat.succ_ne_zero _ }

theorem Inert.runOnce (inert : Inert ended client) (regular : Regular setup pipeRead client)
    (order : EntryOrder ι) (revents : Nat → Nat) (around : Nat → Surroundings) :
    client.runOnce setup order revents around = none := by
  rw [regular.runOnce_eq, if_neg inert.woken]

/-- Only `stop` comes to an end any more. -/
theorem Inert.reaches (inert : Inert ended client) (regular : Regular setup pipeRead client)
    (reaches : Reaches (step setup) client later) :
    Inert ended later ∧ Regular setup pipeRead later := by
  apply reaches.invariant (fun later => Inert ended later ∧ Regular setup pipeRead later)
    ⟨inert, regular⟩
  rintro client e next ⟨inert, regular⟩ taken
  cases e with
  | stop =>
    cases taken
    exact ⟨inert.stop, regular.stop⟩
  | pass order revents around => cases (inert.runOnce regular order revents around).symm.trans taken

/-- From `stop` on there is no socket open and nothing registered. A pass of the loop finds
nobody to call, whatever `poll` may say, and does not return: it waits for more in the pipe than
`stop` has put there. -/
theorem inert_of_stop (runs : Runs setup start history client)
    (reaches : Reaches (step setup) client.stop later) :
    Inert client.stop later ∧ ∀ order revents around,
      Inert client.stop (later.polled order revents) ∧ (later.polled order revents).dues = [] ∧
        later.runOnce setup order revents around = none := by
  obtain ⟨pipeRead, regular⟩ := runs.regular
  obtain ⟨inert, regular⟩ := regular.inert_stop.reaches regular.stop reaches
  refine ⟨inert, fun order revents around => ?_⟩
  have polled := inert.polled order revents
  exact ⟨polled, polled.dues, inert.runOnce regular order revents around⟩

end

/-- `stop` is called twice, and the peer is heard no more. -/
theorem inert_of_stop_dialled : ∃ history client, Runs Session.oneByte dialled history client ∧
    client.net.opened = {9} ∧ client.stop.stop.net.opened = ∅ ∧
    client.stop.stop.arrived = client.stop.arrived ∧
    step Session.oneByte client.stop.stop (hears [0, 0, 0, 1, 1]) = none := by
  obtain ⟨history, client, runs, opened⟩ : ∃ history client,
      Runs Session.oneByte dialled history client ∧ client.net.opened = {9} :=
    ⟨_, _, runs_of_replay [hears itsHandshake] rfl, rfl⟩
  have taken : step Session.oneByte client.stop .stop = some client.stop.stop := rfl
  obtain ⟨inert, passes⟩ := inert_of_stop runs (.single taken)
  exact ⟨history, client, runs, opened, inert.opened, inert.arrived, (passes ..).2.2⟩

end K0Torrent.Client
