import K0Torrent.Library.Machine
import K0Torrent.Net.EventLoop

/-! What `run_once` polls, whatever becomes of the registrations meanwhile (`event_loop.cpp`).

The loop is called by its owner and by the callbacks, which may call `run_once` again. A call
of `add`, `modify` or `remove` is one step; `run_once` takes one step up to `poll`, one for each
return of `poll` and one for each entry. What the callers do, and what `poll` comes to, is given
from outside. The reads that empty the pipe are taken to return.
-/

set_option autoImplicit false

namespace K0Torrent

open EventLoop

/-! ## Up to `poll` and behind it -/

namespace EventLoop

variable {Cb : Type}

/-- `run_once` as far as the call of `poll`. -/
def handOver (loop : EventLoop Cb) (order : EntryOrder Cb) : EventLoop Cb :=
  let loop := if loop.dirty then loop.rebuildPollfds order else loop
  { loop with pollfds := loop.pollfds.map fun pfd => { pfd with revents := 0 } }

/-- `poll` notes what it has found. -/
def report (loop : EventLoop Cb) (revents : Nat → Nat) : EventLoop Cb :=
  { loop with pollfds := loop.pollfds.mapIdx fun i pfd => { pfd with revents := revents i } }

theorem report_handOver (loop : EventLoop Cb) (order : EntryOrder Cb) (revents : Nat → Nat) :
    (loop.handOver order).report revents = loop.poll order revents := by
  have same : (loop.handOver order).pollfds.mapIdx (fun i pfd => { pfd with revents := revents i }) =
      (loop.poll order revents).pollfds := by
    apply List.ext_getElem?
    intro i
    simp [handOver, poll, Function.comp_def]
  simp only [report, same]
  rfl

/-- The pipe's entry has something to read. -/
def pipeReadable (loop : EventLoop Cb) : Bool :=
  match loop.pollfds with
  | [] => false
  | pipe :: _ => hasEvent pipe.revents pollIn

end EventLoop

namespace PollSet

open Machine

/-! ## The steps -/

/-- Where the thread is. Around the loop is the code that calls it: its owner's, or that of the
callback called last. -/
inductive Control where
  | around
  | polling
  | among (i ready : Nat)
  deriving DecidableEq

/-- The passes are those whose callbacks have not returned yet, the innermost first, each with
its entry and what is left of its counter. -/
structure State (Cb : Type) where
  loop : EventLoop Cb
  control : Control := .around
  passes : List (Nat × Nat) := []
  -- The last call was left by an exception.
  threw : Bool := false

inductive Event (Cb : Type) where
  | add (fd : Int) (events : Nat) (cb : Cb)
  | modify (fd : Int) (events : Nat)
  | remove (fd : Int)
  | runOnce (order : EntryOrder Cb)
  -- `EINTR`: the same array is polled again.
  | interrupted
  | pollFails
  | pollReturns (revents : Nat → Nat)
  | entry
  | callbackReturns
  | callbackThrows

variable {Cb : Type}

def new (pipeRead : Int) : State Cb where
  loop := EventLoop.new pipeRead

/-- A call of `add` or `modify`, which throws or not. -/
def State.called (s : State Cb) : Except LoopError (EventLoop Cb) → State Cb
  | .ok loop => { s with loop, threw := false }
  | .error _ => { s with threw := true }

/-- The loop over the entries, at one of them. -/
def State.entry (s : State Cb) (i ready : Nat) : State Cb :=
  -- A call of `run_once` by a callback may have left an array that ends before.
  match s.loop.pollfds[i]? with
  | none => { s with control := .around, threw := false }
  | some pfd =>
    if ready = 0 then { s with control := .around, threw := false }
    else if pfd.revents = 0 then { s with control := .among (i + 1) ready }
    else
      match s.loop.lookup pfd.fd with
      -- A callback has removed it since.
      | none => { s with control := .among (i + 1) (ready - 1) }
      | some _ => { s with control := .around, passes := (i, ready - 1) :: s.passes, threw := false }

def State.reported (s : State Cb) (revents : Nat → Nat) : State Cb :=
  let loop := s.loop.report revents
  if loop.ready = 0 then { s with loop, control := .around, threw := false }
  else
    let ready := if loop.pipeReadable then loop.ready - 1 else loop.ready
    { s with loop, control := .among 1 ready }

def step (s : State Cb) (e : Event Cb) : Option (State Cb) :=
  match s.control, e with
  | .around, .add fd events cb => some (s.called (s.loop.add fd events cb))
  | .around, .modify fd events => some (s.called (s.loop.modify fd events))
  | .around, .remove fd => some { s with loop := s.loop.remove fd, threw := false }
  | .around, .runOnce order => some { s with loop := s.loop.handOver order, control := .polling }
  | .polling, .interrupted => some s
  | .polling, .pollFails => some { s with control := .around, threw := true }
  | .polling, .pollReturns revents => some (s.reported revents)
  | .among i ready, .entry => some (s.entry i ready)
  | .around, .callbackReturns =>
    match s.passes with
    | [] => none
    | (i, ready) :: passes => some { s with control := .among (i + 1) ready, passes }
  -- `run_once` does not catch it, and is left as well.
  | .around, .callbackThrows =>
    match s.passes with
    | [] => none
    | _ :: passes => some { s with passes, threw := true }
  | _, _ => none

/-! ## What is registered -/

abbrev Masks := Int → Option Nat

/-- Only a descriptor that is not registered can be added, and only one that is can be
modified. -/
def Event.masks (masks : Masks) : Event Cb → Masks
  | .add fd events _ => Function.update masks fd (some ((masks fd).getD events))
  | .modify fd events => Function.update masks fd ((masks fd).map fun _ => events)
  | .remove fd => Function.update masks fd none
  | _ => masks

/-- The mask of each registered descriptor, after the calls of a history. -/
def masksOf (history : List (Transition (State Cb) (Event Cb))) : Masks :=
  history.foldr (fun x masks => x.event.masks masks) fun _ => none

/-- What an entry has polled. -/
def asks (pfd : PollFd) : Int × Nat := (pfd.fd, pfd.events)

/-- The pipe first, and then one entry for each registered descriptor. -/
structure Mirrors (pipeRead : Int) (masks : Masks) (pollfds : List PollFd) : Prop where
  pipe : pollfds.head?.map asks = some (pipeRead, pollIn)
  once : (pollfds.tail.map PollFd.fd).Nodup
  registered : ∀ fd, fd ∈ pollfds.tail.map PollFd.fd ↔ (masks fd).isSome
  mask : ∀ pfd ∈ pollfds.tail, ∀ events < 2 ^ 15, masks pfd.fd = some events → pfd.events = events

/-! ## What the array has to do with the registrations -/

/-- As long as the flag is not set, the entries are those that `rebuild_pollfds` would make. -/
structure Synced (pipeRead : Int) (masks : Masks) (loop : EventLoop Cb) : Prop where
  registered : ∀ fd, (loop.lookup fd).map Entry.events = masks fd
  pipe : loop.pollfds.head?.map asks = some (pipeRead, pollIn)
  clean : loop.dirty = false → (loop.pollfds.tail.map asks).Perm
    (loop.registered.entries.map fun entry => (entry.1, castShort entry.2.events))

section
variable {pipeRead : Int} {masks : Masks} {loop after : EventLoop Cb}

theorem synced_new (pipeRead : Int) :
    Synced pipeRead (fun _ => none) (EventLoop.new pipeRead : EventLoop Cb) where
  registered _ := rfl
  pipe := rfl
  clean _ := List.Perm.refl _

theorem Synced.add (synced : Synced pipeRead masks loop) {fd : Int} {events : Nat} {cb : Cb}
    (added : loop.add fd events cb = .ok after) :
    Synced pipeRead (Event.masks masks (.add fd events cb)) after where
  registered other := by
    have free := (add_ok_iff.mp added).1
    have none_ : masks fd = none := by simp [← synced.registered, free]
    rw [lookup_add added]
    by_cases same : other = fd
    · simp [Event.masks, same, none_]
    · simp [Event.masks, same, synced.registered]
  pipe := by
    obtain ⟨-, rfl⟩ := add_ok_iff.mp added
    exact synced.pipe
  clean kept := by
    obtain ⟨-, rfl⟩ := add_ok_iff.mp added
    cases kept

theorem Synced.modify (synced : Synced pipeRead masks loop) {fd : Int} {events : Nat}
    (modified : loop.modify fd events = .ok after) :
    Synced pipeRead (Event.masks masks (.modify fd events : Event Cb)) after where
  registered other := by
    obtain ⟨entry, found, -⟩ := modify_ok_iff.mp modified
    have some_ : masks fd = some entry.events := by simp [← synced.registered, found]
    rw [lookup_modify found modified]
    by_cases same : other = fd
    · simp [Event.masks, same, some_]
    · simp [Event.masks, same, synced.registered]
  pipe := by
    obtain ⟨entry, -, rfl⟩ := modify_ok_iff.mp modified
    exact synced.pipe
  clean kept := by
    obtain ⟨entry, -, rfl⟩ := modify_ok_iff.mp modified
    cases kept

theorem Synced.remove (synced : Synced pipeRead masks loop) (fd : Int) :
    Synced pipeRead (Event.masks masks (.remove fd : Event Cb)) (loop.remove fd) where
  registered other := by
    rw [lookup_remove]
    by_cases same : other = fd
    · simp [Event.masks, same]
    · simp [Event.masks, same, synced.registered]
  pipe := by
    unfold EventLoop.remove
    split
    · exact synced.pipe
    · exact synced.pipe
  clean kept := by
    unfold EventLoop.remove at kept ⊢
    split at kept
    · cases kept
    · rename_i none_
      rw [if_neg none_]
      exact synced.clean kept

/-- The specification passes over a call that fails, too. -/
theorem masks_add_error (synced : Synced pipeRead masks loop) {fd : Int} {events : Nat} {cb : Cb}
    {error : LoopError} (failed : loop.add fd events cb = .error error) :
    Event.masks masks (.add fd events cb) = masks := by
  obtain ⟨entry, found⟩ := Option.isSome_iff_exists.mp (lookup_of_add_error failed)
  have some_ : masks fd = some entry.events := by simp [← synced.registered, found]
  simp [Event.masks, some_]

theorem masks_modify_error (synced : Synced pipeRead masks loop) {fd : Int} {events : Nat}
    {error : LoopError} (failed : loop.modify fd events = .error error) :
    Event.masks masks (.modify fd events : Event Cb) = masks := by
  have none_ : masks fd = none := by simp [← synced.registered, lookup_of_modify_error failed]
  simp [Event.masks, none_]

/-- What `poll` finds makes no difference. -/
theorem Synced.asking (synced : Synced pipeRead masks loop) {pollfds : List PollFd}
    (same : pollfds.map asks = loop.pollfds.map asks) :
    Synced pipeRead masks { loop with pollfds } where
  registered := synced.registered
  pipe := by
    rw [← List.head?_map, same, List.head?_map]
    exact synced.pipe
  clean kept := by
    rw [List.map_tail, same, ← List.map_tail]
    exact synced.clean kept

theorem Synced.report (synced : Synced pipeRead masks loop) (revents : Nat → Nat) :
    Synced pipeRead masks (loop.report revents) := by
  apply synced.asking
  apply List.ext_getElem?
  intro i
  simp only [List.getElem?_map, List.getElem?_mapIdx, Option.map_map]
  rfl

theorem Synced.rebuildPollfds (synced : Synced pipeRead masks loop) (order : EntryOrder Cb) :
    Synced pipeRead masks (loop.rebuildPollfds order) := by
  obtain ⟨pipe, rest, pollfds, asked⟩ : ∃ pipe rest, loop.pollfds = pipe :: rest ∧
      asks pipe = (pipeRead, pollIn) := by
    have first := synced.pipe
    cases pollfds : loop.pollfds with
    | nil => simp [pollfds] at first
    | cons pipe rest => exact ⟨pipe, rest, rfl, by simpa [pollfds] using first⟩
  refine ⟨synced.registered, ?_, fun _ => ?_⟩
  · simp [EventLoop.rebuildPollfds, pollfds, asked]
  · have made := (order.perm loop.registered.entries).map
      fun entry => (entry.1, castShort entry.2.events)
    simpa [EventLoop.rebuildPollfds, pollfds, asks, Function.comp_def] using made

theorem Synced.handOver (synced : Synced pipeRead masks loop) (order : EntryOrder Cb) :
    Synced pipeRead masks (loop.handOver order) ∧ (loop.handOver order).dirty = false := by
  unfold EventLoop.handOver
  dsimp only
  split
  · refine ⟨(synced.rebuildPollfds order).asking ?_, rfl⟩
    simp [asks, Function.comp_def]
  · rename_i clean
    refine ⟨synced.asking ?_, Bool.eq_false_iff.mpr clean⟩
    simp [asks, Function.comp_def]

/-- An array that is in step is what the claim of `poll` needs. -/
theorem Synced.mirrors (synced : Synced pipeRead masks loop) (clean : loop.dirty = false) :
    Mirrors pipeRead masks loop.pollfds := by
  have same := synced.clean clean
  have fds : (loop.pollfds.tail.map PollFd.fd).Perm loop.registered.keys := by
    have first := same.map Prod.fst
    simpa [asks, Function.comp_def, AList.keys, List.keys] using first
  refine ⟨synced.pipe, fds.nodup_iff.mpr loop.registered.keys_nodup, fun fd => ?_, ?_⟩
  · rw [fds.mem_iff, ← synced.registered, Option.isSome_map]
    exact AList.lookup_isSome.symm
  · intro pfd member events small mask
    have entry := same.subset (List.mem_map_of_mem member)
    obtain ⟨entry, stored, same⟩ := List.mem_map.mp entry
    have found : loop.lookup entry.1 = some entry.2 := AList.mem_lookup_iff.mpr stored
    simp only [asks, Prod.mk.injEq] at same
    rw [← synced.registered, ← same.1, found] at mask
    cases mask
    rw [← same.2]
    exact Nat.mod_eq_of_lt (by omega)

end

/-! ## Runs -/

/-- While the thread is at `poll`, no call has come in since the array was handed over. -/
structure Holds (pipeRead : Int) (masks : Masks) (s : State Cb) : Prop where
  synced : Synced pipeRead masks s.loop
  polling : s.control = .polling → s.loop.dirty = false

section
variable {pipeRead : Int} {masks : Masks} {s t : State Cb} {e : Event Cb}

theorem entry_keeps (s : State Cb) (i ready : Nat) :
    (s.entry i ready).loop = s.loop ∧ (s.entry i ready).control ≠ .polling := by
  unfold State.entry
  split
  · simp
  · split
    · simp
    · split
      · simp
      · split
        · simp
        · simp

theorem reported_keeps (s : State Cb) (revents : Nat → Nat) :
    (s.reported revents).loop = s.loop.report revents ∧ (s.reported revents).control ≠ .polling := by
  unfold State.reported
  dsimp only
  split
  · simp
  · simp

/-- Outside `poll` only the array and the registrations matter. -/
theorem holds_of_synced (synced : Synced pipeRead masks t.loop) (elsewhere : t.control ≠ .polling) :
    Holds pipeRead masks t :=
  ⟨synced, fun polling => absurd polling elsewhere⟩

theorem Holds.called (holds : Holds pipeRead masks s) (around : s.control = .around)
    {result : Except LoopError (EventLoop Cb)} {masks' : Masks}
    (ok : ∀ loop, result = .ok loop → Synced pipeRead masks' loop)
    (error : ∀ error, result = .error error → masks' = masks) :
    Holds pipeRead masks' (s.called result) := by
  cases result with
  | ok loop =>
    apply holds_of_synced (ok loop rfl)
    simp [State.called, around]
  | error fault =>
    rw [error fault rfl]
    apply holds_of_synced
    · exact holds.synced
    · simp [State.called, around]

theorem Holds.step (holds : Holds pipeRead masks s) (taken : step s e = some t) :
    Holds pipeRead (e.masks masks) t := by
  have synced := holds.synced
  unfold PollSet.step at taken
  split at taken
  · rename_i around
    cases taken
    exact holds.called around (fun loop added => synced.add added)
      fun error failed => masks_add_error synced failed
  · rename_i around
    cases taken
    exact holds.called around (fun loop modified => synced.modify modified)
      fun error failed => masks_modify_error synced failed
  · rename_i around
    cases taken
    apply holds_of_synced (synced.remove _)
    simp [around]
  · cases taken
    exact ⟨(synced.handOver _).1, fun _ => (synced.handOver _).2⟩
  · cases taken
    exact holds
  · cases taken
    apply holds_of_synced
    · exact synced
    · simp
  · cases taken
    obtain ⟨loop, elsewhere⟩ := reported_keeps s _
    apply holds_of_synced _ elsewhere
    rw [loop]
    exact synced.report _
  · cases taken
    obtain ⟨loop, elsewhere⟩ := entry_keeps s _ _
    apply holds_of_synced _ elsewhere
    rw [loop]
    exact synced
  · split at taken
    · cases taken
    · cases taken
      apply holds_of_synced
      · exact synced
      · simp
  · rename_i around
    split at taken
    · cases taken
    · cases taken
      apply holds_of_synced
      · exact synced
      · simp [around]
  · cases taken

end

section
variable {pipeRead : Int} {history : List (Transition (State Cb) (Event Cb))} {s : State Cb}

theorem holds_of_run (run : Run step (new pipeRead) history s) :
    Holds pipeRead (masksOf history) s :=
  run.invariant_of_history (fun history s => Holds pipeRead (masksOf history) s)
    (holds_of_synced (synced_new pipeRead) (by simp [new]))
    fun _ holds taken => holds.step taken

/-- A call of `add` or `modify`. -/
def Event.registers : Event Cb → Bool
  | .add .. => true
  | .modify .. => true
  | _ => false

theorem loop_of_threw {s t : State Cb} {e : Event Cb} (taken : step s e = some t)
    (registers : e.registers = true) (threw : t.threw = true) : t.loop = s.loop := by
  have called {result : Except LoopError (EventLoop Cb)} (threw : (s.called result).threw = true) :
      (s.called result).loop = s.loop := by
    cases result with
    | ok loop => cases threw
    | error error => rfl
  unfold step at taken
  split at taken
  case h_1 | h_2 =>
    cases taken
    exact called threw
  case h_11 => cases taken
  all_goals cases registers

/-- Whenever `poll` is called, the array is that of the registrations; and a call that fails
leaves them as they were. -/
theorem mirrors_of_run (run : Run step (new pipeRead) history s) :
    (s.control = .polling → Mirrors pipeRead (masksOf history) s.loop.pollfds) ∧
      ∀ x ∈ history, x.event.registers = true → x.after.threw = true →
        x.after.loop = x.before.loop := by
  have holds := holds_of_run run
  refine ⟨fun polling => holds.synced.mirrors (holds.polling polling), fun x member => ?_⟩
  exact loop_of_threw (run.of_mem member).2

end

/-! ## A callback that changes the registrations and polls again -/

/-- The second `add` of descriptor 5 fails. -/
def reentering : List (Event Unit) :=
  [.add 7 pollIn (), .add 5 pollIn (), .runOnce (.asStored Unit),
    .pollReturns fun i => if i = 0 then 0 else pollIn, .entry, .modify 5 pollOut, .remove 7,
    .add 5 pollIn (), .runOnce (.asStored Unit)]

theorem mirrors_reentering : ∃ history, ∃ s : State Unit, Run step (new 3) history s ∧
    s.control = .polling ∧ s.loop.pollfds = [⟨3, pollIn, 0⟩, ⟨5, pollOut, 0⟩] ∧
    Mirrors 3 (masksOf history) s.loop.pollfds := by
  have run := @run_of_replay _ _ step (new 3) reentering _ _ [] _ .start rfl
  exact ⟨_, _, run, rfl, rfl, (mirrors_of_run run).1 rfl⟩

end PollSet

end K0Torrent
