import K0Torrent.Common.Types
import Mathlib.Data.List.AList

/-! The event loop and its registrations (`event_loop.hpp`, `event_loop.cpp`).

A callback stands for whatever identifies it. `std::unordered_map` does not fix the order of
a loop over it, so `rebuild_pollfds` is given the order to use. A `short` is kept as its bits.
-/

set_option autoImplicit false

namespace K0Torrent

def pollIn : Nat := 1

def pollOut : Nat := 4

/-- The bit of a mask, as `events & POLLIN` tests it. -/
def hasEvent (events mask : Nat) : Bool := events &&& mask != 0

/-- `static_cast<short>` of a `uint32_t`. -/
def castShort (events : Nat) : Nat := events % 2 ^ 16

/-- `static_cast<uint32_t>` of a `short`. -/
def widenShort (bits : Nat) : Nat := if bits < 2 ^ 15 then bits else bits + (2 ^ 32 - 2 ^ 16)

structure PollFd where
  fd : Int
  events : Nat
  revents : Nat := 0
  deriving DecidableEq

inductive LoopError where
  | alreadyRegistered (fd : Int)
  | notRegistered (fd : Int)
  deriving DecidableEq

def LoopError.what : LoopError → String
  | alreadyRegistered fd => "net: EventLoop::add: fd " ++ toString fd ++ " already registered"
  | notRegistered fd => "net: EventLoop::modify: fd " ++ toString fd ++ " not registered"

namespace EventLoop

structure Entry (Cb : Type) where
  events : Nat
  cb : Cb
  deriving DecidableEq

/-- The order in which a loop over the registrations meets them. -/
structure EntryOrder (Cb : Type) where
  scan : List (Sigma fun _ : Int => Entry Cb) → List (Sigma fun _ : Int => Entry Cb)
  perm : ∀ entries, (scan entries).Perm entries

def EntryOrder.asStored (Cb : Type) : EntryOrder Cb := ⟨id, fun _ => List.Perm.refl _⟩

end EventLoop

open EventLoop

/-- The entry of the pipe is the first one to be polled. -/
structure EventLoop (Cb : Type) where
  registered : AList fun _ : Int => Entry Cb
  pollfds : List PollFd
  dirty : Bool

namespace EventLoop

variable {Cb : Type}

def new (pipeRead : Int) : EventLoop Cb where
  registered := ∅
  pollfds := [⟨pipeRead, pollIn, 0⟩]
  dirty := false

def lookup (loop : EventLoop Cb) (fd : Int) : Option (Entry Cb) := loop.registered.lookup fd

def add (loop : EventLoop Cb) (fd : Int) (events : Nat) (cb : Cb) :
    Except LoopError (EventLoop Cb) :=
  if (loop.lookup fd).isSome then .error (.alreadyRegistered fd)
  else .ok { loop with registered := loop.registered.insert fd ⟨events, cb⟩, dirty := true }

def modify (loop : EventLoop Cb) (fd : Int) (events : Nat) : Except LoopError (EventLoop Cb) :=
  match loop.lookup fd with
  | none => .error (.notRegistered fd)
  | some entry =>
    .ok { loop with registered := loop.registered.insert fd { entry with events }, dirty := true }

def remove (loop : EventLoop Cb) (fd : Int) : EventLoop Cb :=
  if (loop.lookup fd).isSome then
    { loop with registered := loop.registered.erase fd, dirty := true }
  else loop

def rebuildPollfds (loop : EventLoop Cb) (order : EntryOrder Cb) : EventLoop Cb :=
  { loop with
    pollfds := loop.pollfds.take 1 ++
      (order.scan loop.registered.entries).map fun entry => ⟨entry.1, castShort entry.2.events, 0⟩
    dirty := false }

/-- What `run_once` hands to `poll`, with what it finds there afterwards. -/
def poll (loop : EventLoop Cb) (order : EntryOrder Cb) (revents : Nat → Nat) : EventLoop Cb :=
  let loop := if loop.dirty then loop.rebuildPollfds order else loop
  { loop with pollfds := loop.pollfds.mapIdx fun i pfd => { pfd with revents := revents i } }

/-- How many entries have something to report. -/
def ready (loop : EventLoop Cb) : Nat := loop.pollfds.countP fun pfd => pfd.revents != 0

/-! ## The registrations after each operation -/

variable {loop after : EventLoop Cb} {fd : Int} {events : Nat} {cb : Cb}

theorem add_ok_iff : loop.add fd events cb = .ok after ↔ loop.lookup fd = none ∧
    after = { loop with registered := loop.registered.insert fd ⟨events, cb⟩, dirty := true } := by
  cases found : loop.lookup fd with
  | none => simp [add, found, eq_comm]
  | some entry => simp [add, found]

theorem modify_ok_iff : loop.modify fd events = .ok after ↔ ∃ entry, loop.lookup fd = some entry ∧
    after =
      { loop with registered := loop.registered.insert fd { entry with events }, dirty := true } := by
  cases found : loop.lookup fd with
  | none => simp [modify, found]
  | some entry => simp [modify, found, eq_comm]

theorem lookup_of_add_error {error : LoopError} (failed : loop.add fd events cb = .error error) :
    (loop.lookup fd).isSome := by
  by_contra none_
  rw [add, if_neg none_] at failed
  cases failed

theorem lookup_of_modify_error {error : LoopError} (failed : loop.modify fd events = .error error) :
    loop.lookup fd = none := by
  by_contra some_
  obtain ⟨entry, found⟩ := Option.ne_none_iff_exists'.mp some_
  simp only [modify, found] at failed
  cases failed

theorem lookup_insert (entry : Entry Cb) (other : Int) :
    (loop.registered.insert fd entry).lookup other =
      if other = fd then some entry else loop.lookup other := by
  split
  · rename_i same
    rw [same, AList.lookup_insert]
  · rename_i different
    exact AList.lookup_insert_ne different

theorem lookup_add (added : loop.add fd events cb = .ok after) (other : Int) :
    after.lookup other = if other = fd then some ⟨events, cb⟩ else loop.lookup other := by
  obtain ⟨-, rfl⟩ := add_ok_iff.mp added
  exact lookup_insert _ _

theorem lookup_modify {entry : Entry Cb} (found : loop.lookup fd = some entry)
    (modified : loop.modify fd events = .ok after) (other : Int) :
    after.lookup other = if other = fd then some { entry with events } else loop.lookup other := by
  obtain ⟨same, at_, rfl⟩ := modify_ok_iff.mp modified
  cases found.symm.trans at_
  exact lookup_insert _ _

theorem lookup_remove (other : Int) :
    (loop.remove fd).lookup other = if other = fd then none else loop.lookup other := by
  unfold remove
  split
  · by_cases same : other = fd
    · rw [if_pos same, same]
      exact AList.lookup_erase _ _
    · rw [if_neg same]
      exact AList.lookup_erase_ne same
  · rename_i none_
    split
    · rename_i same
      rw [same]
      exact Option.not_isSome_iff_eq_none.mp none_
    · rfl

theorem lookup_poll (order : EntryOrder Cb) (revents : Nat → Nat) (other : Int) :
    (loop.poll order revents).lookup other = loop.lookup other := by
  unfold poll
  split <;> rfl

end EventLoop

end K0Torrent
