import K0Torrent.Net.Dispatch

/-! The loop that empties the wake-up pipe (`EventLoop::run_once`).

The write end of the pipe is open. So a `read` of an empty pipe fails at once if the pipe is
non-blocking, and does not return otherwise. The calls of `stop` during the loop are given
from outside: for each `read`, how many there are before it returns.
-/

set_option autoImplicit false

namespace K0Torrent

/-! ## The pipe -/

structure Pipe where
  unread : Nat
  -- `O_NONBLOCK` is set on the end that is read.
  nonblocking : Bool
  deriving DecidableEq

namespace Pipe

/-- What the constructor has from `::pipe`. -/
def created : Pipe where
  unread := 0
  nonblocking := false

/-- The byte that `stop` writes. -/
def wake (pipe : Pipe) : Pipe := { pipe with unread := pipe.unread + 1 }

def wakes : Nat → Pipe → Pipe
  | 0, pipe => pipe
  | n + 1, pipe => (wakes n pipe).wake

theorem wakes_eq (n : Nat) (pipe : Pipe) : wakes n pipe = { pipe with unread := pipe.unread + n } := by
  induction n with
  | zero => rfl
  | succ n ih =>
    rw [wakes, ih]
    rfl

inductive ReadResult where
  | bytes (count : Nat)
  -- The result -1, with `EAGAIN`.
  | failed
  | waits
  deriving DecidableEq

def read (pipe : Pipe) (size : Nat) : ReadResult × Pipe :=
  if pipe.unread = 0 then (if pipe.nonblocking then .failed else .waits, pipe)
  else
    let count := min size pipe.unread
    (.bytes count, { pipe with unread := pipe.unread - count })

end Pipe

/-! ## The loop -/

def bufSize : Nat := 64

inductive Draining where
  | left (pipe : Pipe)
  /-- The last `read` does not return. -/
  | waits (pipe : Pipe)
  /-- The bound on the rounds is reached. -/
  | going (pipe : Pipe)
  deriving DecidableEq

/-- `while (::read(pipe_read_, buf, sizeof(buf)) > 0) {}`, from the round `i` on. -/
def drain (stops : Nat → Nat) : Nat → Nat → Pipe → Draining
  | 0, _, pipe => .going pipe
  | rounds + 1, i, pipe =>
    match (pipe.wakes (stops i)).read bufSize with
    | (.bytes count, pipe) => if 0 < count then drain stops rounds (i + 1) pipe else .left pipe
    | (.failed, pipe) => .left pipe
    | (.waits, pipe) => .waits pipe

/-- `run_once` from the return of `poll` on, with the loop. As long as that is not over no
callback is called. -/
def runDraining (stops : Nat → Nat) (calls : Nat → Registry.Call) (rounds : Nat) (pipe : Pipe)
    (polled : Registry) : Option Pass :=
  match polled.loop.pollfds with
  | [] => some (runPolled calls polled)
  | entry :: _ =>
    if hasEvent entry.revents pollIn then
      match drain stops rounds 0 pipe with
      | .left _ => some (runPolled calls polled)
      | _ => none
    else some (runPolled calls polled)

section
variable {stops : Nat → Nat} {rounds i : Nat} {pipe after : Pipe}

theorem drain_succ (stops : Nat → Nat) (rounds i : Nat) (pipe : Pipe) :
    drain stops (rounds + 1) i pipe =
      if pipe.unread + stops i = 0 then
        if pipe.nonblocking then .left { pipe with unread := 0 } else .waits { pipe with unread := 0 }
      else drain stops rounds (i + 1)
        { pipe with unread := pipe.unread + stops i - min bufSize (pipe.unread + stops i) } := by
  rw [drain, Pipe.wakes_eq, Pipe.read]
  by_cases empty : pipe.unread + stops i = 0
  · rw [if_pos empty, if_pos empty, empty]
    cases pipe.nonblocking <;> rfl
  · rw [if_neg empty, if_neg empty]
    have some_ : 0 < min bufSize (pipe.unread + stops i) := by
      unfold bufSize
      omega
    simp only [some_, if_true]

/-- Only a `read` that fails ends the loop, and on a blocking pipe none fails. -/
theorem drain_ne_left (blocking : pipe.nonblocking = false) :
    drain stops rounds i pipe ≠ .left after := by
  induction rounds generalizing i pipe with
  | zero => nofun
  | succ rounds ih =>
    rw [drain_succ]
    split
    · simp [blocking]
    · exact ih blocking

theorem drain_ne_waits (nonblocking : pipe.nonblocking = true) :
    drain stops rounds i pipe ≠ .waits after := by
  induction rounds generalizing i pipe with
  | zero => nofun
  | succ rounds ih =>
    rw [drain_succ]
    split
    · simp [nonblocking]
    · exact ih nonblocking

def Draining.over (pipe : Pipe) : Draining := if pipe.nonblocking then .left pipe else .waits pipe

/-- The loop takes at least one byte a round. Once no more come it reads them all, and its last
`read` finds the pipe empty. -/
theorem drain_of_quiet (quiet : ∀ j, i ≤ j → stops j = 0) (enough : pipe.unread < rounds) :
    drain stops rounds i pipe = .over { pipe with unread := 0 } := by
  induction rounds generalizing i pipe with
  | zero => exact absurd enough (Nat.not_lt_zero _)
  | succ rounds ih =>
    have none_ := quiet i (Nat.le_refl i)
    rw [drain_succ, none_, Nat.add_zero]
    split
    · rename_i empty
      obtain ⟨unread, nonblocking⟩ := pipe
      cases empty
      rfl
    · rename_i some_
      apply ih fun j later => quiet j (Nat.le_of_succ_le later)
      unfold bufSize
      change pipe.unread - min 64 pipe.unread < rounds
      omega

/-- The same, if the calls of `stop` cease at some time. -/
theorem drain_of_ceased {n : Nat} (ceased : ∀ j, i + n ≤ j → stops j = 0) :
    ∃ rounds, drain stops rounds i pipe = .over { pipe with unread := 0 } := by
  induction n generalizing i pipe with
  | zero => exact ⟨pipe.unread + 1, drain_of_quiet ceased (Nat.lt_succ_self _)⟩
  | succ n ih =>
    by_cases empty : pipe.unread + stops i = 0
    · refine ⟨1, ?_⟩
      rw [drain_succ, if_pos empty]
      rfl
    · obtain ⟨rounds, drained⟩ := @ih (i + 1) { pipe with
        unread := pipe.unread + stops i - min bufSize (pipe.unread + stops i) }
        fun j later => ceased j (by omega)
      refine ⟨rounds + 1, ?_⟩
      rw [drain_succ, if_neg empty]
      exact drained

end

/-! ## The drain as `run_once` needs it -/

/-- The loop ends with the pipe empty, no `read` waits, and the other descriptors have
their turn. -/
structure Drains (pipe : Pipe) (stops : Nat → Nat) (calls : Nat → Registry.Call)
    (polled : Registry) : Prop where
  ends : ∃ rounds after, drain stops rounds 0 pipe = .left after ∧ after.unread = 0
  returns : ∀ rounds after, drain stops rounds 0 pipe ≠ .waits after
  goesOn : ∃ rounds, runDraining stops calls rounds pipe polled = some (runPolled calls polled)

section
variable (stops : Nat → Nat) (calls : Nat → Registry.Call) (polled : Registry)

/-- On a non-blocking pipe the loop would do its work. -/
theorem drains_of_nonblocking {pipe : Pipe} (nonblocking : pipe.nonblocking = true) {n : Nat}
    (ceased : ∀ j, n ≤ j → stops j = 0) : Drains pipe stops calls polled := by
  obtain ⟨rounds, drained⟩ := @drain_of_ceased stops 0 pipe n (by rwa [Nat.zero_add])
  rw [Draining.over, if_pos nonblocking] at drained
  refine ⟨⟨rounds, _, drained, rfl⟩, fun _ _ => drain_ne_waits nonblocking, rounds, ?_⟩
  unfold runDraining
  rw [drained]
  split
  · rfl
  · split <;> rfl

/-- The pipe of the constructor is a blocking one. Whatever is in it, and however many calls of
`stop` there are meanwhile, the loop does not end. If they cease, its last `read` waits. -/
theorem not_drains (k : Nat) :
    ¬ Drains (Pipe.created.wakes k) stops calls polled ∧
      ∀ n, (∀ j, n ≤ j → stops j = 0) →
        ∃ rounds, drain stops rounds 0 (Pipe.created.wakes k) = .waits Pipe.created := by
  have blocking : Pipe.created.wakes k = { unread := k, nonblocking := false } := by
    rw [Pipe.wakes_eq, Pipe.created, Nat.zero_add]
  rw [blocking]
  constructor
  · intro drains
    obtain ⟨rounds, after, left, -⟩ := drains.ends
    exact drain_ne_left rfl left
  · intro n ceased
    exact drain_of_ceased (n := n) (by rwa [Nat.zero_add])

end

/-- One call of `stop`, while another socket has something to report. The first `read` takes the
byte and the second one never returns, so no callback is called. -/
theorem oneByte_waits :
    let pipe := Pipe.created.wake
    let polled := twoSockets.poll (.asStored Nat) fun _ => pollIn
    drain (fun _ => 0) 2 0 pipe = .waits { unread := 0, nonblocking := false } ∧
      (∀ calls rounds, runDraining (fun _ => 0) calls rounds pipe polled = none) ∧
      ¬ ∃ calls, Drains pipe (fun _ => 0) calls polled := by
  have never : ∀ rounds after, drain (fun _ => 0) rounds 0 Pipe.created.wake ≠ .left after :=
    fun _ _ => drain_ne_left rfl
  refine ⟨rfl, fun calls rounds => ?_, fun ⟨calls, drains⟩ => ?_⟩
  · have readable : hasEvent pollIn pollIn = true := rfl
    have pfds : (twoSockets.poll (.asStored Nat) fun _ => pollIn).loop.pollfds =
      [⟨3, pollIn, pollIn⟩, ⟨5, pollIn, pollIn⟩, ⟨7, pollIn, pollIn⟩] := rfl
    rw [runDraining, pfds]
    simp only [readable, if_true]
    split
    · rename_i after left
      exact absurd left (never rounds after)
    · rfl
  · obtain ⟨rounds, after, left, -⟩ := drains.ends
    exact never rounds after left

end K0Torrent
