import K0Torrent.Net.EventLoop

/-! Which callback gets an event (`EventLoop::run_once`).

The calls of `add` are numbered, and the callback of a registration is the number of its
call. What a callback does to the registrations is given from outside. The reads that
empty the pipe change nothing here and are taken to return.
-/

set_option autoImplicit false

namespace K0Torrent

open EventLoop

/-- A loop whose callbacks are numbers of earlier calls of `add`. -/
structure Registry where
  loop : EventLoop Nat
  adds : Nat
  numbered : ∀ fd entry, loop.lookup fd = some entry → entry.cb < adds

namespace Registry

def new (pipeRead : Int) : Registry where
  loop := EventLoop.new pipeRead
  adds := 0
  numbered fd entry found := by cases found

/-- The call of `add` that the descriptor is registered by. -/
def registration (registry : Registry) (fd : Int) : Option Nat :=
  (registry.loop.lookup fd).map Entry.cb

/-- What a callback does with the registrations. It closes descriptors and opens new ones as
well; that the number of a closed one comes back shows in the `add`. -/
inductive Op where
  | add (fd : Int) (events : Nat)
  | modify (fd : Int) (events : Nat)
  | remove (fd : Int)
  deriving DecidableEq

def add (registry : Registry) (fd : Int) (events : Nat) : Except LoopError Registry :=
  match added : registry.loop.add fd events registry.adds with
  | .error error => .error error
  | .ok loop => .ok {
      loop
      adds := registry.adds + 1
      numbered := by
        intro other entry found
        rw [lookup_add added] at found
        split at found
        · cases found
          exact Nat.lt_succ_self _
        · exact Nat.lt_succ_of_lt (registry.numbered other entry found) }

def modify (registry : Registry) (fd : Int) (events : Nat) : Except LoopError Registry :=
  match modified : registry.loop.modify fd events with
  | .error error => .error error
  | .ok loop => .ok {
      loop
      adds := registry.adds
      numbered := by
        intro other entry found
        obtain ⟨old, at_, -⟩ := modify_ok_iff.mp modified
        rw [lookup_modify at_ modified] at found
        split at found
        · cases found
          exact registry.numbered fd old at_
        · exact registry.numbered other entry found }

def remove (registry : Registry) (fd : Int) : Registry where
  loop := registry.loop.remove fd
  adds := registry.adds
  numbered other entry found := by
    rw [lookup_remove] at found
    split at found
    · cases found
    · exact registry.numbered other entry found

def Op.run (registry : Registry) : Op → Except LoopError Registry
  | add fd events => registry.add fd events
  | modify fd events => registry.modify fd events
  | remove fd => .ok (registry.remove fd)

/-- A call that fails changes nothing. Whether the callback goes on then is its own affair. -/
def Op.attempt (registry : Registry) (op : Op) : Registry :=
  match op.run registry with
  | .ok after => after
  | .error _ => registry

/-- One call of a callback: what it does, and whether an exception leaves it in the end. -/
structure Call where
  ops : List Op := []
  throws : Bool := false

def Call.run (registry : Registry) (call : Call) : Registry := call.ops.foldl Op.attempt registry

def poll (registry : Registry) (order : EntryOrder Nat) (revents : Nat → Nat) : Registry where
  loop := registry.loop.poll order revents
  adds := registry.adds
  numbered fd entry found := registry.numbered fd entry (by rwa [lookup_poll] at found)

end Registry

open Registry

/-! ## The pass -/

/-- A callback is called. -/
structure Delivery where
  registration : Nat
  fd : Int
  events : Nat
  deriving DecidableEq

/-- An entry with something to report has its turn. -/
structure Turn where
  index : Nat
  polled : PollFd
  before : Registry
  delivered : Option Delivery

structure Pass where
  turns : List Turn := []
  after : Registry
  threw : Bool := false

def Pass.from (turn : Turn) (rest : Pass) : Pass := { rest with turns := turn :: rest.turns }

/-- The loop over the entries from an index on. `calls` says what the callback that is called
at an index does. -/
def dispatch (calls : Nat → Call) : Nat → List PollFd → Nat → Registry → Pass
  | _, [], _, registry => { after := registry }
  | i, pfd :: rest, ready, registry =>
    if ready = 0 then { after := registry }
    else if pfd.revents = 0 then dispatch calls (i + 1) rest ready registry
    else
      match registry.registration pfd.fd with
      | none =>
        (dispatch calls (i + 1) rest (ready - 1) registry).from ⟨i, pfd, registry, none⟩
      | some number =>
        let turn := ⟨i, pfd, registry, some ⟨number, pfd.fd, widenShort pfd.revents⟩⟩
        let after := (calls i).run registry
        if (calls i).throws then { turns := [turn], after, threw := true }
        else (dispatch calls (i + 1) rest (ready - 1) after).from turn

/-- `run_once`, from the return of `poll` on: `polled` is the loop as it is then. `poll` reports
as many entries as have something to report. -/
def runPolled (calls : Nat → Call) (polled : Registry) : Pass :=
  let ready := polled.loop.ready
  if ready = 0 then { after := polled }
  else
    match polled.loop.pollfds with
    | [] => { after := polled }
    | pipe :: rest =>
      dispatch calls 1 rest (if hasEvent pipe.revents pollIn then ready - 1 else ready) polled

/-- `run_once`, unless `poll` itself fails. -/
def runOnce (order : EntryOrder Nat) (revents : Nat → Nat) (calls : Nat → Call)
    (registry : Registry) : Pass :=
  runPolled calls (registry.poll order revents)

/-! ## What callbacks can do -/

namespace Registry

variable {s t u : Registry}

/-- A later registration is either made since, or was there before for the same descriptor. -/
structure Since (s t : Registry) : Prop where
  grown : s.adds ≤ t.adds
  kept : ∀ fd number, number < s.adds → t.registration fd = some number →
    s.registration fd = some number

theorem Since.refl (s : Registry) : Since s s := ⟨Nat.le_refl _, fun _ _ _ found => found⟩

theorem Since.trans (first : Since s t) (second : Since t u) : Since s u where
  grown := Nat.le_trans first.grown second.grown
  kept fd number old found := first.kept fd number old
    (second.kept fd number (Nat.lt_of_lt_of_le old first.grown) found)

theorem registration_lt {fd : Int} {number : Nat} (found : s.registration fd = some number) :
    number < s.adds := by
  obtain ⟨entry, at_, rfl⟩ := Option.map_eq_some_iff.mp found
  exact s.numbered fd entry at_

theorem since_add {fd : Int} {events : Nat} (added : s.add fd events = .ok t) : Since s t := by
  unfold Registry.add at added
  split at added
  · cases added
  · rename_i loop added'
    cases added
    refine ⟨Nat.le_succ _, fun other number old found => ?_⟩
    simp only [registration, lookup_add added'] at found
    split at found
    · cases found
      exact absurd old (Nat.lt_irrefl _)
    · exact found

theorem since_modify {fd : Int} {events : Nat} (modified : s.modify fd events = .ok t) :
    Since s t := by
  unfold Registry.modify at modified
  split at modified
  · cases modified
  · rename_i loop modified'
    cases modified
    refine ⟨Nat.le_refl _, fun other number old found => ?_⟩
    obtain ⟨entry, at_, -⟩ := modify_ok_iff.mp modified'
    simp only [registration, lookup_modify at_ modified'] at found
    split at found
    · rename_i same
      rw [registration, same, at_]
      exact found
    · exact found

theorem since_remove (fd : Int) : Since s (s.remove fd) := by
  refine ⟨Nat.le_refl _, fun other number old found => ?_⟩
  simp only [registration, Registry.remove, lookup_remove] at found
  split at found
  · cases found
  · exact found

theorem since_attempt (op : Op) : Since s (op.attempt s) := by
  unfold Op.attempt
  split
  · rename_i after ran
    cases op with
    | add fd events => exact since_add ran
    | modify fd events => exact since_modify ran
    | remove fd =>
      cases ran
      exact since_remove fd
  · exact .refl s

theorem since_run (call : Call) : Since s (call.run s) := by
  unfold Call.run
  induction call.ops generalizing s with
  | nil => exact .refl s
  | cons op ops ih => exact (since_attempt op).trans ih

end Registry

/-! ## The turns of a pass -/

/-- A turn of an entry of a list, whose first one has a given index, after a state. -/
structure Turn.Of (s : Registry) (i : Nat) (pfds : List PollFd) (turn : Turn) : Prop where
  index : ∃ k, turn.index = i + k ∧ pfds[k]? = some turn.polled
  reports : turn.polled.revents ≠ 0
  since : Since s turn.before
  delivered : turn.delivered = (turn.before.registration turn.polled.fd).map fun number =>
    ⟨number, turn.polled.fd, widenShort turn.polled.revents⟩

theorem Turn.Of.later {s s' : Registry} {i : Nat} {pfds : List PollFd} {turn : Turn}
    (of : turn.Of s' (i + 1) pfds) (since : Since s s') (pfd : PollFd) :
    turn.Of s i (pfd :: pfds) where
  index := by
    obtain ⟨k, index, at_⟩ := of.index
    exact ⟨k + 1, by omega, at_⟩
  reports := of.reports
  since := since.trans of.since
  delivered := of.delivered

section
variable {calls : Nat → Call}

theorem of_mem_turns {i : Nat} {pfds : List PollFd} {ready : Nat} {s : Registry} {turn : Turn}
    (member : turn ∈ (dispatch calls i pfds ready s).turns) : turn.Of s i pfds := by
  induction pfds generalizing i ready s with
  | nil => cases member
  | cons pfd rest ih =>
    rw [dispatch] at member
    split at member
    · cases member
    · split at member
      · exact (ih member).later (.refl s) pfd
      · rename_i reports
        split at member
        · rename_i none_
          rcases List.mem_cons.mp member with rfl | later
          · exact ⟨⟨0, rfl, rfl⟩, reports, .refl s, by rw [none_]; rfl⟩
          · exact (ih later).later (.refl s) pfd
        · rename_i number found
          have here : Turn.Of s i (pfd :: rest)
              ⟨i, pfd, s, some ⟨number, pfd.fd, widenShort pfd.revents⟩⟩ :=
            ⟨⟨0, rfl, rfl⟩, reports, .refl s, by rw [found]; rfl⟩
          split at member
          · cases List.mem_singleton.mp member
            exact here
          · rcases List.mem_cons.mp member with rfl | later
            · exact here
            · exact (ih later).later (since_run _) pfd

/-- An earlier turn, seen from a later one. -/
def Turn.Precedes (t u : Turn) : Prop := t.index < u.index ∧ Since t.before u.before

theorem Turn.Of.follows {s : Registry} {i : Nat} {pfds : List PollFd} {turn first : Turn}
    (of : turn.Of s (i + 1) pfds) (index : first.index = i) (since : Since first.before s) :
    first.Precedes turn := by
  obtain ⟨k, at_, -⟩ := of.index
  exact ⟨by omega, since.trans of.since⟩

theorem pairwise_turns {i : Nat} {pfds : List PollFd} {ready : Nat} {s : Registry} :
    (dispatch calls i pfds ready s).turns.Pairwise Turn.Precedes := by
  induction pfds generalizing i ready s with
  | nil => exact .nil
  | cons pfd rest ih =>
    rw [dispatch]
    split
    · exact .nil
    · split
      · exact ih
      · split
        · exact ih.cons fun turn later => (of_mem_turns later).follows rfl (.refl s)
        · split
          · exact List.pairwise_singleton ..
          · exact ih.cons fun turn later => (of_mem_turns later).follows rfl (since_run _)

theorem dispatch_silent {i : Nat} {pfd : PollFd} {rest : List PollFd} {ready : Nat} {s : Registry}
    (silent : pfd.revents = 0) :
    dispatch calls i (pfd :: rest) ready s = dispatch calls (i + 1) rest ready s := by
  rw [dispatch, if_pos silent]
  split
  · rename_i none_
    cases rest with
    | nil => rfl
    | cons pfd rest => rw [dispatch, if_pos none_]
  · rfl

/-- The counter does not stop the loop before the last entry that reports something. -/
theorem turn_of_reports {i : Nat} {pfds : List PollFd} {ready : Nat} {s : Registry}
    (counted : pfds.countP (fun pfd => pfd.revents != 0) ≤ ready)
    (returned : (dispatch calls i pfds ready s).threw = false) {k : Nat} {pfd : PollFd}
    (at_ : pfds[k]? = some pfd) (reports : pfd.revents ≠ 0) :
    ∃ turn ∈ (dispatch calls i pfds ready s).turns, turn.index = i + k := by
  induction pfds generalizing i k ready s with
  | nil => cases at_
  | cons first rest ih =>
    by_cases silent : first.revents = 0
    · rw [List.countP_cons_of_neg (by simp [silent])] at counted
      rw [dispatch_silent silent] at returned ⊢
      cases k with
      | zero =>
        cases at_
        exact absurd silent reports
      | succ k =>
        obtain ⟨turn, member, index⟩ := ih counted returned at_
        exact ⟨turn, member, by omega⟩
    · rw [List.countP_cons_of_pos (by simp [silent])] at counted
      have going : ready ≠ 0 := by omega
      rw [dispatch, if_neg going, if_neg silent] at returned ⊢
      split at returned
      · cases k with
        | zero => exact ⟨_, List.mem_cons_self .., rfl⟩
        | succ k =>
          obtain ⟨turn, member, index⟩ := ih (by omega) returned at_
          exact ⟨turn, List.mem_cons_of_mem _ member, by omega⟩
      · split at returned
        · cases returned
        · rename_i goes
          rw [if_neg goes]
          cases k with
          | zero => exact ⟨_, List.mem_cons_self .., rfl⟩
          | succ k =>
            obtain ⟨turn, member, index⟩ := ih (by omega) returned at_
            exact ⟨turn, List.mem_cons_of_mem _ member, by omega⟩

end

/-! ## A whole pass -/

section
variable {calls : Nat → Call} {polled : Registry}

theorem ready_of_reports {k : Nat} {pfd : PollFd} (at_ : polled.loop.pollfds[k]? = some pfd)
    (reports : pfd.revents ≠ 0) : polled.loop.ready ≠ 0 := by
  apply Nat.ne_of_gt
  exact List.countP_pos_iff.mpr ⟨pfd, List.mem_of_getElem? at_, by simpa using reports⟩

/-- A pass is over at once, or goes through the entries behind the pipe's, with a counter
that is high enough for them. -/
theorem runPolled_cases :
    (runPolled calls polled = { after := polled } ∧
      ∀ k pfd, polled.loop.pollfds[k + 1]? = some pfd → pfd.revents = 0) ∨
    ∃ pipe rest ready, polled.loop.pollfds = pipe :: rest ∧
      rest.countP (fun pfd => pfd.revents != 0) ≤ ready ∧
      runPolled calls polled = dispatch calls 1 rest ready polled := by
  unfold runPolled
  by_cases none_ : polled.loop.ready = 0
  · rw [if_pos none_]
    refine .inl ⟨rfl, fun k pfd at_ => ?_⟩
    by_contra reports
    exact ready_of_reports at_ reports none_
  · rw [if_neg none_]
    cases pfds : polled.loop.pollfds with
    | nil => exact .inl ⟨rfl, fun k pfd at_ => by cases at_⟩
    | cons pipe rest =>
      refine .inr ⟨pipe, rest, _, rfl, ?_, rfl⟩
      unfold EventLoop.ready
      rw [pfds, List.countP_cons]
      split
      · rename_i readable
        have reports : (pipe.revents != 0) = true := by
          by_contra silent
          simp [hasEvent, (bne_eq_false_iff_eq.mp (Bool.eq_false_iff.mpr silent))] at readable
        rw [if_pos reports]
        exact Nat.le_refl _
      · exact Nat.le_add_right ..

/-- What a turn of the pass is a turn of. -/
structure Turn.Polled (polled : Registry) (turn : Turn) : Prop where
  behind : 0 < turn.index
  entry : polled.loop.pollfds[turn.index]? = some turn.polled
  reports : turn.polled.revents ≠ 0
  since : Since polled turn.before
  delivered : turn.delivered = (turn.before.registration turn.polled.fd).map fun number =>
    ⟨number, turn.polled.fd, widenShort turn.polled.revents⟩

theorem polled_of_mem {turn : Turn} (member : turn ∈ (runPolled calls polled).turns) :
    turn.Polled polled := by
  rcases @runPolled_cases calls polled with ⟨ended, -⟩ | ⟨pipe, rest, ready, pfds, -, run⟩
  · rw [ended] at member
    cases member
  · rw [run] at member
    have of := of_mem_turns member
    obtain ⟨k, index, at_⟩ := of.index
    refine ⟨by omega, ?_, of.reports, of.since, of.delivered⟩
    rw [pfds, index, Nat.add_comm, List.getElem?_cons_succ]
    exact at_

theorem pairwise_runPolled : (runPolled calls polled).turns.Pairwise Turn.Precedes := by
  rcases @runPolled_cases calls polled with ⟨ended, -⟩ | ⟨pipe, rest, ready, -, -, run⟩
  · rw [ended]
    exact .nil
  · rw [run]
    exact pairwise_turns

/-- Every event goes once to the registration it was polled for, and to no other. -/
structure Faithful (polled : Registry) (pass : Pass) : Prop where
  once : pass.turns.Pairwise fun t u => t.index < u.index
  own : ∀ t ∈ pass.turns, 0 < t.index ∧ polled.loop.pollfds[t.index]? = some t.polled ∧
    ∀ d, t.delivered = some d → d.fd = t.polled.fd ∧ d.events = widenShort t.polled.revents
  polledFor : ∀ t ∈ pass.turns, ∀ d, t.delivered = some d →
    polled.registration t.polled.fd = some d.registration
  inPlace : ∀ t ∈ pass.turns, ∀ number, polled.registration t.polled.fd = some number →
    t.before.registration t.polled.fd = some number →
    ∃ d, t.delivered = some d ∧ d.registration = number
  all : pass.threw = false → ∀ i pfd, 0 < i → polled.loop.pollfds[i]? = some pfd →
    pfd.revents ≠ 0 → ∃ t ∈ pass.turns, t.index = i
  removed : ∀ t ∈ pass.turns, ∀ u ∈ pass.turns, t.index ≤ u.index → ∀ number,
    polled.registration u.polled.fd = some number →
    t.before.registration u.polled.fd ≠ some number →
    ∀ d, u.delivered = some d → d.registration ≠ number

/-- No event finds its descriptor registered by an `add` of the same pass. -/
def Undisturbed (polled : Registry) (pass : Pass) : Prop :=
  ∀ t ∈ pass.turns, ∀ number, t.before.registration t.polled.fd = some number →
    number < polled.adds

/-- The callback that gets an event is that of the descriptor's registration at that time. -/
theorem Turn.Polled.registration {turn : Turn} {d : Delivery} (of : turn.Polled polled)
    (delivered : turn.delivered = some d) :
    turn.before.registration turn.polled.fd = some d.registration ∧ d.fd = turn.polled.fd ∧
      d.events = widenShort turn.polled.revents := by
  rw [of.delivered] at delivered
  obtain ⟨number, found, rfl⟩ := Option.map_eq_some_iff.mp delivered
  exact ⟨found, rfl, rfl⟩

theorem since_of_index {t u : Turn} (first : t ∈ (runPolled calls polled).turns)
    (second : u ∈ (runPolled calls polled).turns) (order : t.index ≤ u.index) :
    Since t.before u.before := by
  have ordered := @pairwise_runPolled calls polled
  generalize (runPolled calls polled).turns = turns at first second ordered
  induction ordered with
  | nil => cases first
  | cons precedes _ ih =>
    rcases List.mem_cons.mp first with rfl | behind
    · rcases List.mem_cons.mp second with rfl | behind
      · exact .refl _
      · exact (precedes u behind).2
    · rcases List.mem_cons.mp second with rfl | behind'
      · exact absurd (precedes t behind).1 (Nat.not_lt_of_le order)
      · exact ih behind behind'

theorem all_of_runPolled (returned : (runPolled calls polled).threw = false) {i : Nat} {pfd : PollFd}
    (behind : 0 < i) (at_ : polled.loop.pollfds[i]? = some pfd) (reports : pfd.revents ≠ 0) :
    ∃ t ∈ (runPolled calls polled).turns, t.index = i := by
  obtain ⟨k, rfl⟩ := Nat.exists_eq_add_one.mpr behind
  rcases @runPolled_cases calls polled with ⟨-, silent⟩ | ⟨pipe, rest, ready, pfds, counted, run⟩
  · exact absurd (silent k pfd at_) reports
  · rw [pfds, List.getElem?_cons_succ] at at_
    rw [run] at returned ⊢
    obtain ⟨turn, member, index⟩ := turn_of_reports counted returned at_ reports
    exact ⟨turn, member, by omega⟩

theorem faithful_of_undisturbed (undisturbed : Undisturbed polled (runPolled calls polled)) :
    Faithful polled (runPolled calls polled) where
  once := pairwise_runPolled.imp fun precedes => precedes.1
  own t member := by
    have of := polled_of_mem member
    exact ⟨of.behind, of.entry, fun d delivered => (of.registration delivered).2⟩
  polledFor t member d delivered := by
    have of := polled_of_mem member
    have found := (of.registration delivered).1
    exact of.since.kept _ _ (undisturbed t member _ found) found
  inPlace t member number _ found := by
    have of := polled_of_mem member
    refine ⟨⟨number, t.polled.fd, widenShort t.polled.revents⟩, ?_, rfl⟩
    rw [of.delivered, found]
    rfl
  all returned i pfd behind at_ reports := all_of_runPolled returned behind at_ reports
  removed t first u second order number was gone d delivered same := by
    have found := ((polled_of_mem second).registration delivered).1
    have grown := (polled_of_mem first).since.grown
    have old := Nat.lt_of_lt_of_le (registration_lt was) grown
    rw [same] at found
    exact gone ((since_of_index first second order).kept _ _ old found)

theorem undisturbed_of_faithful (faithful : Faithful polled (runPolled calls polled)) :
    Undisturbed polled (runPolled calls polled) := by
  intro t member number found
  have delivered := (polled_of_mem member).delivered
  rw [found] at delivered
  exact registration_lt (faithful.polledFor t member _ delivered)

end

/-- One call of `run_once` delivers every event as it should exactly if none finds its
descriptor registered anew. -/
theorem faithful_iff (order : EntryOrder Nat) (revents : Nat → Nat) (calls : Nat → Call)
    (registry : Registry) :
    Faithful (registry.poll order revents) (runOnce order revents calls registry) ↔
      Undisturbed (registry.poll order revents) (runOnce order revents calls registry) :=
  ⟨undisturbed_of_faithful, faithful_of_undisturbed⟩

/-! ## A descriptor number that comes back -/

def twoSockets : Registry :=
  [Op.add 7 pollIn, Op.add 5 pollIn].foldl Op.attempt (Registry.new 3)

def bothReady (i : Nat) : Nat := if i = 0 then 0 else pollIn

/-- The callback of descriptor 5 closes the other socket and opens a new one, which gets
its number. -/
def reopens (i : Nat) : Call :=
  { ops := if i = 1 then [.remove 7, .add 7 (pollIn ||| pollOut)] else [] }

/-- The event that was polled for the socket that has been closed goes to the new one. -/
theorem reopened_misdelivered :
    (twoSockets.poll (.asStored Nat) bothReady).registration 7 = some 0 ∧
      (runOnce (.asStored Nat) bothReady reopens twoSockets).turns.map Turn.delivered =
        [some ⟨1, 5, pollIn⟩, some ⟨2, 7, pollIn⟩] ∧
      ¬ Faithful (twoSockets.poll (.asStored Nat) bothReady)
        (runOnce (.asStored Nat) bothReady reopens twoSockets) := by
  have turns : (runOnce (.asStored Nat) bothReady reopens twoSockets).turns.map Turn.delivered =
      [some ⟨1, 5, pollIn⟩, some ⟨2, 7, pollIn⟩] := by rfl
  refine ⟨rfl, turns, fun faithful => ?_⟩
  have member : some ⟨2, 7, pollIn⟩ ∈
      (runOnce (.asStored Nat) bothReady reopens twoSockets).turns.map Turn.delivered := by
    rw [turns]
    exact List.mem_cons_of_mem _ (List.mem_cons_self ..)
  obtain ⟨t, turn, delivered⟩ := List.mem_map.mp member
  have polled := faithful.polledFor t turn _ delivered
  have fd := ((faithful.own t turn).2.2 _ delivered).1
  rw [← fd] at polled
  exact absurd polled (by decide)

end K0Torrent
