import K0Torrent.Library.Behaviour

/-! How `EventLoop::run` meets `EventLoop::stop` (`event_loop.cpp`).

The thread in `run` and the threads in `stop` share a flag and a pipe. Each store, test,
wait and write is a step of its own, and the steps come in any order. How many descriptors
are ready, and what their callbacks do, is given from outside; of a callback only its calls
of `stop` matter here. The pipe takes every byte that is written to it.
-/

set_option autoImplicit false

namespace K0Torrent.Stopping

open Machine

inductive CallbackStep where
  | work
  | stop
  | throw
  deriving DecidableEq

/-- Where the thread of `run` is. A script is what the callbacks of the pass have yet to do. -/
inductive Position where
  | before
  | entered
  | testing
  | polling
  | draining (script : List CallbackStep)
  | calling (script : List CallbackStep)
  -- In a `stop` of its own, after the store.
  | waking (script : List CallbackStep)
  | leaving
  | returned
  | thrown
  deriving DecidableEq

structure State where
  position : Position := .before
  running : Bool := false
  stopFlag : Bool := false
  -- The bytes in the pipe.
  pipe : Nat := 0
  -- The other threads that are in `stop`, after the store.
  writers : Nat := 0
  -- Some `stop` has taken place.
  stopped : Bool := false
  deriving DecidableEq

inductive Event where
  | enter
  | reset
  | test
  | poll (ready : List (List CallbackStep))
  | pollFails
  | drain
  | callback
  | leave
  | store
  | write
  | pass
  deriving DecidableEq

/-- The events of the thread that calls `run`. -/
def Event.OfRun : Event → Prop
  | store | write | pass => False
  | _ => True

/-- Those among them that need no descriptor to be ready. -/
def Event.Unaided : Event → Prop
  | poll ready => ready = []
  | store | write | pass | pollFails => False
  | _ => True

def State.wake (s : State) : State := { s with pipe := s.pipe + 1, stopped := true }

/-- One step of the callbacks of a pass. Behind the last one is the next test. -/
def callbackStep (s : State) : Option State :=
  match s.position with
  | .calling [] => some { s with position := .testing }
  | .calling (.work :: script) => some { s with position := .calling script }
  | .calling (.stop :: script) => some { s with stopFlag := true, position := .waking script }
  | .calling (.throw :: _) => some { s with position := .thrown }
  | .waking script => some { s.wake with position := .calling script }
  | _ => none

/-- `poll` waits, without a limit, for a byte in the pipe or a descriptor that is ready. The
reads that empty the pipe are one step: only the last one, which finds nothing, matters. -/
def step (s : State) : Event → Option State
  | .enter =>
    if s.position = .before then some { s with running := true, position := .entered } else none
  | .reset =>
    if s.position = .entered then some { s with stopFlag := false, position := .testing } else none
  | .test =>
    if s.position = .testing then
      some { s with position := if s.stopFlag then .leaving else .polling }
    else none
  | .poll ready =>
    if s.position = .polling ∧ (0 < s.pipe ∨ ready ≠ []) then
      some { s with
        position := if 0 < s.pipe then .draining ready.flatten else .calling ready.flatten }
    else none
  | .pollFails => if s.position = .polling then some { s with position := .thrown } else none
  | .drain =>
    match s.position with
    | .draining script => some { s with pipe := 0, position := .calling script }
    | _ => none
  | .callback => callbackStep s
  | .leave =>
    if s.position = .leaving then some { s with running := false, position := .returned } else none
  | .store => some { s with stopFlag := true, writers := s.writers + 1 }
  | .write => if 0 < s.writers then some { s.wake with writers := s.writers - 1 } else none
  | .pass => some s

/-! ## What one step keeps -/

def State.PastReset (s : State) : Prop := s.position ≠ .before ∧ s.position ≠ .entered

def State.Ended (s : State) : Prop := s.position = .returned ∨ s.position = .thrown

/-- No `stop` of another thread stores the flag before `run` has reset it. -/
def Late (s : State) (e : Event) : Prop := e = .store → s.PastReset

/-- What holds as long as no `stop` comes before the reset: while the flag is not set no one
is in `stop`, and `poll` does not wait once a `stop` has taken place. -/
structure Kept (s : State) : Prop where
  early : ¬ s.PastReset → s.writers = 0 ∧ s.stopped = false
  unset : s.stopFlag = false → s.writers = 0 ∧ s.stopped = false
  waking : ∀ script, s.position = .waking script → s.stopFlag = true
  polling : s.position = .polling → s.stopped = true → 0 < s.pipe

section
variable {s t : State}

theorem Kept.flag_of_stopped (kept : Kept s) (stopped : s.stopped = true) : s.stopFlag = true := by
  by_contra unset
  have none_ := (kept.unset (Bool.eq_false_iff.mpr unset)).2
  exact absurd stopped (Bool.eq_false_iff.mp none_)

theorem Kept.flag_of_writer (kept : Kept s) (writer : 0 < s.writers) : s.stopFlag = true := by
  by_contra unset
  exact absurd (kept.unset (Bool.eq_false_iff.mpr unset)).1 (Nat.ne_of_gt writer)

/-- A step of `run` behind the reset that neither starts to wait nor is inside `stop`. -/
theorem Kept.of_unset (past : t.PastReset)
    (unset : t.stopFlag = false → t.writers = 0 ∧ t.stopped = false)
    (waking : ∀ script, t.position ≠ .waking script) (polling : t.position ≠ .polling) : Kept t where
  early before := absurd past before
  unset := unset
  waking script at_ := absurd at_ (waking script)
  polling at_ := absurd at_ polling

theorem Kept.callbackStep (kept : Kept s) (taken : callbackStep s = some t) : Kept t := by
  unfold Stopping.callbackStep at taken
  split at taken <;> cases taken
  · exact .of_unset (by simp [State.PastReset]) kept.unset (by simp) (by simp)
  · exact .of_unset (by simp [State.PastReset]) kept.unset (by simp) (by simp)
  · exact ⟨fun early => absurd ⟨by simp, by simp⟩ early, by simp, by simp, by simp⟩
  · exact .of_unset (by simp [State.PastReset]) kept.unset (by simp) (by simp)
  · rename_i script position
    have set := kept.waking script position
    refine .of_unset (by simp [State.PastReset]) (fun unset => ?_) (by simp) (by simp)
    exact absurd set (Bool.eq_false_iff.mp unset)

theorem Kept.test (kept : Kept s) (taken : step s .test = some t) : Kept t := by
  rw [step] at taken
  split at taken <;> cases taken
  cases set : s.stopFlag with
  | true => exact .of_unset (by simp [State.PastReset]) (by simp) (by simp) (by simp)
  | false =>
    -- Nobody has got as far as the write, so the wait is not to be cut short yet.
    have none_ := kept.unset set
    exact ⟨fun early => absurd ⟨by simp, by simp⟩ early, fun _ => none_, by simp, by simp [none_.2]⟩

theorem Kept.step {e : Event} (kept : Kept s) (late : Late s e) (taken : step s e = some t) :
    Kept t := by
  cases e with
  | callback => exact kept.callbackStep taken
  | test => exact kept.test taken
  | pass =>
    cases taken
    exact kept
  | store =>
    cases taken
    exact ⟨fun early => absurd (late rfl) early, by simp, fun _ _ => rfl, kept.polling⟩
  | write =>
    rw [Stopping.step] at taken
    split at taken <;> cases taken
    rename_i writer
    have set := kept.flag_of_writer writer
    refine ⟨fun early => ?_, fun unset => ?_, fun _ _ => set, fun _ _ => Nat.succ_pos _⟩
    · exact absurd (kept.early early).1 (Nat.ne_of_gt writer)
    · exact absurd set (Bool.eq_false_iff.mp unset)
  | enter =>
    rw [Stopping.step] at taken
    split at taken <;> cases taken
    rename_i before
    have none_ := kept.early fun past => past.1 before
    exact ⟨fun _ => none_, fun _ => none_, by simp, by simp⟩
  | reset =>
    rw [Stopping.step] at taken
    split at taken <;> cases taken
    rename_i entered
    have none_ := kept.early fun past => past.2 entered
    exact ⟨fun _ => none_, fun _ => none_, by simp, by simp⟩
  | poll ready =>
    rw [Stopping.step] at taken
    split at taken <;> cases taken
    by_cases byte : 0 < s.pipe
    · exact .of_unset (by simp [State.PastReset, byte]) kept.unset (by simp [byte]) (by simp [byte])
    · exact .of_unset (by simp [State.PastReset, byte]) kept.unset (by simp [byte]) (by simp [byte])
  | pollFails =>
    rw [Stopping.step] at taken
    split at taken <;> cases taken
    exact .of_unset (by simp [State.PastReset]) kept.unset (by simp) (by simp)
  | drain =>
    rw [Stopping.step] at taken
    split at taken <;> cases taken
    exact .of_unset (by simp [State.PastReset]) kept.unset (by simp) (by simp)
  | leave =>
    rw [Stopping.step] at taken
    split at taken <;> cases taken
    exact .of_unset (by simp [State.PastReset]) kept.unset (by simp) (by simp)

end

/-! ## How far `run` is from its end -/

/-- How far `run` is from its end once the flag is set. Until the wait is over it is open
how much the callbacks have to do. -/
def rank (s : State) : ℕ ×ₗ ℕ :=
  toLex <| match s.position with
    | .before => (5, 0)
    | .entered => (4, 0)
    | .polling => (3, 0)
    | .draining _ => (2, 0)
    | .calling script => (1, 2 * script.length)
    | .waking script => (1, 2 * script.length + 1)
    | .testing => (0, 2)
    | .leaving => (0, 1)
    | .returned | .thrown => (0, 0)

section
variable {s t : State}

theorem position_of_others {e : Event} (others : ¬ e.OfRun) (taken : step s e = some t) :
    t.position = s.position := by
  cases e with
  | store =>
    cases taken
    rfl
  | write =>
    rw [step] at taken
    split at taken <;> cases taken
    rfl
  | pass =>
    cases taken
    rfl
  | _ => exact absurd trivial others

theorem rank_lt_of_run {e : Event} (set : s.stopFlag = true) (mine : e.OfRun)
    (taken : step s e = some t) : rank t < rank s := by
  cases e with
  | store | write | pass => cases mine
  | callback =>
    rw [step, callbackStep] at taken
    split at taken <;> cases taken
    all_goals
      rename_i position
      simp [rank, position, Prod.Lex.toLex_lt_toLex]
    omega
  | drain =>
    rw [step] at taken
    split at taken <;> cases taken
    rename_i position
    simp [rank, position, Prod.Lex.toLex_lt_toLex]
  | poll ready =>
    rw [step] at taken
    split at taken <;> cases taken
    rename_i enabled
    by_cases byte : 0 < s.pipe <;> simp [rank, enabled.1, byte, Prod.Lex.toLex_lt_toLex]
  | _ =>
    rw [step] at taken
    split at taken <;> cases taken
    rename_i position
    simp [rank, position, Prod.Lex.toLex_lt_toLex]

/-- As long as it has not ended, `run` can go on. -/
theorem enabled_of_kept (kept : Kept s) (stopped : s.stopped = true) (going : ¬ s.Ended) :
    ∃ e : Event, e.Unaided ∧ (step s e).isSome := by
  cases position : s.position with
  | before => exact ⟨.enter, trivial, by simp [step, position]⟩
  | entered => exact ⟨.reset, trivial, by simp [step, position]⟩
  | testing => exact ⟨.test, trivial, by simp [step, position]⟩
  | polling => exact ⟨.poll [], rfl, by simp [step, position, kept.polling position stopped]⟩
  | draining script => exact ⟨.drain, trivial, by simp [step, position]⟩
  | calling script =>
    refine ⟨.callback, trivial, ?_⟩
    rcases script with _ | ⟨_ | _ | _, script⟩ <;> simp [step, callbackStep, position]
  | waking script => exact ⟨.callback, trivial, by simp [step, callbackStep, position]⟩
  | leaving => exact ⟨.leave, trivial, by simp [step, position]⟩
  | returned => exact absurd (.inl position) going
  | thrown => exact absurd (.inr position) going

theorem stopped_step {e : Event} (stopped : s.stopped = true) (taken : step s e = some t) :
    t.stopped = true := by
  cases e with
  | callback =>
    rw [step, callbackStep] at taken
    split at taken <;> cases taken
    all_goals first | exact stopped | rfl
  | drain =>
    rw [step] at taken
    split at taken <;> cases taken
    exact stopped
  | store | pass =>
    cases taken
    exact stopped
  | _ =>
    rw [step] at taken
    split at taken <;> cases taken
    all_goals first | exact stopped | rfl

end

/-! ## The whole run -/

/-- A stop request is never lost: once a `stop` has taken place the flag is set until
`run` ends, `poll` does not wait, and if its thread is scheduled `run` ends. -/
structure NeverLost (b : Behaviour step) : Prop where
  flag : ∀ n, (b.state n).stopped = true → ¬ (b.state n).Ended → (b.state n).stopFlag = true
  wakes : ∀ n, (b.state n).stopped = true → (b.state n).position = .polling → 0 < (b.state n).pipe
  ends : b.WeakFair Event.Unaided Event.OfRun → ∀ n, (b.state n).stopped = true →
    ∃ m, n ≤ m ∧ (b.state m).Ended

/-- Before `run` is called, and before any `stop` that is meant for it. Of earlier ones the
flag may be set and bytes may be left. -/
structure Fresh (s : State) : Prop where
  position : s.position = .before
  writers : s.writers = 0
  stopped : s.stopped = false

theorem Fresh.kept {s : State} (fresh : Fresh s) : Kept s where
  early _ := ⟨fresh.writers, fresh.stopped⟩
  unset _ := ⟨fresh.writers, fresh.stopped⟩
  waking script at_ := by
    rw [fresh.position] at at_
    cases at_
  polling at_ := by
    rw [fresh.position] at at_
    cases at_

/-- No request is lost in a run in which none comes before the reset. -/
theorem neverLost_of_late (b : Behaviour step) (fresh : Fresh (b.state 0))
    (late : ∀ n, Late (b.state n) (b.event n)) : NeverLost b := by
  have kept := b.invariant_of_guard Kept Late fresh.kept (fun _ _ _ => Kept.step) late
  refine ⟨fun n stopped _ => (kept n).flag_of_stopped stopped,
    fun n stopped polling => (kept n).polling polling stopped, fun fair n stopped => ?_⟩
  have since : ∀ m, n ≤ m → (b.state m).stopped = true := by
    intro m later
    induction m, later using Nat.le_induction with
    | base => exact stopped
    | succ m later ih => exact stopped_step ih (b.taken m)
  have stays : ∀ s e t, (Kept s ∧ s.stopped = true) → ¬ s.Ended → step s e = some t →
      rank t ≤ rank s := by
    intro s e t holds _ taken
    by_cases mine : e.OfRun
    · exact le_of_lt (rank_lt_of_run (holds.1.flag_of_stopped holds.2) mine taken)
    · rw [rank, rank, position_of_others mine taken]
  apply Behaviour.eventually_of_rank fair (fun m later => ⟨kept m, since m later⟩) stays
  · exact fun s holds => enabled_of_kept holds.1 holds.2
  · exact fun s e t holds _ mine => rank_lt_of_run (holds.1.flag_of_stopped holds.2) mine

/-! ## A stop while `run` waits, and one that comes too early -/

instance (s : State) : Decidable s.PastReset := inferInstanceAs (Decidable (_ ∧ _))

instance (s : State) : Decidable s.Ended := inferInstanceAs (Decidable (_ ∨ _))

def lateEvents : List Event :=
  [.enter, .reset, .test, .store, .write, .poll [], .drain, .callback, .test, .leave]

/-- The stop of another thread comes while `run` waits. -/
def lateStop : Behaviour step :=
  @Behaviour.padded _ _ step {} lateEvents .pass (fun _ => rfl) (by decide)

theorem neverLost_lateStop : NeverLost lateStop := by
  apply neverLost_of_late lateStop ⟨rfl, rfl, rfl⟩
  intro n stored
  by_cases within : n < 10
  · have late : ∀ m < 10, lateStop.event m = .store → (lateStop.state m).PastReset := by decide
    exact late n within stored
  · have passes : lateStop.event n = .pass := List.getD_eq_default _ _ (Nat.le_of_not_lt within)
    rw [passes] at stored
    cases stored

def earlyEvents : List Event :=
  [.enter, .store, .write, .reset, .test, .poll [], .drain, .callback, .test]

/-- It comes between the two stores with which `run` begins. -/
def earlyStop : Behaviour step :=
  @Behaviour.padded _ _ step {} earlyEvents .pass (fun _ => rfl) (by decide)

theorem earlyStop_waits {n : Nat} (later : 9 ≤ n) :
    earlyStop.state n = { position := .polling, running := true, stopped := true } :=
  (Behaviour.follow_of_length (fun _ => rfl) later).trans (by decide)

/-- The reset takes back the flag, and the drain the byte. What is left of the request is
nothing, and `run` waits in `poll` for ever. -/
theorem earlyStop_lost :
    Fresh (earlyStop.state 0) ∧ (earlyStop.state 3).running = true ∧
      (earlyStop.state 3).stopped = true ∧
      earlyStop.WeakFair Event.Unaided Event.OfRun ∧ (∀ n, ¬ (earlyStop.state n).Ended) ∧
      ¬ NeverLost earlyStop := by
  have waits : ∀ n, 9 ≤ n → ¬ ∃ e : Event, e.Unaided ∧ (step (earlyStop.state n) e).isSome := by
    rintro n later ⟨e, unaided, possible⟩
    rw [earlyStop_waits later] at possible
    cases e with
    | poll ready =>
      cases unaided
      cases possible
    | store | write | pass | pollFails => cases unaided
    | _ => cases possible
  have never : ∀ n, ¬ (earlyStop.state n).Ended := by
    intro n
    by_cases within : n < 9
    · have early : ∀ m < 9, ¬ (earlyStop.state m).Ended := by decide
      exact early n within
    · rw [earlyStop_waits (Nat.le_of_not_lt within)]
      decide
  have fair : earlyStop.WeakFair Event.Unaided Event.OfRun := by
    intro n possible
    exact absurd (possible _ (Nat.le_max_left n 9)) (waits _ (Nat.le_max_right n 9))
  refine ⟨⟨rfl, rfl, rfl⟩, rfl, rfl, fair, never, fun kept => ?_⟩
  obtain ⟨m, -, ended⟩ := kept.ends fair 3 rfl
  exact never m ended

end K0Torrent.Stopping
