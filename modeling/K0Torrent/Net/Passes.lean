import K0Torrent.Net.Dispatch
import K0Torrent.Net.PollSet

/-! A pass taken at once is a run of its steps.

In `runOnce` the callbacks change the registrations, and do not poll themselves.
-/

set_option autoImplicit false

namespace K0Torrent.PollSet

open EventLoop Machine Registry

/-- The state has the registrations of a registry, and the thread is at that place. -/
structure At (registry : Registry) (control : Control) (passes : List (Nat × Nat))
    (s : State Nat) : Prop where
  loop : s.loop = registry.loop
  control : s.control = control
  passes : s.passes = passes

/-! ## The calls of a callback -/

def opEvent (registry : Registry) : Op → Event Nat
  | .add fd events => .add fd events registry.adds
  | .modify fd events => .modify fd events
  | .remove fd => .remove fd

section
variable {registry : Registry} {passes : List (Nat × Nat)} {s : State Nat}

theorem loop_add (same : s.loop = registry.loop) (fd : Int) (events : Nat) :
    (Op.attempt registry (.add fd events)).loop =
      (s.called (registry.loop.add fd events registry.adds)).loop := by
  simp only [Op.attempt, Op.run, Registry.add]
  split
  · rename_i after ran
    split at ran
    · cases ran
    · rename_i loop added
      cases ran
      change loop = _
      rw [added]
      rfl
  · rename_i error ran
    split at ran
    · rename_i failed
      rw [failed]
      exact same.symm
    · cases ran

theorem loop_modify (same : s.loop = registry.loop) (fd : Int) (events : Nat) :
    (Op.attempt registry (.modify fd events)).loop =
      (s.called (registry.loop.modify fd events)).loop := by
  simp only [Op.attempt, Op.run, Registry.modify]
  split
  · rename_i after ran
    split at ran
    · cases ran
    · rename_i loop modified
      cases ran
      change loop = _
      rw [modified]
      rfl
  · rename_i error ran
    split at ran
    · rename_i failed
      rw [failed]
      exact same.symm
    · cases ran

theorem called_keeps (result : Except LoopError (EventLoop Nat)) :
    (s.called result).control = s.control ∧ (s.called result).passes = s.passes := by
  cases result with
  | ok loop => exact ⟨rfl, rfl⟩
  | error error => exact ⟨rfl, rfl⟩

theorem step_op (here : At registry .around passes s) (op : Op) :
    ∃ t, step s (opEvent registry op) = some t ∧ At (op.attempt registry) .around passes t := by
  cases op with
  | add fd events =>
    obtain ⟨control, kept⟩ := @called_keeps s (registry.loop.add fd events registry.adds)
    refine ⟨_, ?_, ⟨(loop_add here.loop fd events).symm, control.trans here.control,
      kept.trans here.passes⟩⟩
    simp [step, opEvent, here.control, here.loop]
  | modify fd events =>
    obtain ⟨control, kept⟩ := @called_keeps s (registry.loop.modify fd events)
    refine ⟨_, ?_, ⟨(loop_modify here.loop fd events).symm, control.trans here.control,
      kept.trans here.passes⟩⟩
    simp [step, opEvent, here.control, here.loop]
  | remove fd =>
    refine ⟨{ s with loop := s.loop.remove fd, threw := false }, ?_, ⟨?_, here.control, here.passes⟩⟩
    · simp [step, opEvent, here.control]
    · rw [here.loop]
      rfl

/-- Whatever the callback does, one call after the other. -/
theorem reaches_call (here : At registry .around passes s) (call : Call) :
    ∃ t, Reaches step s t ∧ At (call.run registry) .around passes t := by
  unfold Call.run
  induction call.ops generalizing registry s with
  | nil => exact ⟨s, .refl s, here⟩
  | cons op ops ih =>
    obtain ⟨t, taken, there⟩ := step_op here op
    obtain ⟨u, rest, last⟩ := ih there
    exact ⟨u, .head taken rest, last⟩

/-- The calls mark the array as out of date, and do not touch it. -/
theorem pollfds_attempt (registry : Registry) (op : Op) :
    (op.attempt registry).loop.pollfds = registry.loop.pollfds := by
  let s : State Nat := { loop := registry.loop }
  cases op with
  | add fd events =>
    rw [@loop_add registry s rfl]
    cases added : registry.loop.add fd events registry.adds with
    | ok loop =>
      obtain ⟨-, rfl⟩ := add_ok_iff.mp added
      rfl
    | error error => rfl
  | modify fd events =>
    rw [@loop_modify registry s rfl]
    cases modified : registry.loop.modify fd events with
    | ok loop =>
      obtain ⟨entry, -, rfl⟩ := modify_ok_iff.mp modified
      rfl
    | error error => rfl
  | remove fd =>
    change (registry.loop.remove fd).pollfds = _
    unfold EventLoop.remove
    split
    · rfl
    · rfl

theorem pollfds_call (registry : Registry) (call : Call) :
    (call.run registry).loop.pollfds = registry.loop.pollfds := by
  unfold Call.run
  induction call.ops generalizing registry with
  | nil => rfl
  | cons op ops ih => exact (ih (op.attempt registry)).trans (pollfds_attempt registry op)

end

/-! ## The pass -/

section
variable {registry : Registry} {passes : List (Nat × Nat)} {s : State Nat} {calls : Nat → Call}

theorem reaches_entry {i ready : Nat} {t u : State Nat}
    (here : At registry (.among i ready) passes s) (moves : s.entry i ready = t)
    (rest : Reaches step t u) : Reaches step s u := by
  have taken : step s .entry = some t := by simp [step, here.control, moves]
  exact .head taken rest

/-- The rest of a pass, from one of the entries on. -/
theorem reaches_dispatch {pfds : List PollFd} : ∀ {i ready : Nat} {registry : Registry}
    {s : State Nat}, At registry (.among i ready) passes s → registry.loop.pollfds.drop i = pfds →
    ∃ t, Reaches step s t ∧ At (dispatch calls i pfds ready registry).after .around passes t ∧
      t.threw = (dispatch calls i pfds ready registry).threw := by
  induction pfds with
  | nil =>
    intro i ready registry s here rest
    have none_ : s.loop.pollfds[i]? = none := by
      rw [here.loop]
      exact List.getElem?_eq_none (List.drop_eq_nil_iff.mp rest)
    have moves : s.entry i ready = { s with control := .around, threw := false } := by
      simp [State.entry, none_]
    exact ⟨_, reaches_entry here moves (.refl _), ⟨here.loop, rfl, here.passes⟩, rfl⟩
  | cons pfd pfds ih =>
    intro i ready registry s here rest
    have at_ : s.loop.pollfds[i]? = some pfd := by
      have first := congrArg List.head? rest
      rwa [List.head?_drop, ← here.loop] at first
    have behind : registry.loop.pollfds.drop (i + 1) = pfds := by
      rw [← List.tail_drop, rest]
      rfl
    rw [dispatch]
    by_cases spent : ready = 0
    · have moves : s.entry i ready = { s with control := .around, threw := false } := by
        simp [State.entry, at_, spent]
      rw [if_pos spent]
      exact ⟨_, reaches_entry here moves (.refl _), ⟨here.loop, rfl, here.passes⟩, rfl⟩
    rw [if_neg spent]
    by_cases silent : pfd.revents = 0
    · have moves : s.entry i ready = { s with control := .among (i + 1) ready } := by
        simp [State.entry, at_, spent, silent]
      have next : At registry (.among (i + 1) ready) passes
          { s with control := .among (i + 1) ready } := ⟨here.loop, rfl, here.passes⟩
      obtain ⟨t, reaches, last⟩ := ih next behind
      rw [if_pos silent]
      exact ⟨t, reaches_entry here moves reaches, last⟩
    rw [if_neg silent]
    cases found : s.loop.lookup pfd.fd with
    | none =>
      -- It counts as ready all the same.
      have moves : s.entry i ready = { s with control := .among (i + 1) (ready - 1) } := by
        simp [State.entry, at_, spent, silent, found]
      have next : At registry (.among (i + 1) (ready - 1)) passes
          { s with control := .among (i + 1) (ready - 1) } := ⟨here.loop, rfl, here.passes⟩
      have unregistered : registry.registration pfd.fd = none := by
        rw [registration, ← here.loop, found]
        rfl
      obtain ⟨t, reaches, last⟩ := ih next behind
      rw [unregistered]
      exact ⟨t, reaches_entry here moves reaches, last⟩
    | some entry =>
      have moves : s.entry i ready =
          { s with control := .around, passes := (i, ready - 1) :: s.passes, threw := false } := by
        simp [State.entry, at_, spent, silent, found]
      have inside : At registry .around ((i, ready - 1) :: passes)
          { s with control := .around, passes := (i, ready - 1) :: s.passes, threw := false } :=
        ⟨here.loop, rfl, by rw [here.passes]⟩
      have registered : registry.registration pfd.fd = some entry.cb := by
        rw [registration, ← here.loop, found]
        rfl
      obtain ⟨t, called, there⟩ := reaches_call inside (calls i)
      have reaches := reaches_entry here moves called
      rw [registered]
      dsimp only
      by_cases throws : (calls i).throws = true
      · have left : step t .callbackThrows = some { t with passes, threw := true } := by
          simp [step, there.control, there.passes]
        rw [if_pos throws]
        exact ⟨_, reaches.trans (.head left (.refl _)), ⟨there.loop, there.control, rfl⟩, rfl⟩
      · have back : step t .callbackReturns =
            some { t with control := .among (i + 1) (ready - 1), passes } := by
          simp [step, there.control, there.passes]
        -- The array is not rebuilt before the next pass, so what is behind is still there.
        have next : At ((calls i).run registry) (.among (i + 1) (ready - 1)) passes
            { t with control := .among (i + 1) (ready - 1), passes } := ⟨there.loop, rfl, rfl⟩
        obtain ⟨u, rest, last⟩ := ih next (by rw [pollfds_call, behind])
        rw [if_neg throws]
        exact ⟨u, reaches.trans (.head back rest), last⟩

/-- A whole `run_once`, from its call to its return. -/
theorem reaches_runOnce (here : At registry .around passes s) (order : EntryOrder Nat)
    (revents : Nat → Nat) (calls : Nat → Call) :
    ∃ t, Reaches step s t ∧ At (runOnce order revents calls registry).after .around passes t ∧
      t.threw = (runOnce order revents calls registry).threw := by
  have entered : step s (.runOnce order) =
      some { s with loop := s.loop.handOver order, control := .polling } := by
    simp [step, here.control]
  let polled : State Nat := { s with loop := s.loop.handOver order, control := .polling }
  have returned : step polled (.pollReturns revents) = some (polled.reported revents) := rfl
  have loop : polled.loop.report revents = (registry.poll order revents).loop := by
    change (s.loop.handOver order).report revents = _
    rw [report_handOver, here.loop]
    rfl
  have ready : (polled.loop.report revents).ready = (registry.poll order revents).loop.ready :=
    congrArg EventLoop.ready loop
  unfold runOnce runPolled
  dsimp only
  by_cases none_ : (registry.poll order revents).loop.ready = 0
  · have moves : polled.reported revents =
        { polled with loop := polled.loop.report revents, control := .around, threw := false } := by
      simp [State.reported, ready, none_]
    rw [if_pos none_]
    refine ⟨_, .head entered (.head returned (.refl _)), ?_, ?_⟩
    · rw [moves]
      exact ⟨loop, rfl, here.passes⟩
    · rw [moves]
  · rw [if_neg none_]
    cases pfds : (registry.poll order revents).loop.pollfds with
    | nil =>
      have zero : (registry.poll order revents).loop.ready = 0 := by simp [EventLoop.ready, pfds]
      exact absurd zero none_
    | cons pipe rest =>
      have readable : (polled.loop.report revents).pipeReadable = hasEvent pipe.revents pollIn := by
        rw [loop, pipeReadable, pfds]
      have moves : polled.reported revents =
          { polled with
            loop := polled.loop.report revents
            control := .among 1 (if hasEvent pipe.revents pollIn then
              (registry.poll order revents).loop.ready - 1
              else (registry.poll order revents).loop.ready) } := by
        simp only [State.reported, ready, if_neg none_, readable]
      have next := @At.mk (registry.poll order revents) _ passes (polled.reported revents)
        (by rw [moves]; exact loop) (by rw [moves]) (by rw [moves]; exact here.passes)
      have behind : (registry.poll order revents).loop.pollfds.drop 1 = rest := by
        rw [pfds]
        rfl
      obtain ⟨t, reaches, last⟩ := @reaches_dispatch passes calls rest _ _ _ _ next behind
      exact ⟨t, .head entered (.head returned reaches), last⟩

end

end K0Torrent.PollSet
