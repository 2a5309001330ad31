import Mathlib.Data.List.Basic

/-! Runs of a labelled machine whose step may be disabled.

A run is kept with its whole history, latest transition first, so that a
property may speak about any earlier transition and the states around it.
-/

set_option autoImplicit false

namespace Machine

variable {S E : Type*}

structure Transition (S E : Type*) where
  before : S
  event : E
  after : S

/-- The histories of `step` from `start`, with the state each one ends in. -/
inductive Run (step : S → E → Option S) (start : S) : List (Transition S E) → S → Prop where
  | start : Run step start [] start
  | next {history : List (Transition S E)} {s t : S} {e : E} : Run step start history s →
      step s e = some t → Run step start (⟨s, e, t⟩ :: history) t

variable {step : S → E → Option S} {start : S}

/-- What every guarded transition keeps of a run and its last state holds at the
end of every run whose transitions all meet the guard. -/
theorem Run.invariant_of_guard {history : List (Transition S E)} {final : S}
    (run : Run step start history final) (Holds : List (Transition S E) → S → Prop)
    (Guard : S → E → Prop) (initial : Holds [] start)
    (preserved : ∀ {history s e t}, Run step start history s → Holds history s → Guard s e →
      step s e = some t → Holds (⟨s, e, t⟩ :: history) t)
    (guarded : ∀ x ∈ history, Guard x.before x.event) : Holds history final := by
  induction run with
  | start => exact initial
  | @next history s t e rest taken ih =>
    have earlier : Holds history s := ih fun x member => guarded x (List.mem_cons_of_mem _ member)
    exact preserved rest earlier (guarded ⟨s, e, t⟩ (List.mem_cons_self ..)) taken

theorem Run.invariant_of_history {history : List (Transition S E)} {final : S}
    (run : Run step start history final) (Holds : List (Transition S E) → S → Prop)
    (initial : Holds [] start)
    (preserved : ∀ {history s e t}, Run step start history s → Holds history s →
      step s e = some t → Holds (⟨s, e, t⟩ :: history) t) : Holds history final :=
  run.invariant_of_guard Holds (fun _ _ => True) initial
    (fun rest holds _ taken => preserved rest holds taken) fun _ _ => trivial

theorem Run.invariant {history : List (Transition S E)} {final : S}
    (run : Run step start history final) (Holds : S → Prop) (initial : Holds start)
    (preserved : ∀ s e t, Holds s → step s e = some t → Holds t) : Holds final :=
  run.invariant_of_history (fun _ s => Holds s) initial
    fun _ holds taken => preserved _ _ _ holds taken

theorem Run.append {history later : List (Transition S E)} {s t : S}
    (first : Run step start history s) (second : Run step s later t) :
    Run step start (later ++ history) t := by
  induction second with
  | start => exact first
  | next _ taken ih => exact ih.next taken

def Reaches (step : S → E → Option S) (s t : S) : Prop := ∃ history, Run step s history t

theorem Reaches.refl (s : S) : Reaches step s s := ⟨[], .start⟩

theorem Reaches.head {s t u : S} {e : E} (taken : step s e = some t) (rest : Reaches step t u) :
    Reaches step s u := by
  obtain ⟨history, run⟩ := rest
  exact ⟨_, (Run.start.next taken).append run⟩

theorem Reaches.trans {s t u : S} (first : Reaches step s t) (second : Reaches step t u) :
    Reaches step s u := by
  obtain ⟨history, run⟩ := first
  obtain ⟨later, rest⟩ := second
  exact ⟨_, run.append rest⟩

/-- Every transition of a run was taken at the end of an earlier run. -/
theorem Run.of_mem {history : List (Transition S E)} {final : S}
    (run : Run step start history final) {x : Transition S E} (member : x ∈ history) :
    (∃ earlier, Run step start earlier x.before) ∧ step x.before x.event = some x.after := by
  induction run with
  | start => cases member
  | next rest taken ih =>
    rcases List.mem_cons.mp member with rfl | before
    · exact ⟨⟨_, rest⟩, taken⟩
    · exact ih before

/-- The run that takes the given events one after the other, if none is disabled. -/
def replay (step : S → E → Option S) : List (Transition S E) → S → List E →
    Option (List (Transition S E) × S)
  | history, s, [] => some (history, s)
  | history, s, e :: rest =>
    match step s e with
    | none => none
    | some t => replay step (⟨s, e, t⟩ :: history) t rest

theorem run_of_replay {events : List E} {final : S} {after : List (Transition S E)} :
    ∀ {history : List (Transition S E)} {s : S}, Run step start history s →
      replay step history s events = some (after, final) → Run step start after final := by
  induction events with
  | nil =>
    intro history s run replayed
    cases replayed
    exact run
  | cons e rest ih =>
    intro history s run replayed
    rw [replay] at replayed
    split at replayed
    · cases replayed
    · rename_i t taken
      exact ih (run.next taken) replayed

end Machine
