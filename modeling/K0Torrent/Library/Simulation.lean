import K0Torrent.Library.Machine

/-! The steps of one machine as runs of another.

A relation that every step of the first keeps, while the second takes a run, carries over
whole runs, and with them whatever the second never leaves.
-/

set_option autoImplicit false

namespace Machine

variable {S T E F : Type*} {step : S → E → Option S} {step' : T → F → Option T}

theorem Reaches.single {s t : S} {e : E} (taken : step s e = some t) : Reaches step s t :=
  .head taken (.refl t)

theorem Reaches.invariant {s t : S} (reaches : Reaches step s t) (Holds : S → Prop) (initial : Holds s)
    (preserved : ∀ s e t, Holds s → step s e = some t → Holds t) : Holds t := by
  obtain ⟨history, run⟩ := reaches
  exact run.invariant Holds initial preserved

/-- Reached by events of some kind only. -/
def ReachesBy (Allowed : E → Prop) (step : S → E → Option S) (s t : S) : Prop :=
  ∃ history, Run step s history t ∧ ∀ x ∈ history, Allowed x.event

section
variable {Allowed : E → Prop}

theorem Reaches.by_any {s t : S} (reaches : Reaches step s t) :
    ReachesBy (fun _ => True) step s t := by
  obtain ⟨history, run⟩ := reaches
  exact ⟨history, run, fun _ _ => trivial⟩

theorem ReachesBy.mono {Allowed' : E → Prop} (weaker : ∀ e, Allowed e → Allowed' e) {s t : S}
    (reaches : ReachesBy Allowed step s t) : ReachesBy Allowed' step s t := by
  obtain ⟨history, run, allowed⟩ := reaches
  exact ⟨history, run, fun x member => weaker _ (allowed x member)⟩

theorem ReachesBy.refl (s : S) : ReachesBy Allowed step s s := ⟨[], .start, List.forall_mem_nil _⟩

theorem ReachesBy.trans {s t u : S} (first : ReachesBy Allowed step s t)
    (second : ReachesBy Allowed step t u) : ReachesBy Allowed step s u := by
  obtain ⟨history, run, allowed⟩ := first
  obtain ⟨later, rest, allowedLater⟩ := second
  refine ⟨later ++ history, run.append rest, ?_⟩
  intro x member
  rcases List.mem_append.mp member with inLater | before
  · exact allowedLater x inLater
  · exact allowed x before

theorem ReachesBy.single {s t : S} {e : E} (allowed : Allowed e) (taken : step s e = some t) :
    ReachesBy Allowed step s t :=
  ⟨[⟨s, e, t⟩], .next .start taken, List.forall_mem_singleton.mpr allowed⟩

theorem ReachesBy.head {s t u : S} {e : E} (allowed : Allowed e) (taken : step s e = some t)
    (rest : ReachesBy Allowed step t u) : ReachesBy Allowed step s u :=
  (ReachesBy.single allowed taken).trans rest

end

/-- From related states, the second has a run for every step that the first takes, by events that
answer that of the first. -/
def Simulates (step : S → E → Option S) (step' : T → F → Option T) (Answers : E → F → Prop)
    (Related : S → T → Prop) : Prop :=
  ∀ s t e next, Related s t → step s e = some next →
    ∃ t', ReachesBy (Answers e) step' t t' ∧ Related next t'

theorem Simulates.run {Answers : E → F → Prop} {Related : S → T → Prop}
    (simulates : Simulates step step' Answers Related) {start final : S} {t : T}
    {history : List (Transition S E)} (related : Related start t)
    (run : Run step start history final) :
    ∃ t' answers, Run step' t answers t' ∧ Related final t' ∧
      ∀ y ∈ answers, ∃ x ∈ history, Answers x.event y.event := by
  induction run with
  | start => exact ⟨t, [], .start, related, List.forall_mem_nil _⟩
  | @next history s s' e rest taken ih =>
    obtain ⟨middle, earlier, run, related, answered⟩ := ih
    obtain ⟨t', ⟨later, further, allowed⟩, related⟩ := simulates _ _ _ _ related taken
    refine ⟨t', later ++ earlier, run.append further, related, fun y member => ?_⟩
    rcases List.mem_append.mp member with inLater | before
    · exact ⟨_, List.mem_cons_self .., allowed y inLater⟩
    · obtain ⟨x, found, answers⟩ := answered y before
      exact ⟨x, List.mem_cons_of_mem _ found, answers⟩

end Machine
