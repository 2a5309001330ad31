import Mathlib.Data.List.GetD
import Mathlib.Data.Prod.Lex
import K0Torrent.Library.Machine

/-! Infinite runs of a labelled machine, and what becomes of them in the end.

A machine whose environment may let time pass has an infinite run for every finite
one. Fairness says of one party only that it is not passed over for ever.
-/

set_option autoImplicit false

namespace Machine

variable {S E : Type*} {step : S → E → Option S}

structure Behaviour (step : S → E → Option S) where
  state : Nat → S
  event : Nat → E
  taken : ∀ n, step (state n) (event n) = some (state (n + 1))

namespace Behaviour

variable (b : Behaviour step)

theorem invariant_of_guard (Holds : S → Prop) (Guard : S → E → Prop) (initial : Holds (b.state 0))
    (preserved : ∀ s e t, Holds s → Guard s e → step s e = some t → Holds t)
    (guarded : ∀ n, Guard (b.state n) (b.event n)) (n : Nat) : Holds (b.state n) := by
  induction n with
  | zero => exact initial
  | succ n ih => exact preserved _ _ _ ih (guarded n) (b.taken n)

/-- If from some time on it is always possible to take an event of the first kind, then one
of the second kind is taken. For a party that sometimes waits for others, the first kind is
what it can do without them. -/
def WeakFair (Can Mine : E → Prop) : Prop :=
  ∀ n, (∀ m, n ≤ m → ∃ e, Can e ∧ (step (b.state m) e).isSome) → ∃ m, n ≤ m ∧ Mine (b.event m)

section
variable {b} {R : Type*} [Preorder R] {rank : S → R} {Holds Goal : S → Prop} {n : Nat}

theorem rank_antitone (holds : ∀ m, n ≤ m → Holds (b.state m)) (never : ∀ m, n ≤ m → ¬ Goal (b.state m))
    (stays : ∀ s e t, Holds s → ¬ Goal s → step s e = some t → rank t ≤ rank s) {m : Nat}
    (later : n ≤ m) : rank (b.state m) ≤ rank (b.state n) := by
  induction m, later using Nat.le_induction with
  | base => exact le_refl _
  | succ m later ih => exact le_trans (stays _ _ _ (holds m later) (never m later) (b.taken m)) ih

/-- A rank that nobody raises and one party lowers: if that party is treated fairly
and never stuck before the goal, the goal is reached. -/
theorem eventually_of_rank [WellFoundedLT R] {Can Mine : E → Prop} (fair : b.WeakFair Can Mine)
    (holds : ∀ m, n ≤ m → Holds (b.state m))
    (stays : ∀ s e t, Holds s → ¬ Goal s → step s e = some t → rank t ≤ rank s)
    (enabled : ∀ s, Holds s → ¬ Goal s → ∃ e, Can e ∧ (step s e).isSome)
    (lowers : ∀ s e t, Holds s → ¬ Goal s → Mine e → step s e = some t → rank t < rank s) :
    ∃ m, n ≤ m ∧ Goal (b.state m) := by
  generalize current : rank (b.state n) = r
  induction r using WellFoundedLT.induction generalizing n with
  | ind r ih =>
    by_contra none_
    have never : ∀ m, n ≤ m → ¬ Goal (b.state m) := fun m later goal => none_ ⟨m, later, goal⟩
    obtain ⟨m, later, mine⟩ := fair n fun m later => enabled _ (holds m later) (never m later)
    have lower : rank (b.state (m + 1)) < r := by
      rw [← current]
      exact lt_of_lt_of_le (lowers _ _ _ (holds m later) (never m later) mine (b.taken m))
        (rank_antitone holds never stays later)
    have after : n ≤ m + 1 := Nat.le_succ_of_le later
    obtain ⟨k, last, goal⟩ := ih _ lower (fun k last => holds k (Nat.le_trans after last)) rfl
    exact none_ ⟨k, Nat.le_trans after last, goal⟩

end

/-! ## Finite runs -/

section
variable (step) (start : S) (events : List E) (idle : E)

/-- The states of the run that takes the events and is idle from then on. -/
def follow : Nat → S
  | 0 => start
  | n + 1 => (step (follow n) (events.getD n idle)).getD (follow n)

variable {step start events idle}
variable (idles : ∀ s, step s idle = some s)
include idles

theorem follow_of_length {n : Nat} (later : events.length ≤ n) :
    follow step start events idle n = follow step start events idle events.length := by
  induction n, later using Nat.le_induction with
  | base => rfl
  | succ n later ih =>
    rw [follow, List.getD_eq_default _ _ later, idles]
    exact ih

/-- A finite run as an infinite one. -/
def padded (possible : ∀ n < events.length,
    (step (follow step start events idle n) (events.getD n idle)).isSome) : Behaviour step where
  state := follow step start events idle
  event := (events.getD · idle)
  taken n := by
    rw [follow]
    by_cases within : n < events.length
    · obtain ⟨t, taken⟩ := Option.isSome_iff_exists.mp (possible n within)
      rw [taken]
      rfl
    · rw [List.getD_eq_default _ _ (Nat.le_of_not_lt within), idles]
      rfl

end

end Behaviour

end Machine
