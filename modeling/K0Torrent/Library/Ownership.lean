import Mathlib.Data.Finset.Insert
import Mathlib.Data.Finset.Erase
import Mathlib.Logic.Equiv.Basic

/-! Resources that are in use, and who holds them.

A holder holds at most one resource. Taking one that is not in use, giving it back and handing it
on keep the rule that whatever is in use has one holder.
-/

set_option autoImplicit false

namespace Ownership

variable {ι ρ : Type*}

/-- What is held is in use, by one holder only, and what is in use is held. -/
structure Owned (holds : ι → Option ρ) (inUse : Finset ρ) : Prop where
  used : ∀ {i r}, holds i = some r → r ∈ inUse
  single : ∀ {i j r}, holds i = some r → holds j = some r → i = j
  held : ∀ {r}, r ∈ inUse → ∃ i, holds i = some r

theorem owned_nobody : Owned (fun _ : ι => none) (∅ : Finset ρ) where
  used holds := by cases holds
  single holds := by cases holds
  held member := absurd member (Finset.notMem_empty _)

section
variable {holds : ι → Option ρ} {inUse : Finset ρ}

theorem Owned.mem_iff (owned : Owned holds inUse) (r : ρ) :
    r ∈ inUse ↔ ∃! i, holds i = some r := by
  constructor
  · intro member
    obtain ⟨i, here⟩ := owned.held member
    exact ⟨i, here, fun j there => owned.single there here⟩
  · rintro ⟨i, here, -⟩
    exact owned.used here

variable [DecidableEq ι] {i : ι} {r : ρ}

theorem Owned.take [DecidableEq ρ] (owned : Owned holds inUse) (free : holds i = none)
    (fresh : r ∉ inUse) : Owned (Function.update holds i (some r)) (insert r inUse) where
  used {j s} here := by
    by_cases same : j = i
    · subst same
      rw [Function.update_self] at here
      exact Finset.mem_insert.mpr (.inl (Option.some.inj here).symm)
    · rw [Function.update_of_ne same] at here
      exact Finset.mem_insert_of_mem (owned.used here)
  single {j k s} here there := by
    -- No other holder holds the new resource.
    have other {l : ι} (different : l ≠ i) (holds' : holds l = some s) : s ≠ r :=
      fun same => fresh (same ▸ owned.used holds')
    by_cases first : j = i <;> by_cases second : k = i
    · rw [first, second]
    · subst first
      rw [Function.update_self] at here
      rw [Function.update_of_ne second] at there
      exact absurd (Option.some.inj here).symm (other second there)
    · subst second
      rw [Function.update_self] at there
      rw [Function.update_of_ne first] at here
      exact absurd (Option.some.inj there).symm (other first here)
    · rw [Function.update_of_ne first] at here
      rw [Function.update_of_ne second] at there
      exact owned.single here there
  held {s} member := by
    rcases Finset.mem_insert.mp member with rfl | old
    · exact ⟨i, Function.update_self ..⟩
    · obtain ⟨j, here⟩ := owned.held old
      refine ⟨j, (Function.update_of_ne ?_ ..).trans here⟩
      rintro rfl
      cases free.symm.trans here

theorem Owned.drop [DecidableEq ρ] (owned : Owned holds inUse) (here : holds i = some r) :
    Owned (Function.update holds i none) (inUse.erase r) where
  used {j s} there := by
    by_cases same : j = i
    · subst same
      rw [Function.update_self] at there
      cases there
    · rw [Function.update_of_ne same] at there
      refine Finset.mem_erase.mpr ⟨?_, owned.used there⟩
      rintro rfl
      exact same (owned.single there here)
  single {j k s} first second := by
    have old {l : ι} (there : Function.update holds i none l = some s) : holds l = some s := by
      by_cases same : l = i
      · subst same
        rw [Function.update_self] at there
        cases there
      · rwa [Function.update_of_ne same] at there
    exact owned.single (old first) (old second)
  held {s} member := by
    obtain ⟨different, old⟩ := Finset.mem_erase.mp member
    obtain ⟨j, there⟩ := owned.held old
    refine ⟨j, (Function.update_of_ne ?_ ..).trans there⟩
    rintro rfl
    exact different (Option.some.inj (there.symm.trans here))

/-- One holder takes over what the other holds. -/
theorem Owned.hand (owned : Owned holds inUse) {j : ι} (different : i ≠ j) (free : holds i = none) :
    Owned (Function.update (Function.update holds i (holds j)) j none) inUse := by
  have at_ (k : ι) : Function.update (Function.update holds i (holds j)) j none k =
      holds (Equiv.swap i j k) := by
    by_cases second : k = j
    · subst second
      rw [Function.update_self, Equiv.swap_apply_right, free]
    · rw [Function.update_of_ne second]
      by_cases first : k = i
      · subst first
        rw [Function.update_self, Equiv.swap_apply_left]
      · rw [Function.update_of_ne first, Equiv.swap_apply_of_ne_of_ne first second]
  refine ⟨fun {k s} here => ?_, fun {k l s} first second => ?_, fun {s} member => ?_⟩
  · exact owned.used ((at_ k).symm.trans here)
  · exact (Equiv.swap i j).injective
      (owned.single ((at_ k).symm.trans first) ((at_ l).symm.trans second))
  · obtain ⟨k, here⟩ := owned.held member
    refine ⟨Equiv.swap i j k, (at_ _).trans ?_⟩
    rwa [Equiv.swap_apply_self]

end

end Ownership
