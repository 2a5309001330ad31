import Mathlib.Logic.Basic

/-! Results of code that may throw and whose evaluation is cut off by a bound.

`unfinished` is not a result of the code: it says that the bound was too small.
-/

set_option autoImplicit false

universe u v

inductive Outcome (E : Type u) (A : Type v) where
  | value (a : A)
  | thrown (e : E)
  | unfinished

namespace Outcome

variable {E : Type u} {A B : Type v}

def bind (first : Outcome E A) (next : A → Outcome E B) : Outcome E B :=
  match first with
  | value a => next a
  | thrown e => thrown e
  | unfinished => unfinished

instance : Monad (Outcome E) where
  pure := value
  bind := bind

@[simp] theorem pure_eq_value (a : A) : (pure a : Outcome E A) = value a := rfl

@[simp] theorem value_bind (a : A) (next : A → Outcome E B) : (value a >>= next) = next a := rfl

@[simp] theorem thrown_bind (e : E) (next : A → Outcome E B) :
    ((thrown e : Outcome E A) >>= next) = thrown e := rfl

@[simp] theorem unfinished_bind (next : A → Outcome E B) :
    ((unfinished : Outcome E A) >>= next) = unfinished := rfl

theorem bind_eq_value {first : Outcome E A} {next : A → Outcome E B} {b : B} :
    (first >>= next) = value b ↔ ∃ a, first = value a ∧ next a = value b := by
  cases first <;> simp

theorem finished_of_value {result : Outcome E A} {a : A} (returned : result = value a) :
    result ≠ unfinished := by
  rw [returned]
  nofun

theorem finished_of_thrown {result : Outcome E A} {e : E} (failed : result = thrown e) :
    result ≠ unfinished := by
  rw [failed]
  nofun

theorem finished_of_bind {first : Outcome E A} {next : A → Outcome E B}
    (finished : (first >>= next) ≠ unfinished) : first ≠ unfinished := by
  rintro rfl
  exact finished rfl

/-- Two steps agree when the first ones do, wherever the first one has finished. -/
theorem bind_congr_of_finished {first first' : Outcome E A} {next next' : A → Outcome E B}
    (finished : (first >>= next) ≠ unfinished)
    (same : first ≠ unfinished → first' = first)
    (rest : ∀ a, first = value a → next a ≠ unfinished → next' a = next a) :
    (first' >>= next') = (first >>= next) := by
  rw [same (finished_of_bind finished)]
  cases first with
  | value a => exact rest a rfl finished
  | thrown e => rfl
  | unfinished => rfl

end Outcome
