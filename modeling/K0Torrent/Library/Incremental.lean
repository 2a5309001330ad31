import Mathlib.Data.List.Basic

/-! Buffers that are emptied item by item, as far as they hold whole items.

What is taken off the front of a buffer does not depend on what comes behind it. So it does
not matter where the bytes of a stream are cut, nor how often the buffer is looked at.
-/

set_option autoImplicit false

namespace Incremental

variable {α μ : Type*}

/-- `next` takes one item off the front, with what it yields and what it leaves; this takes off
all of them, in order. -/
inductive Emptied (next : List α → Option (List μ × List α)) : List α → List μ → List α → Prop where
  | done {left : List α} (blocked : next left = none) : Emptied next left [] left
  | more {buffer rest left : List α} {items later : List μ}
      (taken : next buffer = some (items, rest)) (emptied : Emptied next rest later left) :
      Emptied next buffer (items ++ later) left

/-- What is whole stays as it is. -/
def Stable (next : List α → Option (List μ × List α)) : Prop :=
  ∀ buffer items rest more, next buffer = some (items, rest) →
    next (buffer ++ more) = some (items, rest ++ more)

section
variable {next : List α → Option (List μ × List α)} {buffer left left' : List α} {items items' : List μ}

theorem Emptied.blocked (emptied : Emptied next buffer items left) : next left = none := by
  induction emptied with
  | done blocked => exact blocked
  | more taken emptied ih => exact ih

theorem Emptied.unique (first : Emptied next buffer items left)
    (second : Emptied next buffer items' left') : items = items' ∧ left = left' := by
  induction first generalizing items' with
  | done blocked =>
    cases second with
    | done => exact ⟨rfl, rfl⟩
    | more taken => cases blocked.symm.trans taken
  | more taken emptied ih =>
    cases second with
    | done blocked => cases blocked.symm.trans taken
    | more taken' emptied' =>
      cases taken.symm.trans taken'
      obtain ⟨rfl, rfl⟩ := ih emptied'
      exact ⟨rfl, rfl⟩

/-- An item that leaves the buffer as it is would be taken off for ever. -/
theorem Emptied.progress (emptied : Emptied next buffer items left) {yields : List μ} :
    next buffer ≠ some (yields, buffer) := by
  induction emptied generalizing yields with
  | done blocked =>
    rw [blocked]
    exact fun same => by cases same
  | more taken emptied ih =>
    intro again
    cases taken.symm.trans again
    exact ih again

/-- What comes later is taken off behind what has been left. -/
theorem Emptied.append (stable : Stable next) {more : List α} (first : Emptied next buffer items left)
    (second : Emptied next (left ++ more) items' left') :
    Emptied next (buffer ++ more) (items ++ items') left' := by
  induction first with
  | done => exact second
  | more taken emptied ih =>
    rw [List.append_assoc]
    exact .more (stable _ _ _ more taken) (ih second)

end

end Incremental
