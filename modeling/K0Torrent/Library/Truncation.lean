import Mathlib.Data.List.Infix

/-! Sequences of which the end is missing. -/

set_option autoImplicit false

namespace Truncation

universe u

variable {α : Type u}

/-- A beginning that is not all of it. -/
structure Cut (cut whole : List α) : Prop where
  beginning : cut <+: whole
  short : cut.length < whole.length

variable {cut whole first second : List α} {a : α}

theorem Cut.some_ (truncated : Cut cut whole) : whole ≠ [] := by
  rintro rfl
  exact Nat.not_lt_zero _ truncated.short

theorem not_cut_nil : ¬ Cut cut ([] : List α) := fun truncated => truncated.some_ rfl

/-- A beginning is whole, or the end is missing. -/
theorem eq_or_cut (beginning : cut <+: whole) : cut = whole ∨ Cut cut whole := by
  rcases Nat.eq_or_lt_of_le beginning.length_le with same | short
  · exact .inl (beginning.eq_of_length same)
  · exact .inr ⟨beginning, short⟩

theorem Cut.cons (truncated : Cut cut (a :: whole)) :
    cut = [] ∨ ∃ left, cut = a :: left ∧ Cut left whole := by
  obtain ⟨beginning, short⟩ := truncated
  cases cut with
  | nil => exact .inl rfl
  | cons c left =>
    obtain ⟨rfl, later⟩ := List.cons_prefix_cons.mp beginning
    exact .inr ⟨left, rfl, later, Nat.lt_of_succ_lt_succ short⟩

/-- Where the end of a beginning lies. -/
theorem beginning_append (beginning : cut <+: first ++ second) :
    Cut cut first ∨ ∃ left, cut = first ++ left ∧ left <+: second := by
  obtain ⟨missing, same⟩ := beginning
  rcases List.append_eq_append_iff.mp same with ⟨left, rfl, -⟩ | ⟨left, rfl, rfl⟩
  · exact (eq_or_cut (List.prefix_append ..)).symm.imp_right fun whole =>
      ⟨[], by rw [List.append_nil]; exact whole, List.nil_prefix⟩
  · exact .inr ⟨left, rfl, List.prefix_append ..⟩

theorem Cut.append (truncated : Cut cut (first ++ second)) :
    Cut cut first ∨ ∃ left, cut = first ++ left ∧ Cut left second := by
  refine (beginning_append truncated.beginning).imp_right ?_
  rintro ⟨left, rfl, beginning⟩
  have short := truncated.short
  rw [List.length_append, List.length_append] at short
  exact ⟨left, rfl, beginning, Nat.lt_of_add_lt_add_left short⟩

/-- At least the last one is missing. -/
theorem Cut.concat (truncated : Cut cut (whole ++ [a])) : cut <+: whole := by
  rcases truncated.append with shorter | ⟨left, rfl, last⟩
  · exact shorter.beginning
  · rcases last.cons with rfl | ⟨_, _, none_⟩
    · rw [List.append_nil]
    · exact (not_cut_nil none_).elim

end Truncation
