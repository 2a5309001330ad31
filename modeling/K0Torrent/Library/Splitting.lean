import Mathlib.Data.List.TakeWhile

/-! Cutting a list at the first or the last occurrence of an item. -/

set_option autoImplicit false

namespace Splitting

universe u

variable {α : Type u} [DecidableEq α] {text front back : List α} {sep : α}

theorem findIdx?_append (absent : sep ∉ front) (back : List α) :
    (front ++ sep :: back).findIdx? (· = sep) = some front.length := by
  induction front with
  | nil => simp [List.findIdx?_cons]
  | cons item front ih =>
    rw [List.mem_cons, not_or] at absent
    simp [List.findIdx?_cons, Ne.symm absent.1, ih absent.2]

/-- The first occurrence is behind a part that has none. -/
theorem findIdx?_eq_some_iff {i : Nat} : text.findIdx? (· = sep) = some i ↔
    ∃ front back, text = front ++ sep :: back ∧ sep ∉ front ∧ i = front.length := by
  constructor
  · intro found
    have first := found
    obtain ⟨bound, here, before⟩ := List.findIdx?_eq_some_iff_getElem.mp found
    have same : text[i] = sep := of_decide_eq_true here
    have split : text = text.take i ++ sep :: text.drop (i + 1) := by
      rw [← same, ← List.drop_eq_getElem_cons bound, List.take_append_drop]
    refine ⟨_, _, split, fun member => ?_, (List.length_take_of_le (Nat.le_of_lt bound)).symm⟩
    obtain ⟨j, inside, earlier⟩ := List.mem_iff_getElem.mp member
    rw [List.length_take] at inside
    rw [List.getElem_take] at earlier
    exact before j (by omega) (decide_eq_true earlier)
  · rintro ⟨front, back, rfl, absent, rfl⟩
    exact findIdx?_append absent back

theorem findIdx?_eq_none_iff : text.findIdx? (· = sep) = none ↔ sep ∉ text := by
  simp only [List.findIdx?_eq_none_iff, decide_eq_false_iff_not]
  exact ⟨fun none_ member => none_ sep member rfl, fun absent item member same => absent (same ▸ member)⟩

/-- The last occurrence is in front of a part that has none. -/
theorem findIdx?_reverse_iff {i : Nat} :
    (text.reverse.findIdx? (· = sep)).map (text.length - 1 - ·) = some i ↔
      ∃ front back, text = front ++ sep :: back ∧ sep ∉ back ∧ i = front.length := by
  rw [Option.map_eq_some_iff]
  constructor
  · rintro ⟨j, found, rfl⟩
    obtain ⟨back, front, split, absent, rfl⟩ := findIdx?_eq_some_iff.mp found
    have same : text = front.reverse ++ sep :: back.reverse := by
      rw [← text.reverse_reverse, split]
      simp
    refine ⟨_, _, same, by simpa using absent, ?_⟩
    have length := congrArg List.length split
    simp only [List.length_reverse, List.length_append, List.length_cons] at length ⊢
    omega
  · rintro ⟨front, back, rfl, absent, rfl⟩
    refine ⟨back.length, findIdx?_eq_some_iff.mpr
      ⟨back.reverse, front.reverse, by simp, by simpa using absent, by simp⟩, ?_⟩
    simp only [List.length_append, List.length_cons]
    omega

theorem takeWhile_append (absent : sep ∉ front) (start : back = [] ∨ back.head? = some sep) :
    (front ++ back).takeWhile (· ≠ sep) = front := by
  have all : ∀ item ∈ front, decide (item ≠ sep) = true := fun item member =>
    decide_eq_true fun same => absent (same ▸ member)
  rw [List.takeWhile_append_of_pos all]
  rcases start with rfl | start
  · exact List.append_nil front
  · obtain ⟨rest, rfl⟩ : ∃ rest, back = sep :: rest := by
      cases back with
      | nil => cases start
      | cons item rest => exact ⟨rest, by rw [Option.some.inj start]⟩
    rw [List.takeWhile_cons_of_neg (by simp), List.append_nil]

/-- What is in front of the first occurrence, or everything. -/
theorem takeWhile_eq_iff : text.takeWhile (· ≠ sep) = front ↔
    sep ∉ front ∧ ∃ back, text = front ++ back ∧ (back = [] ∨ back.head? = some sep) := by
  constructor
  · rintro rfl
    refine ⟨fun member => ?_, _, (List.takeWhile_append_dropWhile ..).symm, ?_⟩
    · have apart := List.mem_takeWhile_imp member
      simp at apart
    · cases rest : text.dropWhile (· ≠ sep) with
      | nil => exact .inl rfl
      | cons item back =>
        have some_ : text.dropWhile (· ≠ sep) ≠ [] := by
          rw [rest]
          exact List.cons_ne_nil _ _
        have stops := List.head_dropWhile_not _ some_
        simp only [rest, List.head_cons, decide_eq_false_iff_not, not_not] at stops
        exact .inr (by rw [stops]; rfl)
  · rintro ⟨absent, back, rfl, start⟩
    exact takeWhile_append absent start

end Splitting
