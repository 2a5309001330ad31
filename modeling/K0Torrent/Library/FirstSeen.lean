import Mathlib.Data.List.Nodup

/-! Collecting values in the order of their first appearance.

A value is appended unless it is there already. Collecting several lists one
after the other is collecting them in one go, and no value is taken twice.
-/

set_option autoImplicit false

namespace FirstSeen

universe u

variable {α : Type u} [DecidableEq α]

def insert (seen : List α) (a : α) : List α := if a ∈ seen then seen else seen ++ [a]

def insertAll (seen items : List α) : List α := items.foldl insert seen

theorem insertAll_append (seen first second : List α) :
    insertAll seen (first ++ second) = insertAll (insertAll seen first) second :=
  List.foldl_append ..

theorem nodup_insert {seen : List α} (nodup : seen.Nodup) (a : α) : (insert seen a).Nodup := by
  unfold insert
  split
  · exact nodup
  · rename_i fresh
    exact List.nodup_append.mpr ⟨nodup, List.nodup_singleton a, fun b old c new same =>
      fresh (List.mem_singleton.mp new ▸ same ▸ old)⟩

theorem nodup_insertAll {seen : List α} (nodup : seen.Nodup) (items : List α) :
    (insertAll seen items).Nodup := by
  induction items generalizing seen with
  | nil => exact nodup
  | cons a rest ih => exact ih (nodup_insert nodup a)

theorem removeAll_concat (items seen : List α) (a : α) :
    items.removeAll (seen ++ [a]) = (items.removeAll seen).filter fun b => !b == a := by
  unfold List.removeAll
  rw [List.filter_filter]
  apply List.filter_congr
  intro b _
  have same : (b == a) = decide (b = a) := rfl
  simp [same, Bool.and_comm]

theorem insertAll_eq (items : List α) : ∀ seen : List α,
    insertAll seen items = seen ++ (items.removeAll seen).eraseDups := by
  induction items with
  | nil => exact fun seen => (List.append_nil seen).symm
  | cons a rest ih =>
    intro seen
    have step : insertAll seen (a :: rest) = insertAll (insert seen a) rest := rfl
    rw [step, ih, insert, List.cons_removeAll]
    split
    · rename_i old
      rw [if_neg (by simpa using old)]
    · rename_i fresh
      rw [if_pos (by simpa using fresh), List.eraseDups_cons, removeAll_concat, List.append_assoc]
      rfl

/-- From nothing, each value is taken where it appears first. -/
theorem insertAll_nil (items : List α) : insertAll [] items = items.eraseDups := by
  rw [insertAll_eq, List.nil_append, List.removeAll_nil]

end FirstSeen
