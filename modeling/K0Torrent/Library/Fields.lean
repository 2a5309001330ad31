import Mathlib.Algebra.Ring.Nat
import Mathlib.Data.List.Basic

/-! Fields that follow one another in a buffer.

A layout is the list of their widths. Writers that know their offsets write the fields at these
offsets into a buffer; readers cut the buffer up.
-/

set_option autoImplicit false

namespace Fields

universe u

variable {α : Type u}

/-! ## Reading -/

def cut : List Nat → List α → List (List α)
  | [], _ => []
  | width :: layout, items => items.take width :: cut layout (items.drop width)

theorem cut_flatten (fields : List (List α)) : cut (fields.map List.length) fields.flatten = fields := by
  induction fields with
  | nil => rfl
  | cons field fields ih => simp [cut, ih]

/-- A layout as long as the items leaves out none of them and takes none of them twice. -/
theorem flatten_cut {layout : List Nat} {items : List α} (whole : items.length = layout.sum) :
    (cut layout items).flatten = items := by
  induction layout generalizing items with
  | nil => simpa [cut, eq_comm] using whole
  | cons width layout ih =>
    rw [List.sum_cons] at whole
    have rest := @ih (items.drop width) (by rw [List.length_drop, whole, Nat.add_sub_cancel_left])
    rw [cut, List.flatten_cons, rest, List.take_append_drop]

/-! ## Writing -/

def store (buffer : List α) (write : Nat × List α) : List α :=
  buffer.take write.1 ++ (write.2 ++ buffer.drop (write.1 + write.2.length))

/-- Each field is written right behind the one before. -/
def Adjacent : Nat → List (Nat × List α) → Prop
  | _, [] => True
  | next, write :: writes => write.1 = next ∧ Adjacent (next + write.2.length) writes

/-- Adjacent writes leave behind them what was in the buffer. -/
theorem foldl_store {writes : List (Nat × List α)} : ∀ {front back : List α},
    Adjacent front.length writes →
      writes.foldl store (front ++ back) =
        front ++ ((writes.map Prod.snd).flatten ++ back.drop (writes.map Prod.snd).flatten.length) := by
  induction writes with
  | nil =>
    intro front back _
    simp
  | cons write writes ih =>
    intro front back adjacent
    obtain ⟨offset, later⟩ := adjacent
    have first : store (front ++ back) write = (front ++ write.2) ++ back.drop write.2.length := by
      simp [store, offset]
    rw [← List.length_append] at later
    rw [List.foldl_cons, first, ih later]
    simp

end Fields
