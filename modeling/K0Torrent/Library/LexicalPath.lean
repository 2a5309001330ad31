import Mathlib.Data.List.Infix
import Mathlib.Data.List.Induction

/-! Lexical normal forms of paths.

A path is read as a walk: each component climbs to the parent directory or
enters a name. What is left of a walk is how far it climbs above its start and
the names it enters from there; above the root there is nothing to climb to.
-/

set_option autoImplicit false

namespace LexicalPath

universe u

inductive Component (α : Type u) where
  | climb
  | enter (name : α)
  deriving DecidableEq

/-- A normal form. The innermost name comes first. -/
@[ext] structure Place (α : Type u) where
  absolute : Bool
  ups : Nat
  names : List α
  rooted : absolute = true → ups = 0
  deriving DecidableEq

/-- The names continue `outer` inwards by at least one more. -/
def Extends {α : Type u} (names outer : List α) : Prop :=
  outer <:+ names ∧ outer.length < names.length

instance {α : Type u} [DecidableEq α] (names outer : List α) : Decidable (Extends names outer) :=
  inferInstanceAs (Decidable (_ ∧ _))

theorem extends_append_iff {α : Type u} (names outer rest : List α) :
    Extends (names ++ rest) (outer ++ rest) ↔ Extends names outer := by
  unfold Extends
  rw [List.suffix_append_self_iff, List.length_append, List.length_append, Nat.add_lt_add_iff_right]

namespace Place

variable {α : Type u}

def here : Place α := ⟨false, 0, [], nofun⟩

def root : Place α := ⟨true, 0, [], fun _ => rfl⟩

def climb (place : Place α) : Place α :=
  match place.names with
  | _ :: outer => { place with names := outer }
  | [] =>
    if place.absolute then place
    else { absolute := false, ups := place.ups + 1, names := [], rooted := nofun }

def step (place : Place α) : Component α → Place α
  | .climb => place.climb
  | .enter name => { place with names := name :: place.names }

def walk (place : Place α) (path : List (Component α)) : Place α := path.foldl step place

/-- `inner`, a relative normal form, followed from `dir`. -/
def append (dir inner : Place α) : Place α where
  absolute := dir.absolute
  ups := if dir.absolute then 0 else dir.ups + (inner.ups - dir.names.length)
  names := inner.names ++ dir.names.drop inner.ups
  rooted := fun absolute => if_pos absolute

/-- `place` lies below `dir`. -/
def Inside (place dir : Place α) : Prop :=
  place.absolute = dir.absolute ∧ place.ups = dir.ups ∧ Extends place.names dir.names

instance [DecidableEq α] (place dir : Place α) : Decidable (place.Inside dir) :=
  inferInstanceAs (Decidable (_ ∧ _ ∧ _))

theorem absolute_step (place : Place α) (c : Component α) :
    (place.step c).absolute = place.absolute := by
  obtain ⟨absolute, ups, names, rooted⟩ := place
  cases c with
  | enter name => rfl
  | climb =>
    cases names with
    | cons name outer => rfl
    | nil => cases absolute <;> rfl

theorem absolute_walk (place : Place α) (path : List (Component α)) :
    (place.walk path).absolute = place.absolute := by
  induction path generalizing place with
  | nil => rfl
  | cons c path ih => exact (ih (place.step c)).trans (absolute_step place c)

theorem walk_append (place : Place α) (first second : List (Component α)) :
    place.walk (first ++ second) = (place.walk first).walk second :=
  List.foldl_append

theorem append_here (dir : Place α) : dir.append here = dir := by
  ext1
  · rfl
  · cases found : dir.absolute with
    | true => simp only [append, found, if_true, dir.rooted found]
    | false => simp only [append, here, found, Nat.zero_sub, Nat.add_zero, Bool.false_eq_true, if_false]
  · rfl

theorem append_step (dir inner : Place α) (relative : inner.absolute = false) (c : Component α) :
    dir.append (inner.step c) = (dir.append inner).step c := by
  cases c with
  | enter name => rfl
  | climb =>
    obtain ⟨absolute, ups, names, rooted⟩ := inner
    cases relative
    cases names with
    | cons name outer => rfl
    | nil =>
      -- All of `inner` is climbing, so one more `..` takes one more name off `dir`.
      obtain ⟨absolute, dirUps, dirNames, dirRooted⟩ := dir
      by_cases below : ups < dirNames.length
      · have next := List.drop_eq_getElem_cons below
        simp only [append, step, climb, List.nil_append, next, Bool.false_eq_true, if_false]
        ext1
        · rfl
        · simp only
          rw [Nat.sub_eq_zero_of_le (Nat.le_of_lt below), Nat.sub_eq_zero_of_le below]
        · rfl
      · have stop : dirNames.drop ups = [] := List.drop_eq_nil_of_le (Nat.not_lt.mp below)
        have further : dirNames.drop (ups + 1) = [] := List.drop_eq_nil_of_le (by omega)
        simp only [append, step, climb, List.nil_append, stop, further, Bool.false_eq_true, if_false]
        cases absolute with
        | true => rfl
        | false =>
          ext1
          · rfl
          · simp only [Bool.false_eq_true, if_false]
            omega
          · rfl

theorem walk_eq_append (dir : Place α) (path : List (Component α)) :
    dir.walk path = dir.append (here.walk path) := by
  induction path using List.reverseRecOn with
  | nil => exact (append_here dir).symm
  | append_singleton path c ih =>
    have relative : ((here : Place α).walk path).absolute = false := absolute_walk here path
    simp only [walk, List.foldl_append, List.foldl_cons, List.foldl_nil] at ih relative ⊢
    rw [append_step _ _ relative, ih]

/-- A walk from `dir` ends below `dir` when its own normal form climbs no further
than the walk can re-enter, and then re-enters exactly what it left, and more. -/
theorem inside_walk_iff (dir : Place α) (path : List (Component α)) :
    (dir.walk path).Inside dir ↔
      (((here : Place α).walk path).ups ≤ dir.names.length ∨ dir.absolute = true) ∧
        Extends ((here : Place α).walk path).names
          (dir.names.take ((here : Place α).walk path).ups) := by
  rw [walk_eq_append]
  generalize (here : Place α).walk path = inner
  have ups : (dir.append inner).ups = dir.ups ↔
      inner.ups ≤ dir.names.length ∨ dir.absolute = true := by
    obtain ⟨absolute, dirUps, dirNames, rooted⟩ := dir
    cases absolute with
    | true => simp [append, rooted rfl]
    | false =>
      simp only [append, Bool.false_eq_true, if_false, or_false]
      omega
  have names := extends_append_iff inner.names (dir.names.take inner.ups) (dir.names.drop inner.ups)
  rw [List.take_append_drop] at names
  unfold Inside
  rw [ups]
  exact ⟨fun inside => ⟨inside.2.1, names.mp inside.2.2⟩,
    fun stays => ⟨rfl, stays.1, names.mpr stays.2⟩⟩

end Place

end LexicalPath
