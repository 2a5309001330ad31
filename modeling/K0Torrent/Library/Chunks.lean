import Mathlib.Data.List.Basic

/-! Chunks of a sequence.

A sequence is given by the item at each position. Its chunks are as long as the
width, except the last one, and together they are the sequence.
-/

set_option autoImplicit false

namespace Chunks

universe u

variable {α : Type u}

/-- A list that holds the item of each position is the sequence. -/
theorem map_some_eq {items : List α} {f : Nat → Option α} {size : Nat}
    (length : items.length = size) (holds : ∀ k item, items[k]? = some item → f k = some item) :
    items.map some = (List.range size).map f := by
  apply List.ext_getElem
  · rw [List.length_map, List.length_map, List.length_range, length]
  · intro k inside _
    rw [List.length_map] at inside
    rw [List.getElem_map, List.getElem_map, List.getElem_range]
    exact (holds k _ (List.getElem?_eq_getElem inside)).symm

/-- The chunk of a sequence of the given size that starts at `k * width`. -/
structure IsChunk (f : Nat → Option α) (width size k : Nat) (chunk : List α) : Prop where
  length : chunk.length = min width (size - k * width)
  items : ∀ j item, chunk[j]? = some item → f (k * width + j) = some item

variable {f : Nat → Option α} {width size : Nat}

theorem IsChunk.map_some {k : Nat} {chunk : List α} (isChunk : IsChunk f width size k chunk) :
    chunk.map some =
      (List.range (min width (size - k * width))).map fun j => f (k * width + j) :=
  map_some_eq isChunk.length isChunk.items

/-- The chunks from the one with number `first` on are the rest of the sequence. -/
theorem map_some_flatten_from {chunks : List (List α)} : ∀ first : Nat,
    (∀ k chunk, chunks[k]? = some chunk → IsChunk f width size (first + k) chunk) →
    size - first * width ≤ chunks.length * width →
    chunks.flatten.map some =
      (List.range (size - first * width)).map fun j => f (first * width + j) := by
  induction chunks with
  | nil =>
    intro first _ enough
    rw [List.length_nil, Nat.zero_mul, Nat.le_zero] at enough
    rw [enough]
    rfl
  | cons chunk rest ih =>
    intro first tiled enough
    have here := (tiled 0 chunk rfl).map_some
    have next : (first + 1) * width = first * width + width := Nat.succ_mul first width
    have later := ih (first + 1)
      (fun k other found => by
        have isChunk := tiled (k + 1) other found
        rwa [Nat.add_right_comm, Nat.add_assoc])
      (by
        rw [List.length_cons, Nat.succ_mul] at enough
        omega)
    rw [Nat.add_zero] at here
    rw [List.flatten_cons, List.map_append, here, later, next]
    by_cases last : size - first * width ≤ width
    · have none_ : size - (first * width + width) = 0 := by omega
      rw [Nat.min_eq_right last, none_]
      exact List.append_nil _
    · have split : size - first * width = width + (size - (first * width + width)) := by omega
      rw [Nat.min_eq_left (by omega), split, List.range_add, List.map_append, List.map_map]
      simp only [Function.comp_def, Nat.add_assoc]

theorem map_some_flatten {chunks : List (List α)}
    (tiled : ∀ k chunk, chunks[k]? = some chunk → IsChunk f width size k chunk)
    (enough : size ≤ chunks.length * width) :
    chunks.flatten.map some = (List.range size).map f := by
  have whole := map_some_flatten_from 0
    (fun k chunk found => by
      rw [Nat.zero_add]
      exact tiled k chunk found)
    (by rwa [Nat.zero_mul])
  simpa only [Nat.zero_mul, Nat.sub_zero, Nat.zero_add] using whole

/-! ## Records of one width -/

section
universe v w

variable {β : Type v} {γ : Type w} {write : α → List β} {read : List β → Nat → γ}
  {meaning : α → γ}

/-- Records are found one width apart, wherever the first one stands. -/
theorem map_read_flatMap (length : ∀ a, (write a).length = width)
    (reads : ∀ front a rest, read (front ++ (write a ++ rest)) front.length = meaning a)
    (items : List α) (front : List β) :
    (List.range items.length).map
      (fun k => read (front ++ items.flatMap write) (front.length + k * width)) =
        items.map meaning := by
  induction items generalizing front with
  | nil => rfl
  | cons a items ih =>
    have first := reads front a (items.flatMap write)
    have later := ih (front ++ write a)
    rw [List.append_assoc, List.length_append, length] at later
    rw [List.length_cons, List.range_succ_eq_map, List.map_cons, List.map_map, List.map_cons,
      List.flatMap_cons, Nat.zero_mul, Nat.add_zero, first, ← later]
    simp only [Function.comp_def, Nat.succ_mul, Nat.add_assoc, Nat.add_comm width]

end

end Chunks
