import Mathlib.Data.List.Infix

/-! Streams made of frames.

A stream is the frames' bytes one after the other. What has arrived of it is a
prefix, which holds some frames as a whole and stops inside the next one.
-/

set_option autoImplicit false

universe u v

namespace Frames

variable {F : Type u} {α : Type v} (encode : F → List α)

def bytes (frames : List F) : List α := frames.flatMap encode

/-- The frames that lie as a whole within the first `count` bytes. -/
def contained : List F → Nat → List F
  | [], _ => []
  | frame :: rest, count =>
    if (encode frame).length ≤ count then frame :: contained rest (count - (encode frame).length)
    else []

/-- The buffer holds no frame of the stream that starts with it. -/
def Partial (buffer : List α) : List F → Prop
  | [] => buffer = []
  | frame :: _ => buffer.length < (encode frame).length

variable {encode}

theorem bytes_cons (frame : F) (rest : List F) :
    bytes encode (frame :: rest) = encode frame ++ bytes encode rest := rfl

theorem bytes_append (front back : List F) :
    bytes encode (front ++ back) = bytes encode front ++ bytes encode back :=
  List.flatMap_append

/-- Frames that are followed by a partial one are the ones contained. -/
theorem contained_of_begun {buffer : List α} {rest : List F} (partial_ : Partial encode buffer rest)
    (done : List F) :
    contained encode (done ++ rest) ((bytes encode done).length + buffer.length) = done := by
  induction done with
  | nil =>
    cases rest with
    | nil => rfl
    | cons frame rest =>
      have short : ¬ (encode frame).length ≤ buffer.length := Nat.not_le.mpr partial_
      simp only [bytes, List.flatMap_nil, List.length_nil, Nat.zero_add, List.nil_append, contained,
        if_neg short]
  | cons frame done ih =>
    have length : (bytes encode (frame :: done)).length + buffer.length =
        (encode frame).length + ((bytes encode done).length + buffer.length) := by
      rw [bytes_cons, List.length_append, Nat.add_assoc]
    rw [length, List.cons_append, contained, if_pos (Nat.le_add_right ..), Nat.add_sub_cancel_left,
      ih]

/-- A buffer that holds the next frame starts with it. -/
theorem starts_with {buffer : List α} {frame : F} {rest : List F}
    (arrived : buffer <+: bytes encode (frame :: rest))
    (whole : (encode frame).length ≤ buffer.length) :
    ∃ later, buffer = encode frame ++ later ∧ later <+: bytes encode rest := by
  rw [bytes_cons] at arrived
  obtain ⟨later, rfl⟩ := List.prefix_of_prefix_length_le (List.prefix_append _ _) arrived whole
  exact ⟨later, rfl, (List.prefix_append_right_inj _).mp arrived⟩

/-- Less than a frame is a proper part of it. -/
theorem inside {buffer : List α} {frame : F} {rest : List F}
    (arrived : buffer <+: bytes encode (frame :: rest))
    (short : buffer.length < (encode frame).length) : buffer <+: encode frame :=
  List.prefix_of_prefix_length_le arrived (List.prefix_append _ _) (Nat.le_of_lt short)

/-- The whole stream leaves no partial frame. -/
theorem none_left {rest : List F} (partial_ : Partial encode (bytes encode rest) rest) :
    rest = [] := by
  cases rest with
  | nil => rfl
  | cons frame rest =>
    have longer := Nat.le_add_right (encode frame).length (bytes encode rest).length
    rw [← List.length_append, ← bytes_cons] at longer
    exact absurd partial_ (Nat.not_lt.mpr longer)

end Frames
