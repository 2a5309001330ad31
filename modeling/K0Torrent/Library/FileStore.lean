import Mathlib.Logic.Function.Basic
import Mathlib.Data.List.Basic

/-! Files under keys, and what a sequence of writes leaves in them.

A write past the end of a file fills the gap with `blank`. A cell is a position
of a file; a sequence of writes is judged cell by cell, by the last one that
reaches it.
-/

set_option autoImplicit false

namespace FileStore

universe u v

variable {κ : Type u} {α : Type v}

def writeAt (blank : α) (file : List α) (offset : Nat) (items : List α) : List α :=
  if items = [] then file
  else (file ++ List.replicate (offset - file.length) blank).take offset ++
    (items ++ file.drop (offset + items.length))

structure Part (κ : Type u) (α : Type v) where
  key : κ
  offset : Nat
  items : List α

abbrev Files (κ : Type u) (α : Type v) := κ → List α

def Files.at (files : Files κ α) (cell : κ × Nat) : Option α := (files cell.1)[cell.2]?

section
variable (blank : α) (file items : List α) (offset : Nat)

theorem length_front : ((file ++ List.replicate (offset - file.length) blank).take offset).length =
    offset := by
  simp only [List.length_take, List.length_append, List.length_replicate]
  omega

theorem getElem?_writeAt_inside {k : Nat} {item : α} (written : items[k]? = some item) :
    (writeAt blank file offset items)[offset + k]? = some item := by
  have bound : k < items.length := (List.getElem?_eq_some_iff.mp written).1
  have some_ : items ≠ [] := List.ne_nil_of_length_pos (by omega)
  rw [writeAt, if_neg some_, List.getElem?_append_right (by rw [length_front]; omega), length_front,
    Nat.add_sub_cancel_left, List.getElem?_append_left bound, written]

theorem getElem?_writeAt_outside {k : Nat} (outside : k < offset ∨ offset + items.length ≤ k)
    {item : α} (stored : file[k]? = some item) :
    (writeAt blank file offset items)[k]? = some item := by
  have bound : k < file.length := (List.getElem?_eq_some_iff.mp stored).1
  unfold writeAt
  split
  · exact stored
  · rcases outside with before | behind
    · rw [List.getElem?_append_left (by rw [length_front]; exact before),
        List.getElem?_take_of_lt before, List.getElem?_append_left bound, stored]
    · rw [List.getElem?_append_right (by rw [length_front]; omega), length_front,
        List.getElem?_append_right (by omega), List.getElem?_drop]
      have same : offset + items.length + (k - offset - items.length) = k := by omega
      rw [same, stored]

theorem length_writeAt : (writeAt blank file offset items).length =
    if items = [] then file.length else max file.length (offset + items.length) := by
  unfold writeAt
  split
  · rfl
  · rw [List.length_append, length_front, List.length_append, List.length_drop]
    omega

end

variable [DecidableEq κ]

def store (blank : α) (files : Files κ α) (part : Part κ α) : Files κ α :=
  Function.update files part.key (writeAt blank (files part.key) part.offset part.items)

def storeAll (blank : α) (parts : List (Part κ α)) (files : Files κ α) : Files κ α :=
  parts.foldl (store blank) files

theorem store_nil (blank : α) (files : Files κ α) (key : κ) (offset : Nat) :
    store blank files ⟨key, offset, []⟩ = files := by
  rw [store, writeAt, if_pos rfl, Function.update_eq_self]

/-- The item a part puts into the cell. -/
def Part.itemAt (part : Part κ α) (cell : κ × Nat) : Option α :=
  if cell.1 = part.key ∧ part.offset ≤ cell.2 then part.items[cell.2 - part.offset]? else none

theorem key_of_itemAt {part : Part κ α} {cell : κ × Nat} {item : α}
    (put : part.itemAt cell = some item) : cell.1 = part.key := by
  unfold Part.itemAt at put
  split at put
  · rename_i reached
    exact reached.1
  · cases put

/-- Of a part that is cut in two, one half or the other has the item. -/
theorem itemAt_split {part : Part κ α} {cell : κ × Nat} {item : α} (n : Nat)
    (put : part.itemAt cell = some item) :
    Part.itemAt ⟨part.key, part.offset, part.items.take n⟩ cell = some item ∨
      Part.itemAt ⟨part.key, part.offset + (part.items.take n).length, part.items.drop n⟩ cell =
        some item := by
  unfold Part.itemAt at *
  split at put
  · rename_i reached
    have bound := (List.getElem?_eq_some_iff.mp put).1
    by_cases front : cell.2 - part.offset < n
    · left
      rw [if_pos reached]
      exact (List.getElem?_take_of_lt front).trans put
    · right
      simp only [List.length_take]
      rw [if_pos ⟨reached.1, by omega⟩, List.getElem?_drop, ← put]
      congr 1
      omega
  · cases put

theorem itemAt_take {part : Part κ α} {cell : κ × Nat} {item : α} {n : Nat}
    (put : Part.itemAt ⟨part.key, part.offset, part.items.take n⟩ cell = some item) :
    part.itemAt cell = some item := by
  unfold Part.itemAt at *
  split at put
  · rename_i reached
    have short := Nat.lt_of_lt_of_le (List.getElem?_eq_some_iff.mp put).1 (List.length_take_le ..)
    rw [if_pos reached, ← put, List.getElem?_take_of_lt short]
  · cases put

theorem itemAt_drop {part : Part κ α} {cell : κ × Nat} {item : α} {n : Nat}
    (put : Part.itemAt ⟨part.key, part.offset + (part.items.take n).length, part.items.drop n⟩ cell =
      some item) :
    part.itemAt cell = some item := by
  unfold Part.itemAt at *
  split at put
  · rename_i reached
    have bound := (List.getElem?_eq_some_iff.mp put).1
    dsimp only at reached bound put
    rw [List.length_take] at reached put
    rw [List.length_drop, List.length_take] at bound
    rw [List.getElem?_drop] at put
    rw [if_pos ⟨reached.1, by omega⟩, ← put]
    congr 1
    omega
  · cases put

/-- The item the last part that reaches the cell puts there. -/
def lastPut (cell : κ × Nat) : List (Part κ α) → Option α
  | [] => none
  | part :: rest => lastPut cell rest <|> part.itemAt cell

section
variable (blank : α) (files : Files κ α) (part : Part κ α)

theorem at_store_of_put {cell : κ × Nat} {item : α} (put : part.itemAt cell = some item) :
    Files.at (store blank files part) cell = some item := by
  unfold Part.itemAt at put
  split at put
  · rename_i reached
    obtain ⟨key, offset⟩ := cell
    obtain ⟨rfl, bound⟩ := reached
    have inside := getElem?_writeAt_inside blank (files part.key) part.items part.offset put
    simp only at bound inside
    rw [Nat.add_sub_cancel' bound] at inside
    simpa only [Files.at, store, Function.update_self] using inside
  · cases put

theorem at_store_of_kept {cell : κ × Nat} {item : α} (none_ : part.itemAt cell = none)
    (stored : files.at cell = some item) : Files.at (store blank files part) cell = some item := by
  by_cases same : cell.1 = part.key
  · have outside : cell.2 < part.offset ∨ part.offset + part.items.length ≤ cell.2 := by
      by_contra inside
      have missed : part.items[cell.2 - part.offset]? = none := by
        rwa [Part.itemAt, if_pos ⟨same, by omega⟩] at none_
      have short := List.getElem?_eq_none_iff.mp missed
      omega
    rw [Files.at, same] at stored
    have kept := getElem?_writeAt_outside blank (files part.key) part.items part.offset outside
      stored
    simpa only [Files.at, store, same, Function.update_self] using kept
  · simpa only [Files.at, store, Function.update_of_ne same] using stored

theorem length_le_store (key : κ) : (files key).length ≤ (store blank files part key).length := by
  by_cases same : key = part.key
  · subst same
    rw [store, Function.update_self, length_writeAt]
    split
    · exact Nat.le_refl _
    · exact Nat.le_max_left ..
  · simp only [store, Function.update_of_ne same, Nat.le_refl]

/-- A cell that a write fills is one it reaches, or lies before one it reaches. -/
theorem at_store_grows {cell : κ × Nat} (filled : Files.at (store blank files part) cell ≠ none)
    (empty : files.at cell = none) :
    ∃ further, cell.2 ≤ further ∧ part.itemAt (cell.1, further) ≠ none := by
  by_cases same : cell.1 = part.key
  · simp only [Files.at, store, same, Function.update_self, ne_eq, List.getElem?_eq_none_iff,
      length_writeAt] at filled empty
    split at filled
    · exact absurd empty filled
    · have last : part.items.length - 1 < part.items.length := by
        have more : 0 < part.items.length := List.length_pos_iff.mpr (by assumption)
        omega
      refine ⟨part.offset + (part.items.length - 1), by omega, ?_⟩
      rw [Part.itemAt, if_pos ⟨same, Nat.le_add_right ..⟩, Nat.add_sub_cancel_left,
        List.getElem?_eq_getElem last]
      nofun
  · simp only [Files.at, store, Function.update_of_ne same] at filled empty
    exact absurd empty filled

end

section
variable (blank : α)

theorem lastPut_cons_eq_none {cell : κ × Nat} {part : Part κ α} {rest : List (Part κ α)} :
    lastPut cell (part :: rest) = none ↔ lastPut cell rest = none ∧ part.itemAt cell = none := by
  rw [lastPut]
  cases lastPut cell rest <;> simp

theorem lastPut_ne_none {cell : κ × Nat} {part : Part κ α} {parts : List (Part κ α)}
    (member : part ∈ parts) (put : part.itemAt cell ≠ none) : lastPut cell parts ≠ none := by
  induction parts with
  | nil => cases member
  | cons first rest ih =>
    intro none_
    obtain ⟨later, here⟩ := lastPut_cons_eq_none.mp none_
    rcases List.mem_cons.mp member with rfl | inRest
    · exact put here
    · exact ih inRest later

theorem mem_of_lastPut {cell : κ × Nat} {item : α} : ∀ {parts : List (Part κ α)},
    lastPut cell parts = some item → ∃ part ∈ parts, part.itemAt cell = some item
  | [], put => nomatch put
  | part :: rest, put => by
    rw [lastPut] at put
    cases later : lastPut cell rest with
    | some other =>
      rw [later] at put
      obtain ⟨last, member, here⟩ := mem_of_lastPut (later.trans put)
      exact ⟨last, List.mem_cons_of_mem _ member, here⟩
    | none =>
      rw [later] at put
      exact ⟨part, List.mem_cons_self .., put⟩

theorem at_storeAll_of_kept {cell : κ × Nat} {item : α} (parts : List (Part κ α))
    (files : Files κ α) (none_ : lastPut cell parts = none) (stored : files.at cell = some item) :
    Files.at (storeAll blank parts files) cell = some item := by
  induction parts generalizing files with
  | nil => exact stored
  | cons part rest ih =>
    obtain ⟨later, here⟩ := lastPut_cons_eq_none.mp none_
    exact ih (store blank files part) later (at_store_of_kept blank files part here stored)

theorem at_storeAll_of_put {cell : κ × Nat} {item : α} (parts : List (Part κ α))
    (files : Files κ α) (put : lastPut cell parts = some item) :
    Files.at (storeAll blank parts files) cell = some item := by
  induction parts generalizing files with
  | nil => cases put
  | cons part rest ih =>
    rw [lastPut] at put
    cases later : lastPut cell rest with
    | some other =>
      rw [later] at put
      exact ih (store blank files part) (later.trans put)
    | none =>
      rw [later] at put
      exact at_storeAll_of_kept blank rest _ later (at_store_of_put blank files part put)

theorem at_storeAll_grows {cell : κ × Nat} (parts : List (Part κ α)) (files : Files κ α)
    (filled : Files.at (storeAll blank parts files) cell ≠ none) (empty : files.at cell = none) :
    ∃ further, cell.2 ≤ further ∧ lastPut (cell.1, further) parts ≠ none := by
  induction parts generalizing files with
  | nil => exact absurd empty filled
  | cons part rest ih =>
    by_cases next : Files.at (store blank files part) cell = none
    · obtain ⟨further, behind, reached⟩ := ih (store blank files part) filled next
      exact ⟨further, behind, fun none_ => reached (lastPut_cons_eq_none.mp none_).1⟩
    · obtain ⟨further, behind, reached⟩ := at_store_grows blank files part next empty
      exact ⟨further, behind, fun none_ => reached (lastPut_cons_eq_none.mp none_).2⟩

/-- A cell that a write fills without reaching it lies in a gap. -/
theorem at_store_of_gap {cell : κ × Nat} {item : α} {part : Part κ α} {files : Files κ α}
    (none_ : part.itemAt cell = none) (empty : files.at cell = none)
    (filled : Files.at (store blank files part) cell = some item) : item = blank := by
  by_cases same : cell.1 = part.key
  · simp only [Files.at, store, same, Function.update_self] at filled empty
    unfold writeAt at filled
    split at filled
    · cases empty.symm.trans filled
    · have short := List.getElem?_eq_none_iff.mp empty
      rcases Nat.lt_or_ge cell.2 part.offset with before | behind
      · rw [List.getElem?_append_left (by rw [length_front]; exact before),
          List.getElem?_take_of_lt before, List.getElem?_append_right short] at filled
        exact List.eq_of_mem_replicate (List.mem_of_getElem? filled)
      · -- Behind the gap come the items, which do not reach the cell, and what was there before.
        rw [Part.itemAt, if_pos ⟨same, behind⟩] at none_
        have reached := List.getElem?_eq_none_iff.mp none_
        rw [List.getElem?_append_right (by rw [length_front]; exact behind), length_front,
          List.getElem?_append_right reached, List.getElem?_drop, List.getElem?_eq_none (by omega)]
          at filled
        cases filled
  · simp only [Files.at, store, Function.update_of_ne same] at filled empty
    cases empty.symm.trans filled

theorem at_storeAll_of_gap {cell : κ × Nat} {item : α} (parts : List (Part κ α))
    (files : Files κ α) (none_ : lastPut cell parts = none) (empty : files.at cell = none)
    (filled : Files.at (storeAll blank parts files) cell = some item) : item = blank := by
  induction parts generalizing files with
  | nil => cases empty.symm.trans filled
  | cons part rest ih =>
    obtain ⟨later, here⟩ := lastPut_cons_eq_none.mp none_
    cases next : Files.at (store blank files part) cell with
    | none => exact ih (store blank files part) later next filled
    | some other =>
      have kept := at_storeAll_of_kept blank rest _ later next
      rw [at_store_of_gap blank here empty next] at kept
      exact Option.some.inj (filled.symm.trans kept)

/-- What a cell holds was put there, or was there before, or fills a gap before one that was
put there. -/
theorem at_storeAll_cases {cell : κ × Nat} {item : α} (parts : List (Part κ α))
    (files : Files κ α) (filled : Files.at (storeAll blank parts files) cell = some item) :
    lastPut cell parts = some item ∨ files.at cell = some item ∨
      item = blank ∧ files.at cell = none ∧
        ∃ further, cell.2 ≤ further ∧ lastPut (cell.1, further) parts ≠ none := by
  cases put : lastPut cell parts with
  | some other =>
    rw [at_storeAll_of_put blank parts files put] at filled
    exact .inl filled
  | none =>
    right
    cases stored : files.at cell with
    | some other =>
      rw [at_storeAll_of_kept blank parts files put stored] at filled
      exact .inl filled
    | none =>
      refine .inr ⟨at_storeAll_of_gap blank parts files put stored filled, rfl, ?_⟩
      exact at_storeAll_grows blank parts files (by rw [filled]; exact Option.some_ne_none _) stored

theorem storeAll_append (first second : List (Part κ α)) (files : Files κ α) :
    storeAll blank (first ++ second) files = storeAll blank second (storeAll blank first files) :=
  List.foldl_append

/-- Writes never take a cell away. -/
theorem at_storeAll_ne_none {cell : κ × Nat} (parts : List (Part κ α)) (files : Files κ α)
    (stored : files.at cell ≠ none) : Files.at (storeAll blank parts files) cell ≠ none := by
  obtain ⟨item, stored⟩ := Option.ne_none_iff_exists'.mp stored
  cases put : lastPut cell parts with
  | some other => simp [at_storeAll_of_put blank parts files put]
  | none => simp [at_storeAll_of_kept blank parts files put stored]

/-- Writes change nothing exactly when each cell they reach already holds what
the last of them puts there. -/
theorem storeAll_eq_self_iff (parts : List (Part κ α)) (files : Files κ α) :
    storeAll blank parts files = files ↔
      ∀ cell item, lastPut cell parts = some item → files.at cell = some item := by
  constructor
  · intro same cell item put
    have stored := at_storeAll_of_put blank parts files put
    rwa [same] at stored
  · intro holds
    funext key
    apply List.ext_getElem?
    intro k
    change Files.at (storeAll blank parts files) (key, k) = files.at (key, k)
    cases put : lastPut (key, k) parts with
    | some item => rw [at_storeAll_of_put blank parts files put, holds _ _ put]
    | none =>
      cases stored : files.at (key, k) with
      | some item => exact at_storeAll_of_kept blank parts files put stored
      | none =>
        by_contra filled
        obtain ⟨further, behind, reached⟩ := at_storeAll_grows blank parts files filled stored
        obtain ⟨item, last⟩ := Option.ne_none_iff_exists'.mp reached
        -- The file would hold a byte behind one that it does not hold.
        have bound := (List.getElem?_eq_some_iff.mp (holds _ _ last)).1
        have short := List.getElem?_eq_none_iff.mp stored
        exact absurd (Nat.lt_of_le_of_lt behind bound) (Nat.not_lt.mpr short)

end

end FileStore
