import K0Torrent.Bencode.Canonical

/-! Dictionaries with fixed keys, some of which may be left out. -/

set_option autoImplicit false

namespace K0Torrent

abbrev Record := List (Bytes × Option BencodeValue)

namespace Record

/-- The dictionary of the fields that are there. -/
def dict (fields : Record) : List (Bytes × BencodeValue) :=
  fields.filterMap fun field => field.2.map (field.1, ·)

/-- Its keys are different, and in the order of a dictionary. -/
def Sorted (fields : Record) : Prop := (fields.map Prod.fst).Pairwise (· < ·)

instance (fields : Record) : Decidable fields.Sorted := by
  unfold Sorted
  infer_instance

variable {fields : Record}

theorem dict_append (front back : Record) : dict (front ++ back) = front.dict ++ back.dict :=
  List.filterMap_append

theorem mem_dict {entry : Bytes × BencodeValue} :
    entry ∈ fields.dict ↔ (entry.1, some entry.2) ∈ fields := by
  obtain ⟨key, val⟩ := entry
  rw [dict, List.mem_filterMap]
  constructor
  · rintro ⟨⟨key', val'⟩, member, same⟩
    cases val' <;> cases same
    exact member
  · intro member
    exact ⟨_, member, rfl⟩

theorem Sorted.ascending (sorted : fields.Sorted) : Ascending fields.dict := by
  induction fields with
  | nil => exact List.Pairwise.nil
  | cons field fields ih =>
    obtain ⟨key, val⟩ := field
    obtain ⟨above, later⟩ := List.pairwise_cons.mp sorted
    cases val with
    | none => exact ih later
    | some val =>
      refine List.pairwise_cons.mpr ⟨fun entry member => ?_, ih later⟩
      exact above _ (List.mem_map.mpr ⟨_, mem_dict.mp member, rfl⟩)

/-- A key is bound to what its field holds. -/
theorem lookup_dict (sorted : fields.Sorted) (key : Bytes) :
    fields.dict.lookup key = (fields.lookup key).join := by
  induction fields with
  | nil => rfl
  | cons field fields ih =>
    obtain ⟨key', val⟩ := field
    obtain ⟨above, later⟩ := List.pairwise_cons.mp sorted
    by_cases same : key = key'
    · subst same
      rw [List.lookup_cons_self]
      cases val with
      | none =>
        refine lookup_eq_none_of_lt fun entry member => ?_
        exact above _ (List.mem_map.mpr ⟨_, mem_dict.mp member, rfl⟩)
      | some val => exact List.lookup_cons_self
    · have skipped : ((key', val) :: fields).lookup key = fields.lookup key := by
        rw [List.lookup_cons, beq_eq_false_iff_ne.mpr same]
      rw [skipped, ← ih later]
      cases val with
      | none => rfl
      | some val => exact lookup_cons_other same val (dict fields)

theorem nativeEntries_dict (native : ∀ key val, (key, some val) ∈ fields → Native val) :
    NativeEntries fields.dict := by
  induction fields with
  | nil => trivial
  | cons field fields ih =>
    obtain ⟨key, val⟩ := field
    have later := ih fun key val member => native key val (List.mem_cons_of_mem _ member)
    cases val with
    | none => exact later
    | some val => exact ⟨native key val (List.mem_cons_self ..), later⟩

theorem native_dict (sorted : fields.Sorted)
    (native : ∀ key val, (key, some val) ∈ fields → Native val) : Native (.dict fields.dict) :=
  ⟨nativeEntries_dict native, sorted.ascending⟩

end Record

theorem nativeItems_of_forall {items : List BencodeValue} (native : ∀ item ∈ items, Native item) :
    NativeItems items := by
  induction items with
  | nil => trivial
  | cons item items ih =>
    obtain ⟨first, later⟩ := List.forall_mem_cons.mp native
    exact ⟨first, ih later⟩

end K0Torrent
