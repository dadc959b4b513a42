import ShapeLang.NameMap

/-!
# Lookups in maps from names

What a lookup finds after a binding is put in, taken out or listed. None of the
laws needs the order of the entries.
-/

namespace ShapeLang.NameMap

variable {α : Type}

theorem lookup_entry (name key : String) (value : α) (rest : List (String × α)) :
    ((key, value) :: rest).lookup name = if name = key then some value else rest.lookup name := by
  by_cases same : name = key
  · subst same
    simp
  · have differ : (name == key) = false := beq_false_of_ne same
    simp [List.lookup_cons, differ, same]

theorem lookup_insertEntry (name other : String) (value : α) (entries : List (String × α)) :
    (insertEntry name value entries).lookup other =
      if other = name then some value else entries.lookup other := by
  induction entries with
  | nil => exact lookup_entry other name value []
  | cons head rest ih =>
    obtain ⟨key, old⟩ := head
    simp only [insertEntry]
    split
    · exact lookup_entry other name value _
    · split
      · rename_i equal
        subst equal
        by_cases same : other = name <;> simp [lookup_entry, same]
      · rename_i different
        rw [lookup_entry, lookup_entry, ih]
        by_cases found : other = key
        · have apart : other ≠ name := fun h => different (h.symm.trans found)
          rw [if_pos found, if_neg apart, if_pos found]
        · simp [found]

/-- Putting a value in changes what is found under one name. -/
theorem find?_insert (m : NameMap α) (name other : String) (value : α) :
    (m.insert name value).find? other = if other = name then some value else m.find? other :=
  lookup_insertEntry name other value m.entries

@[simp] theorem find?_empty (name : String) : (empty : NameMap α).find? name = none := rfl

theorem find?_erase (m : NameMap α) (name other : String) :
    (m.erase name).find? other = if other = name then none else m.find? other := by
  show (m.entries.filter (·.1 != name)).lookup other =
    if other = name then none else m.entries.lookup other
  induction m.entries with
  | nil => simp
  | cons head rest ih =>
    obtain ⟨key, value⟩ := head
    rw [lookup_entry]
    by_cases erased : key = name
    · rw [List.filter_cons_of_neg (by simp [erased]), ih]
      by_cases same : other = name <;> simp [same, erased]
    · rw [List.filter_cons_of_pos (by simp [erased]), lookup_entry, ih]
      by_cases found : other = key
      · simp [found, erased]
      · simp [found]

theorem mem_of_lookup {entries : List (String × α)} {name : String} {value : α}
    (found : entries.lookup name = some value) : (name, value) ∈ entries := by
  induction entries with
  | nil => simp at found
  | cons head rest ih =>
    obtain ⟨key, old⟩ := head
    rw [lookup_entry] at found
    by_cases same : name = key
    · rw [if_pos same] at found
      cases found
      exact same ▸ List.mem_cons_self
    · rw [if_neg same] at found
      exact List.mem_cons_of_mem _ (ih found)

theorem keys_nodup (m : NameMap α) : m.keys.Nodup := by
  refine List.pairwise_map.mpr (m.sorted.imp fun before same => ?_)
  rw [same] at before
  exact String.lt_irrefl _ before

theorem mem_keys_of_find? {m : NameMap α} {name : String} {value : α}
    (found : m.find? name = some value) : name ∈ m.keys :=
  List.mem_map.mpr ⟨_, mem_of_lookup found, rfl⟩

theorem find?_ofList_isSome {entries : List (String × α)} {name : String}
    (listed : name ∈ entries.map (·.1)) : ((ofList entries).find? name).isSome = true := by
  have insert (m : NameMap α) (entries : List (String × α))
      (known : name ∈ entries.map (·.1) ∨ (m.find? name).isSome = true) :
      ((entries.foldl (fun m e => m.insert e.1 e.2) m).find? name).isSome = true := by
    induction entries generalizing m with
    | nil => simpa using known
    | cons entry entries ih =>
      rw [List.foldl_cons]
      apply ih
      rw [find?_insert]
      by_cases same : name = entry.1
      · simp [same]
      · simpa [same] using known
  exact insert _ entries (.inl listed)

end ShapeLang.NameMap
