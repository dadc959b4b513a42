/-!
# Maps from names

A finite map whose keys are names, kept in the order of the names' UTF-8 bytes,
which is the order of their code points. Two maps with the same entries are the
same list.
-/

namespace ShapeLang

structure NameMap (α : Type) where
  entries : List (String × α)
  sorted : entries.Pairwise fun a b => a.1 < b.1

namespace NameMap

variable {α : Type}

/-- Puts a value under a name into a list in key order, replacing what was there. -/
def insertEntry (name : String) (value : α) : List (String × α) → List (String × α)
  | [] => [(name, value)]
  | (key, old) :: rest =>
      if name < key then (name, value) :: (key, old) :: rest
      else if name = key then (name, value) :: rest
      else (key, old) :: insertEntry name value rest

theorem mem_insertEntry {name : String} {value : α} {entry : String × α}
    {entries : List (String × α)} (h : entry ∈ insertEntry name value entries) :
    entry = (name, value) ∨ entry ∈ entries := by
  induction entries with
  | nil => simpa [insertEntry] using h
  | cons head rest ih =>
      obtain ⟨key, old⟩ := head
      simp only [insertEntry] at h
      split at h
      · simpa using h
      · split at h
        · rcases List.mem_cons.1 h with h | h
          · exact .inl h
          · exact .inr (List.mem_cons_of_mem _ h)
        · rcases List.mem_cons.1 h with h | h
          · exact .inr (h ▸ List.mem_cons_self)
          · exact (ih h).imp_right (List.mem_cons_of_mem _)

theorem lt_of_not_lt_of_ne {a b : String} (notLess : ¬ a < b) (different : a ≠ b) : b < a := by
  by_cases less : b < a
  · exact less
  · exact absurd (String.le_antisymm (String.not_lt.1 less) (String.not_lt.1 notLess)) different

theorem sorted_insertEntry (name : String) (value : α) {entries : List (String × α)}
    (sorted : entries.Pairwise fun a b => a.1 < b.1) :
    (insertEntry name value entries).Pairwise fun a b => a.1 < b.1 := by
  induction entries with
  | nil => simp [insertEntry]
  | cons head rest ih =>
      obtain ⟨key, old⟩ := head
      have tail := List.pairwise_cons.1 sorted
      simp only [insertEntry]
      split
      · rename_i less
        refine List.pairwise_cons.2 ⟨fun entry h => ?_, sorted⟩
        rcases List.mem_cons.1 h with h | h
        · exact h ▸ less
        · exact String.lt_trans less (tail.1 entry h)
      · rename_i notLess
        split
        · rename_i equal
          exact List.pairwise_cons.2 ⟨fun entry h => equal ▸ tail.1 entry h, tail.2⟩
        · rename_i different
          refine List.pairwise_cons.2 ⟨fun entry h => ?_, ih tail.2⟩
          rcases mem_insertEntry h with h | h
          · exact h ▸ lt_of_not_lt_of_ne notLess different
          · exact tail.1 entry h

def empty : NameMap α := ⟨[], .nil⟩

instance : Inhabited (NameMap α) := ⟨empty⟩

instance [BEq α] : BEq (NameMap α) := ⟨fun a b => a.entries == b.entries⟩

def find? (m : NameMap α) (name : String) : Option α := m.entries.lookup name

def contains (m : NameMap α) (name : String) : Bool := (m.find? name).isSome

def insert (m : NameMap α) (name : String) (value : α) : NameMap α :=
  ⟨insertEntry name value m.entries, sorted_insertEntry name value m.sorted⟩

def erase (m : NameMap α) (name : String) : NameMap α :=
  ⟨m.entries.filter (·.1 != name), m.sorted.filter _⟩

/-- Another value under a name that has one; a name without a value stays without. -/
def modify (m : NameMap α) (name : String) (f : α → α) : NameMap α :=
  match m.find? name with
  | some value => m.insert name (f value)
  | none => m

def keys (m : NameMap α) : List String := m.entries.map (·.1)

def values (m : NameMap α) : List α := m.entries.map (·.2)

def size (m : NameMap α) : Nat := m.entries.length

/-- Later entries replace earlier ones of the same name. -/
def ofList (entries : List (String × α)) : NameMap α :=
  entries.foldl (fun m (name, value) => m.insert name value) empty

end NameMap

end ShapeLang
