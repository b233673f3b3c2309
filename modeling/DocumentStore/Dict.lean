import DocumentStore.Lookup

/-!
# Dictionaries

A dictionary keeps its entries in ascending order of their keys, so two dictionaries with the same
entries are equal whatever the order in which the entries were given. Inserting a key that is
already there replaces its value.
-/

set_option autoImplicit false

namespace DocumentStore

/-- A finite map from names to values, its entries listed by ascending name. -/
structure Dict (α : Type) where
  entries : List (String × α)
  deriving DecidableEq

namespace Dict

variable {α : Type}

/-- The dictionary without entries. -/
def empty : Dict α := ⟨[]⟩

/-- Puts `value` under `name` into a list of entries sorted by name. -/
def insertEntry (name : String) (value : α) : List (String × α) → List (String × α)
  | [] => [(name, value)]
  | (key, held) :: rest =>
    if name = key then (name, value) :: rest
    else if name < key then (name, value) :: (key, held) :: rest
    else (key, held) :: insertEntry name value rest

/-- The dictionary with `value` under `name`, in place of any value held there. -/
def insert (d : Dict α) (name : String) (value : α) : Dict α :=
  ⟨insertEntry name value d.entries⟩

/-- The dictionary of the given entries; of two entries with one name the later counts. -/
def ofList (entries : List (String × α)) : Dict α :=
  entries.foldl (fun d e => d.insert e.1 e.2) empty

/-- The value under `name`, if there is one. -/
def get? (d : Dict α) (name : String) : Option α :=
  d.entries.lookup name

/-- The names in ascending order. -/
def names (d : Dict α) : List String := d.entries.map Prod.fst

/-- The number of entries. -/
def size (d : Dict α) : Nat := d.entries.length

/-- Whether there is no entry. -/
def isEmpty (d : Dict α) : Bool := d.entries.isEmpty

/-- The names are listed in strictly ascending order. -/
def Sorted (d : Dict α) : Prop := d.entries.Pairwise fun a b => a.1 < b.1

/-- An insertion is found under its name; under the other names is what was there. -/
theorem lookup_insertEntry (name key : String) (value : α) (entries : List (String × α)) :
    (insertEntry name value entries).lookup key =
      if key = name then some value else entries.lookup key := by
  induction entries with
  | nil => rw [insertEntry, lookup_cons_eq_ite]
  | cons e rest ih => grind [insertEntry, lookup_cons_eq_ite]

/-- After an insertion the name has the new value and every other name what it had. -/
theorem get?_insert (d : Dict α) (name key : String) (value : α) :
    (d.insert name value).get? key = if key = name then some value else d.get? key :=
  lookup_insertEntry name key value d.entries

/-- What is in a list after an insertion is the new entry or was there before. -/
theorem mem_insertEntry {name : String} {value : α} {entries : List (String × α)}
    {e : String × α} (h : e ∈ insertEntry name value entries) :
    e = (name, value) ∨ e ∈ entries := by
  induction entries with
  | nil => exact Or.inl (List.mem_singleton.mp h)
  | cons held rest ih =>
    obtain ⟨key, v⟩ := held
    rw [insertEntry] at h
    split at h
    · rcases List.mem_cons.mp h with h | h
      · exact Or.inl h
      · exact Or.inr (List.mem_cons_of_mem _ h)
    · split at h
      · exact List.mem_cons.mp h
      · rcases List.mem_cons.mp h with h | h
        · exact Or.inr (h ▸ List.mem_cons_self ..)
        · rcases ih h with h | h
          · exact Or.inl h
          · exact Or.inr (List.mem_cons_of_mem _ h)

/-- An insertion keeps the names ascending. -/
theorem sorted_insert (d : Dict α) (h : d.Sorted) (name : String) (value : α) :
    (d.insert name value).Sorted := by
  obtain ⟨entries⟩ := d
  unfold Sorted insert
  unfold Sorted at h
  induction entries with
  | nil => exact List.pairwise_singleton _ _
  | cons held rest ih =>
    obtain ⟨key, v⟩ := held
    obtain ⟨hhead, hrest⟩ := List.pairwise_cons.mp h
    rw [insertEntry]
    split
    · next hk => exact List.pairwise_cons.mpr ⟨fun e he => hk ▸ hhead e he, hrest⟩
    · next hne =>
      split
      · next hlt =>
        refine List.pairwise_cons.mpr ⟨fun e he => ?_, h⟩
        rcases List.mem_cons.mp he with rfl | he
        · exact hlt
        · exact String.lt_trans hlt (hhead e he)
      · next hnlt =>
        have hgt : key < name := Std.lt_of_le_of_ne (String.not_lt.mp hnlt) (Ne.symm hne)
        refine List.pairwise_cons.mpr ⟨fun e he => ?_, ih hrest⟩
        rcases mem_insertEntry he with rfl | he
        · exact hgt
        · exact hhead e he

end Dict

end DocumentStore
