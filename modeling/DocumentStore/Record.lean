import DocumentStore.Lookup

/-!
# Records

A record is a list of named members in the order in which the names were first given. Inserting
a name that is already there replaces its value in place; a removed name that comes back goes to
the end. Look-ups are by name only.
-/

set_option autoImplicit false

namespace DocumentStore

/-- A list of named members, the order being that of first insertion. -/
structure Record (α : Type) where
  members : List (String × α)
  deriving DecidableEq

namespace Record

variable {α : Type}

/-- The record without members. -/
def empty : Record α := ⟨[]⟩

/-- Replaces the value of the first member called `name`, or appends a member. -/
def insertMember (name : String) (value : α) : List (String × α) → List (String × α)
  | [] => [(name, value)]
  | (key, held) :: rest =>
    if key = name then (key, value) :: rest else (key, held) :: insertMember name value rest

/-- The record with `value` as the member `name`. -/
def insert (r : Record α) (name : String) (value : α) : Record α :=
  ⟨insertMember name value r.members⟩

/-- The record that results from inserting the given members in order. -/
def ofList (members : List (String × α)) : Record α :=
  members.foldl (fun r m => r.insert m.1 m.2) empty

/-- The value of the member `name`, if there is one. -/
def get? (r : Record α) (name : String) : Option α :=
  r.members.lookup name

/-- The record without the first member called `name`. -/
def erase (r : Record α) (name : String) : Record α :=
  ⟨r.members.eraseP fun m => m.1 = name⟩

/-- Takes the first member called `name` out of a list: its value, if there is one, and what is
left. -/
def removeMember (name : String) : List (String × α) → Option α × List (String × α)
  | [] => (none, [])
  | (key, held) :: rest =>
    if key = name then (some held, rest)
    else
      let (value, left) := removeMember name rest
      (value, (key, held) :: left)

/-- Takes the member `name` out of the record: its value, if there is one, and the record that is
left. -/
def remove (r : Record α) (name : String) : Option α × Record α :=
  let (value, left) := removeMember name r.members
  (value, ⟨left⟩)

/-- The member names in order. -/
def names (r : Record α) : List String := r.members.map Prod.fst

/-- The number of members. -/
def size (r : Record α) : Nat := r.members.length

/-- Whether there is no member. -/
def isEmpty (r : Record α) : Bool := r.members.isEmpty

/-- An insertion is found under its name; under the other names is what was there. -/
theorem lookup_insertMember (name key : String) (value : α) (members : List (String × α)) :
    (insertMember name value members).lookup key =
      if key = name then some value else members.lookup key := by
  induction members with
  | nil => rw [insertMember, lookup_cons_eq_ite]
  | cons m rest ih => grind [insertMember, lookup_cons_eq_ite]

/-- After an insertion the name has the new value and every other name what it had. -/
theorem get?_insert (r : Record α) (name key : String) (value : α) :
    (r.insert name value).get? key = if key = name then some value else r.get? key :=
  lookup_insertMember name key value r.members

/-- An insertion keeps the names in their order and puts a new one last. -/
theorem map_fst_insertMember (name : String) (value : α) (members : List (String × α)) :
    (insertMember name value members).map Prod.fst =
      if name ∈ members.map Prod.fst then members.map Prod.fst
      else members.map Prod.fst ++ [name] := by
  induction members with
  | nil => rfl
  | cons m rest ih =>
    obtain ⟨k, held⟩ := m
    simp only [insertMember]
    by_cases hk : k = name
    · simp [hk]
    · have hk' : ¬ name = k := fun h => hk h.symm
      by_cases hm : name ∈ rest.map Prod.fst <;> simp_all

/-- An insertion keeps the names and their order, and puts a new name last. -/
theorem names_insert (r : Record α) (name : String) (value : α) :
    (r.insert name value).names =
      if name ∈ r.names then r.names else r.names ++ [name] :=
  map_fst_insertMember name value r.members

/-- A removal finds the member with the name and leaves the others. -/
theorem removeMember_eq (name : String) (members : List (String × α)) :
    removeMember name members = (members.lookup name, members.eraseP fun m => m.1 = name) := by
  induction members with
  | nil => rfl
  | cons m rest ih =>
    obtain ⟨key, held⟩ := m
    rw [removeMember, lookup_cons_eq_ite, List.eraseP_cons]
    by_cases h : key = name
    · simp [h]
    · have h' : ¬ name = key := fun he => h he.symm
      simp [h, h', ih]

/-- A removal gives back what a look-up finds, and leaves the record without that member. -/
theorem remove_eq (r : Record α) (name : String) :
    r.remove name = (r.get? name, r.erase name) := by
  rw [remove, removeMember_eq]
  rfl

end Record

end DocumentStore
