/-!
# Look-up by name

A list of named values is searched from its front; the first value under a name is the one found.
-/

set_option autoImplicit false

namespace DocumentStore

/-- The head of a list of named values is found under its own name and passed over otherwise. -/
theorem lookup_cons_eq_ite {α : Type} (name key : String) (value : α)
    (rest : List (String × α)) :
    ((name, value) :: rest).lookup key = if key = name then some value else rest.lookup key := by
  rw [List.lookup_cons]
  by_cases h : key = name
  · simp [h]
  · rw [beq_false_of_ne h, if_neg h]

end DocumentStore
