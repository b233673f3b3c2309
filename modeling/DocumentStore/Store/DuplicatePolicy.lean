import DocumentStore.Document.Basic
import DocumentStore.Json.Reader

/-!
# Duplicate policies

A policy says what a write does with a document whose id is already stored. Two documents of one
write with the same id are duplicates too: an overwriting write keeps the last of them, a skipping
write the first, and a failing write rejects them.
-/

set_option autoImplicit false

namespace DocumentStore

/-- What a write does with a document whose id is already stored. -/
inductive DuplicatePolicy where
  /-- What the store does by itself, which is to overwrite. -/
  | unset
  | skip
  | overwrite
  | fail
  deriving DecidableEq

namespace DuplicatePolicy

/-- The policy that is followed. -/
def resolve : DuplicatePolicy → DuplicatePolicy
  | .unset => .overwrite
  | policy => policy

/-- The name of a policy. -/
def text : DuplicatePolicy → String
  | .unset => "none"
  | .skip => "skip"
  | .overwrite => "overwrite"
  | .fail => "fail"

/-- The policy with a name. -/
def ofText? : String → Option DuplicatePolicy
  | "none" => some .unset
  | "skip" => some .skip
  | "overwrite" => some .overwrite
  | "fail" => some .fail
  | _ => none

/-- Reading a name gives the policy back. -/
theorem ofText?_text (policy : DuplicatePolicy) : ofText? policy.text = some policy := by
  cases policy <;> rfl

section Select

variable {α : Type} (id : α → String)

/-- One round of the selection, for the next item: `seen` are the ids of the items before it and
`selected` those of them that are sent to the store. -/
def selectStep (policy : DuplicatePolicy) (stored : List String)
    (state : List String × Array α) (item : α) : Except Error (List String × Array α) :=
  let (seen, selected) := state
  let isStored := id item ∈ stored
  let isRepeated := id item ∈ seen
  let seen := id item :: seen
  match policy with
  | .fail =>
    if isStored ∨ isRepeated then .error (.duplicate (id item))
    else .ok (seen, selected.push item)
  | .skip => .ok (seen, if isStored ∨ isRepeated then selected else selected.push item)
  | .overwrite => .ok (seen, if isRepeated then selected else selected.push item)
  | .unset => .ok (seen, selected.push item)

/-- The items that a write under the policy sends to a store which holds the ids `stored`. An
overwriting write goes through them from the last one on. -/
def selectBy (policy : DuplicatePolicy) (items : List α) (stored : List String) :
    Except Error (List α) := do
  let policy := policy.resolve
  let ordered := if policy = .overwrite then items.reverse else items
  let (_, selected) ← ordered.foldlM (policy.selectStep id stored) ([], #[])
  return if policy = .overwrite then selected.toList.reverse else selected.toList

end Select

/-- The documents that a write under the policy sends to a store which holds the ids `stored`. -/
def select (policy : DuplicatePolicy) (documents : List Document) (stored : List String) :
    Except Error (List Document) :=
  policy.selectBy Document.id documents stored

/-- The policy with a written name. -/
def ofName (name : Json.StringToken) : Except Json.Failure DuplicatePolicy := do
  match ofText? (← name.value) with
  | some policy => return policy
  | none => .error .unsuitable

/-- Reads a policy: its name, or an object with that name as its only member and null under it. -/
def ofTree (room : Nat) : Json.Tree → Except Json.Failure DuplicatePolicy
  | .string name => ofName name
  | .object members close =>
    if room = 0 then .error .malformed
    else
      match members, close with
      | [], .proper => .error .malformed
      | [], .improper f => .error f
      | [], .afterComma f => .error f
      | [], .afterName name f => do
        discard (ofName name)
        .error f
      | (name, value) :: others, close => do
        let policy ← ofName name
        match value with
        | .null =>
          match others, close with
          | [], .proper => return policy
          | [], .improper f => .error f
          | _, _ => .error .malformed
        | value => .error value.unwanted
  | .broken f => .error f
  | _ => .error .malformed

end DuplicatePolicy

end DocumentStore
