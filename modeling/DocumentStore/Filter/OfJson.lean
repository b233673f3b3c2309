import DocumentStore.Filter.Basic

/-!
# Filters of JSON values

The shape of a filter is checked on the way down: the first member that is missing or of the wrong
kind, or operator that is unknown, decides the error. Whether operators, fields and operands go
together is not checked here.
-/

set_option autoImplicit false

namespace DocumentStore.Filter

/-- The member `key` of a filter node with the given members. -/
def requiredMember (members : List (String × Json)) (key : String) : Except Error Json :=
  match members.lookup key with
  | some value => .ok value
  | none => .error (.filter (.missingKey key (.object members)))

/-- The text of the member `key` of a filter node with the given members. -/
def requiredText (members : List (String × Json)) (key : String) : Except Error String := do
  match ← requiredMember members key with
  | .string s => .ok s
  | _ => .error (.filter (.keyNotString key))

/-- The comparison that a node with the given members is. -/
def comparisonOf (members : List (String × Json)) : Except Error Filter := do
  let field ← requiredText members "field"
  let comparator ← Comparator.parse (← requiredText members "operator")
  let value ← requiredMember members "value"
  return .comparison field comparator (Operand.ofJson value)

mutual

/-- The filter that a JSON value describes. -/
def ofJson : Json → Except Error Filter
  | .object members =>
    if (members.lookup "field").isSome then comparisonOf members
    else do
      let connective ← Connective.parse (← requiredText members "operator")
      match conditionsOf members with
      | some conditions => return .combination connective (← conditions)
      | none => .error (.filter (.missingKey "conditions" (.object members)))
  | value => .error (.filter (.notObject value))

/-- The filters that the member `conditions` describes, if there is one. -/
def conditionsOf : List (String × Json) → Option (Except Error (List Filter))
  | [] => none
  | (name, value) :: rest =>
    if name = "conditions" then
      match value with
      | .array items => some (ofItems items)
      | _ => some (.error (.filter .conditionsNotList))
    else conditionsOf rest

/-- The filters that JSON values describe. -/
def ofItems : List Json → Except Error (List Filter)
  | [] => .ok []
  | item :: rest => do
    let filter ← ofJson item
    return filter :: (← ofItems rest)

end

/-- The filter that a JSON text describes. -/
def parse (text : String) : Except Error Filter :=
  match Json.parse text with
  | .ok value => ofJson value
  | .error failure => .error (.json failure)

end DocumentStore.Filter
