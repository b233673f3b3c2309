import DocumentStore.Filter.OfJson
import DocumentStore.Predicate.Evaluation

/-!
# Predicates of filters

A filter becomes a predicate on stored rows. Whether a field is there is never taken from a null
alone: a metadata field is there when its flag is not set and its value is not null, an embedding
when its flag is not set. Every comparison with a value also asks that the field is there, so an
absent field satisfies no comparison but a denied membership.
-/

set_option autoImplicit false

namespace DocumentStore

/-- What the field of a filter names. -/
inductive FilterTarget where
  | vector
  /-- A metadata field below the given structs. -/
  | metadata (structs : List String) (leaf : String)
  | root (column : String)
  deriving DecidableEq

namespace FilterTarget

/-- The root columns that filters name by themselves. -/
def rootColumns : List String := [Column.id, Column.content, Column.dataframe, Column.blob]

/-- The target with the given segments of its name. -/
def ofSegments? : List String → Option FilterTarget
  | [] => none
  | [name] =>
    if name = Column.vector ∨ name = Column.embedding then some .vector
    else if name ∈ rootColumns then some (.root name)
    else none
  | name :: next :: rest =>
    if name = Column.metadata then
      some (.metadata ((next :: rest).dropLast) ((next :: rest).getLast (by simp)))
    else none

/-- The target that a filter field names: segments separated by points, none of them empty or
reserved. -/
def parse (field : String) : Except Error FilterTarget :=
  let segments := (Text.pieces '.' field.toList).map String.ofList
  if "" ∈ segments then .error (.filter (.invalidField field))
  else if Column.flags ∈ segments then .error (.filter (.reservedField field))
  else
    match ofSegments? segments with
    | some target => .ok target
    | none => .error (.filter (.unknownField field))

/-- The path of the value. -/
def column : FilterTarget → ColumnPath
  | .vector => [Column.vector]
  | .metadata structs leaf => Column.metadata :: (structs ++ [leaf])
  | .root name => [name]

/-- The predicate that the flag at a path has the given value. -/
def flagIs (path : ColumnPath) (b : Bool) : Predicate := .compare path .eq (.bool b)

/-- The path of the flag of an embedding. -/
def vectorFlag : ColumnPath := [Column.flags, Column.vector]

/-- The path of the flag of a metadata field. -/
def metadataFlag (structs : List String) (leaf : String) : ColumnPath :=
  Column.metadata :: (structs ++ [Column.flags, leaf])

/-- The predicate that the field is there. -/
def presence (target : FilterTarget) : Predicate :=
  match target with
  | .vector => flagIs vectorFlag false
  | .metadata structs leaf =>
    .and [flagIs (metadataFlag structs leaf) false, .isNotNull target.column]
  | .root _ => .isNotNull target.column

/-- The predicate that the field is not there. -/
def absence (target : FilterTarget) : Predicate :=
  match target with
  | .vector => flagIs vectorFlag true
  | .metadata structs leaf =>
    .or [flagIs (metadataFlag structs leaf) true, .isNull target.column]
  | .root _ => .isNull target.column

end FilterTarget

namespace Comparator

/-- The relation of a comparator that takes a single value. -/
def relation : Comparator → Except Error Relation
  | .eq => .ok .eq
  | .notEq => .ok .notEq
  | .greater => .ok .greater
  | .greaterEq => .ok .greaterEq
  | .less => .ok .less
  | .lessEq => .ok .lessEq
  | comparator => .error (.filter (.notScalarOperator comparator.text))

end Comparator

namespace Operand

/-- The literal of an operand that is a single value. -/
def scalar (field : String) (comparator : Comparator) : Operand → Except Error Scalar
  | .bool b => .ok (.bool b)
  | .int n => .ok (.int n)
  | .float x =>
    if x.isFinite then .ok (.float x) else .error (.filter (.nonFiniteOperand field x))
  | .string s => .ok (.string s)
  | .timestamp t => .ok (.timestamp t.seconds)
  | .dataframe frame => .ok (.string frame.canonicalText)
  | operand => .error (.filter (.unsuitableOperand field operand.kind comparator.text))

/-- The literal of an operand for a comparison by order, where a text has to name an instant. -/
def orderedScalar (field : String) (comparator : Comparator) (operand : Operand) :
    Except Error Scalar := do
  match ← operand.scalar field comparator with
  | .string s =>
    let t ← Instant.ofText s (.filter (.dateExpected field comparator.text s))
    return .timestamp t.seconds
  | literal => return literal

/-- The literals of the members of a list operand, among which null is not allowed. -/
def members (field : String) (comparator : Comparator) :
    List Operand → Except Error (List Scalar)
  | [] => .ok []
  | operand :: rest =>
    if operand.isNull then .error (.filter (.nullMember field comparator.text))
    else do
      let literal ← operand.scalar field comparator
      return literal :: (← members field comparator rest)

end Operand

namespace Predicate

/-- The predicate that the field is there and has the given relation to a literal. -/
def gated (target : FilterTarget) (relation : Relation) (literal : Scalar) : Predicate :=
  allOf [target.presence, .compare target.column relation literal]

/-- The predicate that the field is there and equals one of some literals, or the predicate that
this is not so. -/
def membership (target : FilterTarget) (literals : List Scalar) (negated : Bool) : Predicate :=
  let test := Predicate.inList target.column literals negated
  if negated then anyOf [target.absence, test] else allOf [target.presence, test]

/-- The predicate of a comparison. -/
def ofComparison (field : String) (comparator : Comparator) (operand : Operand) :
    Except Error Predicate := do
  let target ← FilterTarget.parse field
  if target = .vector ∧ !operand.isNull then .error (.filter (.vectorComparison field))
  else
    match comparator with
    | .eq =>
      if operand.isNull then return target.absence
      else return gated target .eq (← operand.scalar field comparator)
    | .notEq =>
      if operand.isNull then return target.presence
      else return gated target .notEq (← operand.scalar field comparator)
    | .greater | .greaterEq | .less | .lessEq =>
      if operand.isNull then return .constant false
      else
        let literal ← operand.orderedScalar field comparator
        return gated target (← comparator.relation) literal
    | .isIn | .notIn =>
      let negated := comparator = .notIn
      match operand with
      | .list [] => return .constant negated
      | .list operands =>
        return membership target (← Operand.members field comparator operands) negated
      | operand => .error (.filter (.listExpected field comparator.text operand.kind))

mutual

/-- The predicate of a filter. -/
def ofFilter : Filter → Except Error Predicate
  | .comparison field comparator operand => ofComparison field comparator operand
  | .combination connective [] => .error (.filter (.noConditions connective.text))
  | .combination .and conditions => do return .and (← ofFilters conditions)
  | .combination .or conditions => do return .or (← ofFilters conditions)
  | .combination .not conditions => do return .not (.and (← ofFilters conditions))

/-- The predicates of several filters. -/
def ofFilters : List Filter → Except Error (List Predicate)
  | [] => .ok []
  | filter :: rest => do
    let predicate ← ofFilter filter
    return predicate :: (← ofFilters rest)

end

end Predicate

namespace Filter

/-- The SQL text of a filter. -/
def sql (filter : Filter) : Except Error String := do
  (← Predicate.ofFilter filter).sql

/-- The SQL text of the filter that a JSON value describes. -/
def sqlOfJson (value : Json) : Except Error String := do
  (← ofJson value).sql

end Filter

end DocumentStore
