import DocumentStore.Row.Basic

/-!
# Predicates

A predicate is a condition on a stored row: a constant, a conjunction, a disjunction, a negation,
or a test of the value under a column path. It can be written as SQL and it can be evaluated; both
treat the empty conjunction as true and the empty disjunction as false.
-/

set_option autoImplicit false

namespace DocumentStore

/-- The member names that lead to a value in a row. -/
abbrev ColumnPath := List String

/-- How a value and a literal are related. -/
inductive Relation where
  | eq
  | notEq
  | less
  | lessEq
  | greater
  | greaterEq
  deriving DecidableEq

namespace Relation

/-- The spelling of a relation in SQL. -/
def text : Relation → String
  | .eq => "="
  | .notEq => "!="
  | .less => "<"
  | .lessEq => "<="
  | .greater => ">"
  | .greaterEq => ">="

/-- Whether the relation holds between two values in the given order. -/
def holds : Relation → Ordering → Bool
  | .eq, ordering => ordering = .eq
  | .notEq, ordering => ordering ≠ .eq
  | .less, ordering => ordering = .lt
  | .lessEq, ordering => ordering ≠ .gt
  | .greater, ordering => ordering = .gt
  | .greaterEq, ordering => ordering ≠ .lt

end Relation

/-- A literal. -/
inductive Scalar where
  | bool (b : Bool)
  | int (n : Int64)
  | float (x : Binary64)
  | string (s : String)
  /-- Whole seconds since the beginning of 1970. -/
  | timestamp (seconds : Int64)
  deriving DecidableEq

/-- A condition on a row. -/
inductive Predicate where
  | constant (b : Bool)
  | and (parts : List Predicate)
  | or (parts : List Predicate)
  | not (inner : Predicate)
  | isNull (column : ColumnPath)
  | isNotNull (column : ColumnPath)
  | compare (column : ColumnPath) (relation : Relation) (value : Scalar)
  /-- Membership in a list, or its opposite. -/
  | inList (column : ColumnPath) (values : List Scalar) (negated : Bool)

namespace Predicate

/-- The members of a conjunction, or the predicate itself. -/
def conjuncts : Predicate → List Predicate
  | .and parts => parts
  | part => [part]

/-- The members of a disjunction, or the predicate itself. -/
def disjuncts : Predicate → List Predicate
  | .or parts => parts
  | part => [part]

/-- The conjunction of the given predicates, conjunctions among them being taken apart. -/
def allOf (parts : List Predicate) : Predicate := .and (parts.flatMap conjuncts)

/-- The disjunction of the given predicates, disjunctions among them being taken apart. -/
def anyOf (parts : List Predicate) : Predicate := .or (parts.flatMap disjuncts)

/-- Selects the rows with one of the given ids; without ids it selects none. -/
def forIds (ids : List String) : Predicate :=
  if ids.isEmpty then .constant false else .inList [Column.id] (ids.map .string) false

end Predicate

end DocumentStore
