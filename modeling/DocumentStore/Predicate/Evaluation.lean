import DocumentStore.Predicate.Sql

/-!
# Evaluation of predicates

A predicate has one of three values on a row: true, false, or neither, which is written `none`. A
comparison has no value when the stored value is null, is not a number, or is of another type than
the literal, so a mismatch selects no row. Conjunctions and disjunctions are evaluated from left to
right up to the first part that decides them; an error before that is an error of the whole.
-/

set_option autoImplicit false

namespace DocumentStore

namespace Cell

/-- The order of a stored value that is not null to a literal. Integers are compared exactly, other
numbers in double precision, and a timestamp also with the instant that a text names. -/
def compareNonNull (cell : Cell) (literal : Scalar) : Except Error (Option Ordering) :=
  match cell, literal with
  | .int32 a, .int b => .ok (some (compare a.toInt b.toInt))
  | .int64 a, .int b => .ok (some (compare a.toInt b.toInt))
  | .float32 a, .int b =>
    .ok ((a.convert Floating.Format.binary64).compare? (Floating.ofInt b.toInt))
  | .float64 a, .int b => .ok (a.compare? (Floating.ofInt b.toInt))
  | .int32 a, .float b => .ok ((Floating.ofInt a.toInt).compare? b)
  | .int64 a, .float b => .ok ((Floating.ofInt a.toInt).compare? b)
  | .float32 a, .float b => .ok ((a.convert Floating.Format.binary64).compare? b)
  | .float64 a, .float b => .ok (a.compare? b)
  | .boolean a, .bool b => .ok (some (compare a b))
  | .utf8 a, .string b => .ok (some (compare a b))
  | .timestamp a, .timestamp b => .ok (some (compare a.toInt b.toInt))
  | .timestamp a, .string text => do
    let t ← Instant.ofText text (.filter (.notDate text))
    return some (compare a.toInt t.seconds.toInt)
  | _, _ => .ok none

/-- The order of a stored value to a literal, if they have one. -/
def compareTo (cell : Cell) (literal : Scalar) : Except Error (Option Ordering) :=
  if cell.isNull then .ok none else cell.compareNonNull literal

/-- Whether a stored value equals one of some literals; literals after the first equal one are not
looked at. -/
def isAmong (cell : Cell) : List Scalar → Except Error Bool
  | [] => .ok false
  | literal :: rest => do
    if (← cell.compareTo literal) = some .eq then .ok true else isAmong cell rest

end Cell

/-- The value under a column path, which has to lead somewhere. -/
def Row.valueAt (row : Row) (column : ColumnPath) : Except Error Cell :=
  match Row.path? row column with
  | some cell => .ok cell
  | none => .error (.filter (.unknownColumn (String.ofList (Sql.path column))))

namespace Predicate

mutual

/-- The value of a predicate on a row. -/
def evaluate (row : Row) : Predicate → Except Error (Option Bool)
  | .constant b => .ok (some b)
  | .and parts => evaluateAll row parts
  | .or parts => evaluateAny row parts
  | .not inner => do return (← evaluate row inner).map (! ·)
  | .isNull column => do return some (← row.valueAt column).isNull
  | .isNotNull column => do return some (!(← row.valueAt column).isNull)
  | .compare column relation value => do
    let stored ← row.valueAt column
    return (← stored.compareTo value).map relation.holds
  | .inList column values negated => do
    let stored ← row.valueAt column
    if stored.isNull then return none
    else return some ((← stored.isAmong values) != negated)

/-- The value of the conjunction of some predicates. -/
def evaluateAll (row : Row) : List Predicate → Except Error (Option Bool)
  | [] => .ok (some true)
  | part :: rest => do
    match ← evaluate row part with
    | some false => return some false
    | some true => evaluateAll row rest
    | none =>
      match ← evaluateAll row rest with
      | some false => return some false
      | _ => return none

/-- The value of the disjunction of some predicates. -/
def evaluateAny (row : Row) : List Predicate → Except Error (Option Bool)
  | [] => .ok (some false)
  | part :: rest => do
    match ← evaluate row part with
    | some true => return some true
    | some false => evaluateAny row rest
    | none =>
      match ← evaluateAny row rest with
      | some true => return some true
      | _ => return none

end

/-- Whether a predicate is true of a row. -/
def selects (predicate : Predicate) (row : Row) : Except Error Bool := do
  return (← predicate.evaluate row) = some true

end Predicate

end DocumentStore
