import DocumentStore.Predicate.Basic
import DocumentStore.Text.Doubled
import DocumentStore.Text.Pieces
import DocumentStore.Time.Instant

/-!
# SQL text of predicates

Names that are not plain identifiers stand between backticks, string literals between single
quotes, both with inner marks doubled. Floating-point literals have a point or an exponent, so none
reads as an integer. Groups always have parentheses, so nothing hangs on the precedence of
connectives.
-/

set_option autoImplicit false

namespace DocumentStore

namespace Sql

/-- Whether a character is a letter or an underscore of ASCII. -/
def isWordStart (c : Char) : Bool := c.isAlpha || c = '_'

/-- Whether a text is a plain identifier: ASCII letters, digits and underscores, no digit first. -/
def isPlain : List Char → Bool
  | [] => false
  | c :: rest => isWordStart c && rest.all fun d => isWordStart d || d.isDigit

/-- A name in SQL. -/
def identifier (name : List Char) : List Char :=
  if isPlain name then name else Text.enclosed '`' name

/-- The names of a path with points between them. -/
def path (segments : ColumnPath) : List Char :=
  Text.joined ['.'] (segments.map fun segment => identifier segment.toList)

/-- A string literal. -/
def string (s : String) : List Char := Text.enclosed '\'' s.toList

/-- A truth value. -/
def bool (b : Bool) : List Char := if b then "TRUE".toList else "FALSE".toList

/-- A floating-point literal, which has to be finite. -/
def float (x : Binary64) : Except Error (List Char) :=
  if x.isFinite then .ok (Decimal.Layout.sql.text x) else .error (.filter (.nonFinite x))

/-- A timestamp literal, which has to lie within the calendar. -/
def timestamp (seconds : Int64) : Except Error (List Char) := do
  let text ← Time.sqlText seconds
  return "TIMESTAMP '".toList ++ text.toList ++ ['\'']

end Sql

namespace Scalar

/-- The text of a literal. -/
def sql : Scalar → Except Error (List Char)
  | .bool b => .ok (Sql.bool b)
  | .int n => .ok (Decimal.integerText n.toInt)
  | .float x => Sql.float x
  | .string s => .ok (Sql.string s)
  | .timestamp seconds => Sql.timestamp seconds

end Scalar

namespace Predicate

/-- Whether a predicate is a conjunction or a disjunction. -/
def isGroup : Predicate → Bool
  | .and _ | .or _ => true
  | _ => false

/-- Members of a group between parentheses. -/
def grouped (connective : String) (parts : List (List Char)) : List Char :=
  '(' :: (Text.joined connective.toList parts ++ [')'])

mutual

/-- The characters of the SQL text of a predicate. -/
def sqlChars : Predicate → Except Error (List Char)
  | .constant b => .ok (Sql.bool b)
  | .and [] => .ok (Sql.bool true)
  | .or [] => .ok (Sql.bool false)
  | .and parts => do return grouped " AND " (← sqlParts parts)
  | .or parts => do return grouped " OR " (← sqlParts parts)
  | .not inner => do
    let text ← sqlChars inner
    if inner.isGroup then return "NOT ".toList ++ text
    else return "NOT (".toList ++ text ++ [')']
  | .isNull column => .ok (Sql.path column ++ " IS NULL".toList)
  | .isNotNull column => .ok (Sql.path column ++ " IS NOT NULL".toList)
  | .compare column relation value => do
    let text ← value.sql
    return Sql.path column ++ ' ' :: relation.text.toList ++ ' ' :: text
  | .inList column values negated =>
    if values.isEmpty then .error (.filter .emptyList)
    else do
      let texts ← values.mapM Scalar.sql
      let operator := if negated then " NOT IN (" else " IN ("
      return Sql.path column ++ operator.toList ++ Text.joined [',', ' '] texts ++ [')']

/-- The characters of the SQL texts of several predicates. -/
def sqlParts : List Predicate → Except Error (List (List Char))
  | [] => .ok []
  | part :: rest => do
    let text ← sqlChars part
    return text :: (← sqlParts rest)

end

/-- The SQL text of a predicate. -/
def sql (predicate : Predicate) : Except Error String :=
  predicate.sqlChars.map String.ofList

end Predicate

end DocumentStore
