import DocumentStore.DataFrame
import DocumentStore.Time.Instant

/-!
# Filters

A filter compares a field with a value, or joins other filters: all of them, any of them, or not
all of them. Filters are written as JSON; a node with a `field` member is a comparison and any other
object is a combination.
-/

set_option autoImplicit false

namespace DocumentStore

/-- How a comparison relates a field to its operand. -/
inductive Comparator where
  | eq
  | notEq
  | greater
  | greaterEq
  | less
  | lessEq
  | isIn
  | notIn
  deriving DecidableEq

namespace Comparator

/-- All comparators with their spellings. -/
def spellings : List (String × Comparator) :=
  [("==", .eq), ("!=", .notEq), (">", .greater), (">=", .greaterEq), ("<", .less),
    ("<=", .lessEq), ("in", .isIn), ("not in", .notIn)]

/-- The spelling of a comparator. -/
def text : Comparator → String
  | .eq => "=="
  | .notEq => "!="
  | .greater => ">"
  | .greaterEq => ">="
  | .less => "<"
  | .lessEq => "<="
  | .isIn => "in"
  | .notIn => "not in"

/-- The comparator with a spelling. -/
def parse (text : String) : Except Error Comparator :=
  match spellings.lookup text with
  | some comparator => .ok comparator
  | none => .error (.filter (.unknownComparison text))

/-- Reading a spelling gives the comparator back. -/
theorem parse_text (comparator : Comparator) : parse comparator.text = .ok comparator := by
  cases comparator <;> rfl

/-- Whether a comparator asks for an order. -/
def isOrdering : Comparator → Bool
  | .greater | .greaterEq | .less | .lessEq => true
  | _ => false

end Comparator

/-- How a combination joins its conditions; `not` denies that all of them hold. -/
inductive Connective where
  | and
  | or
  | not
  deriving DecidableEq

namespace Connective

/-- The spelling of a connective. -/
def text : Connective → String
  | .and => "AND"
  | .or => "OR"
  | .not => "NOT"

/-- The connective with a spelling. -/
def parse : String → Except Error Connective
  | "AND" => .ok .and
  | "OR" => .ok .or
  | "NOT" => .ok .not
  | text => .error (.filter (.unknownConnective text))

/-- Reading a spelling gives the connective back. -/
theorem parse_text (connective : Connective) : parse connective.text = .ok connective := by
  cases connective <;> rfl

end Connective

/-- The value that a field is compared with. -/
inductive Operand where
  | null
  | bool (b : Bool)
  | int (n : Int64)
  | float (x : Binary64)
  | string (s : String)
  | timestamp (t : Instant)
  /-- Compared by its stored text. -/
  | dataframe (frame : DataFrame)
  | list (items : List Operand)
  | map (entries : Dict Operand)

namespace Operand

/-- The label of the kind of an operand in messages. -/
def kind : Operand → String
  | .null => "null"
  | .bool _ => "bool"
  | .int _ => "int"
  | .float _ => "float"
  | .string _ => "string"
  | .timestamp _ => "timestamp"
  | .dataframe _ => "dataframe"
  | .list _ => "list"
  | .map _ => "mapping"

/-- Whether the operand is null. -/
def isNull : Operand → Bool
  | .null => true
  | _ => false

/-- A single-precision number as an operand. -/
def ofBinary32 (x : Binary32) : Operand := .float (x.convert Floating.Format.binary64)

/-- Texts as a list operand. -/
def ofStrings (texts : List String) : Operand := .list (texts.map .string)

/-- An optional integer as an operand. -/
def ofOption : Option Int64 → Operand
  | some n => .int n
  | none => .null

mutual

/-- The operand that a JSON value stands for. Whole numbers beyond signed 64-bit integers become
floating-point numbers. -/
def ofJson : Json → Operand
  | .null => .null
  | .bool b => .bool b
  | .number (.integer n _) =>
    if n ≤ Int64.maxValue.toInt then .int (Int64.ofInt n) else .float (Floating.ofInt n)
  | .number (.float x _) => .float x
  | .string s => .string s
  | .array items => .list (ofItems items)
  | .object members => .map ⟨ofMembers members⟩

/-- The operands that JSON values stand for. -/
def ofItems : List Json → List Operand
  | [] => []
  | item :: rest => ofJson item :: ofItems rest

/-- The named operands that the members of an object stand for. -/
def ofMembers : List (String × Json) → List (String × Operand)
  | [] => []
  | (name, value) :: rest => (name, ofJson value) :: ofMembers rest

end

end Operand

/-- A filter. -/
inductive Filter where
  | comparison (field : String) (comparator : Comparator) (operand : Operand)
  | combination (connective : Connective) (conditions : List Filter)

end DocumentStore
