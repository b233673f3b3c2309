import DocumentStore.Dict
import DocumentStore.Decimal.Layout

/-!
# JSON values and their text

A JSON value is null, a truth value, a number, a string, a list, or an object. Numbers are whole
numbers of at most 64 bits or finite double-precision numbers; the two kinds stay apart, `1` and
`1.0` being different values. The text of a value is compact: no blanks, members in the given
order, and only quotes, backslashes and control characters escaped.
-/

set_option autoImplicit false

namespace DocumentStore

/-- A JSON number. -/
inductive Json.Number where
  /-- A whole number that fits 64 bits, with or without a sign. -/
  | integer (n : Int) (fits : -9223372036854775808 ≤ n ∧ n < 18446744073709551616)
  /-- A finite double-precision number. -/
  | float (x : Binary64) (finite : x.isFinite = true)
  deriving DecidableEq

/-- A JSON value. -/
inductive Json where
  | null
  | bool (b : Bool)
  | number (n : Json.Number)
  | string (s : String)
  | array (items : List Json)
  | object (members : List (String × Json))

namespace Json

/-- The object with the given members in ascending order of their names; of two members with one
name the later counts. -/
def ofMembers (members : List (String × Json)) : Json :=
  .object (Dict.ofList members).entries

/-- A signed 64-bit integer as a JSON number. -/
def ofInt64 (n : Int64) : Json :=
  .number (.integer n.toInt
    ⟨Int.le_trans (by decide) n.le_toInt, Int.lt_trans n.toInt_lt (by decide)⟩)

/-- The text of a number. -/
def Number.text : Number → List Char
  | .integer n _ => Decimal.integerText n
  | .float x _ => Decimal.Layout.json.text x

/-- The spelling of one character inside a string. -/
def charText (c : Char) : List Char :=
  match c with
  | '"' => ['\\', '"']
  | '\\' => ['\\', '\\']
  | '\x08' => ['\\', 'b']
  | '\x0c' => ['\\', 'f']
  | '\n' => ['\\', 'n']
  | '\r' => ['\\', 'r']
  | '\t' => ['\\', 't']
  | c =>
    if c.toNat < 0x20 then
      ['\\', 'u', '0', '0', Nat.digitChar (c.toNat / 16), Nat.digitChar (c.toNat % 16)]
    else [c]

/-- A string between quotes. -/
def stringText (s : String) : List Char :=
  '"' :: (s.toList.flatMap charText ++ ['"'])

mutual

/-- The characters of the text of a value. -/
def chars : Json → List Char
  | .null => "null".toList
  | .bool b => if b then "true".toList else "false".toList
  | .number n => n.text
  | .string s => stringText s
  | .array items => '[' :: (itemChars items ++ [']'])
  | .object members => '\x7b' :: (memberChars members ++ ['\x7d'])

/-- The characters of list items, commas between them. -/
def itemChars : List Json → List Char
  | [] => []
  | item :: rest =>
    item.chars ++ (match rest with | [] => [] | _ :: _ => ',' :: itemChars rest)

/-- The characters of object members, commas between them. -/
def memberChars : List (String × Json) → List Char
  | [] => []
  | (name, value) :: rest =>
    stringText name ++ ':' :: value.chars ++
      (match rest with | [] => [] | _ :: _ => ',' :: memberChars rest)

end

/-- The text of a value. -/
def text (value : Json) : String := String.ofList value.chars

/-- The member called `name` of an object. -/
def member? : Json → String → Option Json
  | .object members, name => members.lookup name
  | _, _ => none

mutual

/-- How many arrays and objects are nested in one another. -/
def depth : Json → Nat
  | .array items => itemDepth items + 1
  | .object members => memberDepth members + 1
  | _ => 0

/-- The greatest depth of some items. -/
def itemDepth : List Json → Nat
  | [] => 0
  | item :: rest => max item.depth (itemDepth rest)

/-- The greatest depth of some members. -/
def memberDepth : List (String × Json) → Nat
  | [] => 0
  | (_, value) :: rest => max value.depth (memberDepth rest)

end

/-- Whether two numbers are equal; whole numbers and floating-point numbers differ. -/
def Number.numericEq : Number → Number → Bool
  | .integer a _, .integer b _ => a = b
  | .float a _, .float b _ => a.numericEq b
  | _, _ => false

mutual

/-- Whether two values are equal, numbers by their value and objects by their listed members. -/
def numericEq : Json → Json → Bool
  | .null, .null => true
  | .bool a, .bool b => a = b
  | .number a, .number b => a.numericEq b
  | .string a, .string b => a = b
  | .array items, .array items' => itemsEq items items'
  | .object members, .object members' => membersEq members members'
  | _, _ => false

/-- Whether two lists of values are equal. -/
def itemsEq : List Json → List Json → Bool
  | [], [] => true
  | item :: rest, item' :: rest' => item.numericEq item' && itemsEq rest rest'
  | _, _ => false

/-- Whether two lists of members are equal. -/
def membersEq : List (String × Json) → List (String × Json) → Bool
  | [], [] => true
  | (name, value) :: rest, (name', value') :: rest' =>
    name = name' && value.numericEq value' && membersEq rest rest'
  | _, _ => false

end

/-- Why a text cannot be read: it breaks a rule of JSON, it stops too early, or its value is not
of the wanted kind. -/
inductive Failure where
  | malformed
  | ended
  | unsuitable
  deriving DecidableEq

end Json

end DocumentStore
