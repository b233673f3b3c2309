import DocumentStore.Dict
import DocumentStore.Decimal.Layout
import DocumentStore.Text.Escaped

/-!
# Column types

A column type is a leaf type, a fixed-size list of items, a list of items, or a struct of fields;
fields carry a name, a type, whether they may hold nulls, and free text annotations. The text of a
type is how messages name it: structs list their members, lists describe their item in full.
-/

set_option autoImplicit false

namespace DocumentStore

/-- A named column of type `τ`. -/
structure FieldOf (τ : Type) where
  name : String
  type : τ
  nullable : Bool
  annotations : Dict String

/-- The resolution of a timestamp column. -/
inductive TimeUnit where
  | second
  | millisecond
  deriving DecidableEq

/-- A column type. -/
inductive DataType where
  | null
  | boolean
  | int16
  | int32
  | int64
  | uint32
  | float32
  | float64
  | utf8
  | largeUtf8
  | binary
  | largeBinary
  | date32
  | timestamp (unit : TimeUnit) (zone : Option String)
  | list (item : FieldOf DataType)
  | fixedSizeList (item : FieldOf DataType) (size : Int32)
  | struct (fields : List (FieldOf DataType))

/-- A named column. -/
abbrev Field := FieldOf DataType

mutual

/-- Whether two types are the same, members in the same order. -/
def DataType.same : DataType → DataType → Bool
  | .null, .null => true
  | .boolean, .boolean => true
  | .int16, .int16 => true
  | .int32, .int32 => true
  | .int64, .int64 => true
  | .uint32, .uint32 => true
  | .float32, .float32 => true
  | .float64, .float64 => true
  | .utf8, .utf8 => true
  | .largeUtf8, .largeUtf8 => true
  | .binary, .binary => true
  | .largeBinary, .largeBinary => true
  | .date32, .date32 => true
  | .timestamp unit zone, .timestamp unit' zone' => unit = unit' && zone = zone'
  | .list item, .list item' => Field.same item item'
  | .fixedSizeList item size, .fixedSizeList item' size' => size = size' && Field.same item item'
  | .struct fields, .struct fields' => Field.allSame fields fields'
  | _, _ => false

/-- Whether two fields agree in name, type, nullability and annotations. -/
def Field.same : FieldOf DataType → FieldOf DataType → Bool
  | ⟨name, type, nullable, annotations⟩, field =>
    name = field.name && type.same field.type && nullable = field.nullable &&
      annotations = field.annotations

/-- Whether two field lists agree position by position. -/
def Field.allSame : List (FieldOf DataType) → List (FieldOf DataType) → Bool
  | [], [] => true
  | field :: rest, field' :: rest' => Field.same field field' && Field.allSame rest rest'
  | _, _ => false

end

mutual

/-- Two types are found the same exactly when they are equal. -/
theorem DataType.same_iff : ∀ s t : DataType, s.same t = true ↔ s = t
  | .struct fields, t => by cases t <;> simp [DataType.same, Field.allSame_iff fields]
  | .fixedSizeList item size, t => by
    cases t <;> simp [DataType.same, Field.same_iff item, and_comm]
  | .list item, t => by cases t <;> simp [DataType.same, Field.same_iff item]
  | .timestamp unit zone, t => by cases t <;> simp [DataType.same]
  | .null, t | .boolean, t | .int16, t | .int32, t | .int64, t | .uint32, t | .float32, t
  | .float64, t | .utf8, t | .largeUtf8, t | .binary, t | .largeBinary, t | .date32, t => by
    cases t <;> simp [DataType.same]

/-- The test of two fields decides equality, with that of their types. -/
theorem Field.same_iff : ∀ f g : FieldOf DataType, Field.same f g = true ↔ f = g
  | ⟨name, type, nullable, annotations⟩, ⟨name', type', nullable', annotations'⟩ => by
    simp [Field.same, DataType.same_iff type, and_assoc]

/-- The test of two lists of fields decides equality. -/
theorem Field.allSame_iff :
    ∀ fs gs : List (FieldOf DataType), Field.allSame fs gs = true ↔ fs = gs
  | [], gs => by cases gs <;> simp [Field.allSame]
  | f :: fs, [] => by simp [Field.allSame]
  | f :: fs, g :: gs => by simp [Field.allSame, Field.same_iff f, Field.allSame_iff fs]

end

instance : DecidableEq DataType := fun s t => decidable_of_iff _ (DataType.same_iff s t)

instance : DecidableEq Field := fun f g => decidable_of_iff _ (Field.same_iff f g)

/-- The text of a resolution. -/
def TimeUnit.text : TimeUnit → String
  | .second => "Second"
  | .millisecond => "Millisecond"

/-- The text of a truth value in a type description. -/
def flagText (b : Bool) : String := if b then "true" else "false"

/-- The text of annotations: quoted names and values between braces. -/
def annotationsText (annotations : Dict String) : String :=
  let entry (e : String × String) := Text.escaped e.1 ++ ": " ++ Text.escaped e.2
  "\x7b" ++ ", ".intercalate (annotations.entries.map entry) ++ "\x7d"

mutual

/-- The text that names a type in messages. -/
def DataType.text : DataType → String
  | .null => "Null"
  | .boolean => "Boolean"
  | .int16 => "Int16"
  | .int32 => "Int32"
  | .int64 => "Int64"
  | .uint32 => "UInt32"
  | .float32 => "Float32"
  | .float64 => "Float64"
  | .utf8 => "Utf8"
  | .largeUtf8 => "LargeUtf8"
  | .binary => "Binary"
  | .largeBinary => "LargeBinary"
  | .date32 => "Date32"
  | .timestamp unit none => "Timestamp(" ++ unit.text ++ ", None)"
  | .timestamp unit (some zone) =>
    "Timestamp(" ++ unit.text ++ ", Some(" ++ Text.escaped zone ++ "))"
  | .list item => "List(" ++ Field.itemText item ++ ")"
  | .fixedSizeList item size =>
    "FixedSizeList(" ++ Field.itemText item ++ ", " ++ toString size.toInt ++ ")"
  | .struct fields => "Struct(" ++ ", ".intercalate (Field.memberTexts fields) ++ ")"

/-- The full description of a list item. -/
def Field.itemText : FieldOf DataType → String
  | ⟨name, type, nullable, annotations⟩ =>
    "Field \x7b name: " ++ Text.escaped name ++ ", data_type: " ++ type.text ++
      ", nullable: " ++ flagText nullable ++
      ", dict_id: 0, dict_is_ordered: false, metadata: " ++ annotationsText annotations ++ " \x7d"

/-- The name and type of each member of a struct. -/
def Field.memberTexts : List (FieldOf DataType) → List String
  | [] => []
  | ⟨name, type, _, _⟩ :: rest => (name ++ " " ++ type.text) :: Field.memberTexts rest

end

/-- A field without annotations. -/
def FieldOf.plain (name : String) (type : DataType) (nullable : Bool) : Field :=
  ⟨name, type, nullable, Dict.empty⟩

/-- The fields of a struct type; leaves have none. -/
def DataType.members? : DataType → Option (List Field)
  | .struct fields => some fields
  | _ => none

/-- A table schema: the root columns in order. -/
structure Schema where
  fields : List Field

/-- The first column called `name`. -/
def Schema.column? (schema : Schema) (name : String) : Option Field :=
  schema.fields.find? fun field => field.name = name

end DocumentStore
