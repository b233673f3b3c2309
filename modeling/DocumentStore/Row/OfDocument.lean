import DocumentStore.Document.Basic
import DocumentStore.Schema.Table

/-!
# Rows of documents

The row of a document has a value for every column of the schema and for every declared metadata
field. Where the document has none, a placeholder stands and the flag beside it is set: null where
the field allows it, otherwise the zero of its type, and for a struct all of its members as
placeholders. What the schema does not declare, and the score, leave no trace.
-/

set_option autoImplicit false

namespace DocumentStore

/-- A value to be stored, and whether it stands for something that is there. -/
structure Slot where
  value : Cell
  present : Bool

namespace Row

/-- The record of named slots, headed by the flags that tell which of them are absent. -/
def ofSlots (slots : List (String × Slot)) : Row :=
  let flags := Record.ofList (slots.map fun slot => (slot.1, Cell.boolean (!slot.2.present)))
  Record.ofList
    ((Column.flags, .struct flags) :: slots.map fun slot => (slot.1, slot.2.value))

end Row

namespace Cell

/-- The zero of a leaf type, which stands for an absent value that must not be null. -/
def zero (path : String) : DataType → Except Error Cell
  | .utf8 => .ok (.utf8 "")
  | .int32 => .ok (.int32 0)
  | .int64 => .ok (.int64 0)
  | .float32 => .ok (.float32 Floating.zero)
  | .float64 => .ok (.float64 Floating.zero)
  | .boolean => .ok (.boolean false)
  | .binary => .ok (.binary [])
  | .timestamp .second _ => .ok (.timestamp 0)
  | .fixedSizeList _ size => .ok (.vector (List.replicate size.toInt.toNat Floating.zero))
  | type => .error (.internal (.noZero path type))

/-- Stands for an absent leaf. -/
def leafPlaceholder (path : String) (type : DataType) (nullable : Bool) : Except Error Cell :=
  if nullable then .ok .null else zero path type

/-- Stores a metadata value in a leaf at `path`. Integers widen to floating-point types, and
timestamps are given as instants or as texts. -/
def ofMetaValue (path : String) (type : DataType) (nullable : Bool) (value : MetaValue) :
    Except Error Cell :=
  match type, value with
  | _, .null =>
    if nullable then .ok .null else .error (.validation (.notNullable path))
  | .utf8, .string s => .ok (.utf8 s)
  | .int32, .int n =>
    if Int32.minValue.toInt ≤ n.toInt ∧ n.toInt ≤ Int32.maxValue.toInt then
      .ok (.int32 (Int32.ofInt n.toInt))
    else .error (.validation (.outsideInt32 path n))
  | .int64, .int n => .ok (.int64 n)
  | .float32, .float x => .ok (.float32 (x.convert Floating.Format.binary32))
  | .float32, .int n => .ok (.float32 (Floating.ofInt n.toInt))
  | .float64, .float x => .ok (.float64 x)
  | .float64, .int n => .ok (.float64 (Floating.ofInt n.toInt))
  | .boolean, .bool b => .ok (.boolean b)
  | .binary, .bytes b => .ok (.binary b)
  | .timestamp .second _, .timestamp t => .ok (.timestamp t.seconds)
  | .timestamp .second _, .string s => do
    let t ← Instant.ofText s (.validation (.metadataTimestamp path s))
    return .timestamp t.seconds
  | type, value => .error (.validation (.unsuitableValue path type value.kind))

end Cell

namespace Document

mutual

/-- The slots of the declared fields of one metadata level, the flags left out. The level is absent
as a whole where there are no `entries`. -/
def fieldSlots (entries : Option Metadata) (path : String) :
    List (FieldOf DataType) → Except Error (List (String × Slot))
  | [] => .ok []
  | ⟨name, type, nullable, _⟩ :: rest =>
    if name = Column.flags then fieldSlots entries path rest
    else do
      let slot ←
        match entries.bind fun held => held.get? name with
        | some value => do
          pure (Slot.mk (← storedValue (path ++ "." ++ name) nullable value type) true)
        | none => do
          pure (Slot.mk (← placeholder (path ++ "." ++ name) nullable type) false)
      return (name, slot) :: (← fieldSlots entries path rest)

/-- The stored form of a metadata value in a field of the given type. -/
def storedValue (path : String) (nullable : Bool) (value : MetaValue) :
    DataType → Except Error Cell
  | .struct fields =>
    match value with
    | .map entries => do
      let slots ← fieldSlots (some entries) path fields
      return .struct (Row.ofSlots slots)
    | .null => if nullable then .ok .null else .error (.validation (.notNullable path))
    | value => .error (.validation (.structExpected path value.kind))
  | type => Cell.ofMetaValue path type nullable value

/-- Stands for an absent field of the given type: for a struct, all of its members. -/
def placeholder (path : String) (nullable : Bool) : DataType → Except Error Cell
  | .struct fields => do
    let slots ← fieldSlots none path fields
    return .struct (Row.ofSlots slots)
  | type => Cell.leafPlaceholder path type nullable

end

/-- The slot of an optional document member in the column `field`. -/
def optionalSlot (field : Field) : Option Cell → Except Error Slot
  | some value => .ok ⟨value, true⟩
  | none => do return ⟨← Cell.leafPlaceholder field.name field.type field.nullable, false⟩

/-- The slot of the embedding, which must have the width of the schema. -/
def vectorSlot (document : Document) (width : Nat) : Except Error Slot :=
  match document.embedding with
  | some values =>
    if values.length = width then .ok ⟨.vector values, true⟩
    else .error (.validation (.embeddingLength document.id values.length width))
  | none => .ok ⟨.vector (List.replicate width Floating.zero), false⟩

/-- The slot of a root column. -/
def rootSlot (document : Document) (width : Nat) (metadata : List Field) (field : Field) :
    Except Error Slot :=
  if field.name = Column.id then .ok ⟨.utf8 document.id, true⟩
  else if field.name = Column.content then optionalSlot field (document.content.map .utf8)
  else if field.name = Column.blob then optionalSlot field (document.blob.map .binary)
  else if field.name = Column.dataframe then
    optionalSlot field (document.dataframe.map fun frame => .utf8 frame.canonicalText)
  else if field.name = Column.vector then document.vectorSlot width
  else if field.name = Column.metadata then do
    let slots ← fieldSlots (some document.metadata) Column.metadata metadata
    return ⟨.struct (Row.ofSlots slots), true⟩
  else .error (.configuration (.unexpectedColumn field.name))

/-- The row that stores a document in a table with the given schema. -/
def toRow (document : Document) (schema : Schema) : Except Error Row := do
  let width ← schema.width
  let metadata ← schema.metadataFields
  if document.id = "" then .error (.validation .emptyId)
  else do
    let columns := schema.fields.filter fun field => field.name ≠ Column.flags
    let slots ← columns.mapM fun field => do
      return (field.name, ← document.rootSlot width metadata field)
    return Row.ofSlots slots

end Document

end DocumentStore
