import DocumentStore.Schema.Canonical

/-!
# Table schemas

A document table has the root flags, the document columns, a struct of canonical metadata and a
fixed-size vector. Properties of a schema are read by column name, so a schema whose columns come
in another order serves as well. A plan may leave out what a new table needs as long as there is a
stored table, whose schema then holds.
-/

set_option autoImplicit false

namespace DocumentStore

namespace Schema

/-- The schema of a new table for the given metadata fields and vector width. -/
def ofMetadata (metadata : List Field) (width : Int64) : Except Error Schema :=
  if width.toInt ≤ 0 then .error (.configuration (.widthNotPositive width))
  else if Int32.maxValue.toInt < width.toInt then .error (.configuration (.widthTooLarge width))
  else do
    let fields ← canonicalMetadata metadata
    let item : Field := .plain "item" .float32 true
    return ⟨[
      flagsField Column.flagged,
      .plain Column.blob .binary true,
      .plain Column.content .utf8 true,
      .plain Column.dataframe .utf8 true,
      .plain Column.id .utf8 false,
      .plain Column.metadata (.struct fields) false,
      .plain Column.vector (.fixedSizeList item (Int32.ofInt width.toInt)) false]⟩

/-- The width of the vector column. -/
def width (schema : Schema) : Except Error Nat :=
  match schema.column? Column.vector with
  | none => .error (.configuration (.missingColumn Column.vector))
  | some field =>
    match field.type with
    | .fixedSizeList item size =>
      if item.type = .float32 then
        if size.toInt < 0 then .error (.configuration (.invalidWidth size))
        else .ok size.toInt.toNat
      else .error (.configuration (.vectorType field.type))
    | type => .error (.configuration (.vectorType type))

/-- The fields of the metadata struct, its flags included. -/
def metadataFields (schema : Schema) : Except Error (List Field) :=
  match schema.column? Column.metadata with
  | none => .error (.configuration (.missingColumn Column.metadata))
  | some field =>
    match field.type with
    | .struct fields => .ok fields
    | type => .error (.configuration (.metadataType type))

/-- Checks that a schema has the columns that a document table relies on. -/
def check (schema : Schema) : Except Error Unit := do
  discard schema.width
  discard schema.metadataFields

end Schema

/-- What is declared about the schema of a table. -/
structure SchemaPlan where
  metadata : Option (List Field)
  width : Option Int64

namespace SchemaPlan

/-- The schema of a new table, for which everything has to be declared. -/
def build (plan : SchemaPlan) : Except Error Schema :=
  match plan.metadata, plan.width with
  | none, _ => .error (.configuration .metadataSchemaMissing)
  | some _, none => .error (.configuration .widthMissing)
  | some metadata, some width => Schema.ofMetadata metadata width

/-- The schema of the stored table, if there is one, otherwise that of a new table. -/
def resolve (plan : SchemaPlan) (stored : Option Schema) : Except Error Schema :=
  match stored with
  | some schema => do
    schema.check
    return schema
  | none => plan.build

end SchemaPlan

end DocumentStore
