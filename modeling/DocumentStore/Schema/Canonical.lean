import DocumentStore.Error
import DocumentStore.Row.Basic

/-!
# Canonical metadata fields

Every struct level of declared metadata is sorted by name and headed by a struct of flags, one
boolean for each of its fields in the same order. The result does not depend on the order in which
fields were declared.
-/

set_option autoImplicit false

namespace DocumentStore

namespace DataType

/-- Whether metadata may be declared with this leaf type. Timestamps are stored in seconds of
universal time, so one with a zone is not accepted. -/
def isMetadataLeaf : DataType → Bool
  | .utf8 | .int32 | .int64 | .float32 | .float64 | .boolean | .binary => true
  | .timestamp .second none => true
  | _ => false

end DataType

namespace Schema

/-- Puts a field before the first one with a greater name. -/
def insertByName (field : Field) : List Field → List Field
  | [] => [field]
  | next :: rest =>
    if field.name < next.name then field :: next :: rest else next :: insertByName field rest

/-- The fields in ascending order of their names. -/
def sortByName (fields : List Field) : List Field :=
  fields.foldr insertByName []

/-- The struct of flags for members of the given names. -/
def flagsField (names : List String) : Field :=
  .plain Column.flags (.struct (names.map fun name => .plain name .boolean false)) false

/-- A level of canonical fields: the flags, and then the fields sorted by name. -/
def canonicalLevel (fields : List Field) : List Field :=
  let sorted := sortByName fields
  flagsField (sorted.map FieldOf.name) :: sorted

mutual

/-- The canonical form of the type of the field at `path`. -/
def canonicalType (path : String) : DataType → Except Error DataType
  | .struct fields => do
    let children ← canonicalFields path [] fields
    return .struct (canonicalLevel children)
  | type =>
    if type.isMetadataLeaf then .ok type
    else .error (.configuration (.unsupportedMetadataType type path))

/-- The fields at `path` with canonical types, in declared order. Names must not be reserved, empty
or among those `seen` before. -/
def canonicalFields (path : String) (seen : List String) :
    List (FieldOf DataType) → Except Error (List (FieldOf DataType))
  | [] => .ok []
  | ⟨name, type, nullable, annotations⟩ :: rest =>
    if name = Column.flags then .error (.configuration (.reservedName path))
    else if name = "" then .error (.configuration (.emptyName path))
    else if name ∈ seen then .error (.configuration (.duplicateName name path))
    else do
      let canonical ← canonicalType (path ++ "." ++ name) type
      let others ← canonicalFields path (name :: seen) rest
      return ⟨name, canonical, nullable, annotations⟩ :: others

end

/-- The canonical form of declared metadata fields. -/
def canonicalMetadata (fields : List Field) : Except Error (List Field) := do
  let children ← canonicalFields Column.metadata [] fields
  return canonicalLevel children

end Schema

end DocumentStore
