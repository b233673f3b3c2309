import DocumentStore.Schema.Description
import DocumentStore.Schema.Table
import DocumentStore.Store.DuplicatePolicy

/-!
# Store descriptions

A store is described by a database, the name of a table, what a new table needs, and a duplicate
policy. The description is written as JSON and read back from it. The schema of a table that is
already stored takes precedence over what the description declares.
-/

set_option autoImplicit false

namespace DocumentStore

/-- The description of a store. -/
structure StoreConfig where
  database : String
  tableName : String
  metadataSchema : Option SchemaDescription
  width : Option Int64
  policy : DuplicatePolicy
  deriving DecidableEq

namespace StoreConfig

/-- The JSON form of a store description. -/
def toJson (config : StoreConfig) : Json :=
  .object
    [("database", .string config.database),
      ("table_name", .string config.tableName),
      ("metadata_schema", (config.metadataSchema.map SchemaDescription.toJson).getD .null),
      ("embedding_dims", (config.width.map Json.ofInt64).getD .null),
      ("duplicate_policy", .string config.policy.text)]

/-- The JSON text of a store description. -/
def text (config : StoreConfig) : String := config.toJson.text

/-- How the members of a store description are read, with `room` containers to be nested in it. -/
def shape (room : Nat) : Json.Shape StoreConfig where
  names := ["database", "table_name", "metadata_schema", "embedding_dims", "duplicate_policy"]
  optional := ["metadata_schema", "embedding_dims", "duplicate_policy"]
  put name tree config :=
    match name with
    | "database" => do return { config with database := ← tree.readString }
    | "table_name" => do return { config with tableName := ← tree.readString }
    | "metadata_schema" => do
      let schema ← tree.readOptional (SchemaDescription.ofTree room)
      return { config with metadataSchema := schema }
    | "embedding_dims" => do
      return { config with width := ← tree.readOptional Json.Tree.readInt64 }
    | _ => do return { config with policy := ← DuplicatePolicy.ofTree room tree }

/-- Reads a store description in which `room` containers may be nested in one another. -/
def ofTree (room : Nat) (tree : Json.Tree) : Except Json.Failure StoreConfig :=
  (shape (room - 1)).read room ⟨"", "", none, none, .unset⟩ tree

/-- Reads the JSON text of a store description, in which the table has to have a name. -/
def parse (text : String) : Except Error StoreConfig :=
  match Json.readText ofTree text with
  | .ok config =>
    if config.tableName = "" then .error (.configuration .emptyTableName) else .ok config
  | .error failure => .error (.json failure)

/-- What the store description declares about the schema of its table. -/
def plan (config : StoreConfig) : Except Error SchemaPlan := do
  let metadata ← config.metadataSchema.mapM SchemaDescription.toFields
  return ⟨metadata, config.width⟩

/-- The schema of the table: that of the stored table, if there is one. -/
def rootSchema (config : StoreConfig) (stored : Option Schema) : Except Error Schema := do
  (← config.plan).resolve stored

end StoreConfig

end DocumentStore
