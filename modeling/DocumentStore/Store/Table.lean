import DocumentStore.Batch.OfRows
import DocumentStore.Batch.ToRows
import DocumentStore.Document.OfRow
import DocumentStore.Predicate.OfFilter
import DocumentStore.Row.OfDocument
import DocumentStore.Store.Config

/-!
# Tables

A table holds the rows of its documents, keyed by id. Documents are written through a batch: the
ones that the duplicate policy selects replace the row with their id in its place or come last.
Rows are found and deleted by predicates.
-/

set_option autoImplicit false

namespace DocumentStore

/-- The batch that stores some documents. -/
def Batch.ofDocuments (schema : Schema) (documents : List Document) : Except Error Batch := do
  let rows ← documents.mapM fun document => document.toRow schema
  Batch.ofRows schema rows

/-- The documents that a batch stores. -/
def Batch.toDocuments (batch : Batch) (schema : Schema) : Except Error (List Document) := do
  let rows ← batch.toRows
  rows.mapM fun row => Document.ofRow row schema

/-- The id of the document that a row stores. -/
def Row.id? (row : Row) : Option String :=
  match row.get? Column.id with
  | some (.utf8 id) => some id
  | _ => none

/-- A stored table. -/
structure Table where
  schema : Schema
  policy : DuplicatePolicy
  rows : List Row

namespace Table

/-- The empty table of a store. -/
def ofConfig (config : StoreConfig) (stored : Option Schema) : Except Error Table := do
  let schema ← config.rootSchema stored
  schema.check
  return ⟨schema, config.policy, []⟩

/-- The ids of the stored documents. -/
def ids (table : Table) : List String := table.rows.filterMap Row.id?

/-- Puts a row in place of the one with its id, or last. -/
def upsert (row : Row) : List Row → List Row
  | [] => [row]
  | held :: rest =>
    if held.id? = row.id? then row :: rest else held :: upsert row rest

/-- Writes documents under the given policy. -/
def write (table : Table) (documents : List Document) (policy : DuplicatePolicy) :
    Except Error Table := do
  let selected ← policy.select documents table.ids
  let batch ← Batch.ofDocuments table.schema selected
  let rows ← batch.toRows
  return { table with rows := rows.foldl (fun held row => upsert row held) table.rows }

/-- The rows that a predicate selects. -/
def select (table : Table) (predicate : Predicate) : Except Error (List Row) :=
  table.rows.filterM predicate.selects

/-- Deletes the rows that a predicate selects. -/
def delete (table : Table) (predicate : Predicate) : Except Error Table := do
  let rows ← table.rows.filterM fun row => do return !(← predicate.selects row)
  return { table with rows := rows }

/-- The stored documents. -/
def documents (table : Table) : Except Error (List Document) :=
  table.rows.mapM fun row => Document.ofRow row table.schema

end Table

end DocumentStore
