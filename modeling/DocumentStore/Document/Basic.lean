import DocumentStore.DataFrame
import DocumentStore.Time.Instant

/-!
# Documents

A document is what callers write and read: an id, and optionally content, an embedding, a data
frame, bytes, metadata and a score. A missing metadata key is an absent value; a key with a null is
a declared null, which is something else.
-/

set_option autoImplicit false

namespace DocumentStore

/-- A metadata value. -/
inductive MetaValue where
  | null
  | bool (b : Bool)
  | int (n : Int64)
  | float (x : Binary64)
  | string (s : String)
  | timestamp (t : Instant)
  | bytes (b : List UInt8)
  | map (entries : Dict MetaValue)

/-- Metadata entries by key. -/
abbrev Metadata := Dict MetaValue

namespace MetaValue

/-- The label of the kind of a value in messages. -/
def kind : MetaValue → String
  | .null => "null"
  | .bool _ => "bool"
  | .int _ => "int"
  | .float _ => "float"
  | .string _ => "string"
  | .timestamp _ => "timestamp"
  | .bytes _ => "bytes"
  | .map _ => "map"

/-- The entries of a map. -/
def entries? : MetaValue → Option Metadata
  | .map entries => some entries
  | _ => none

/-- A single-precision number as a metadata value. -/
def ofBinary32 (x : Binary32) : MetaValue := .float (x.convert Floating.Format.binary64)

mutual

/-- Whether two values are equal, numbers compared by value. -/
def numericEq : MetaValue → MetaValue → Bool
  | .null, .null => true
  | .bool a, .bool b => a = b
  | .int a, .int b => a = b
  | .float a, .float b => a.numericEq b
  | .string a, .string b => a = b
  | .timestamp a, .timestamp b => a = b
  | .bytes a, .bytes b => a = b
  | .map ⟨a⟩, .map ⟨b⟩ => entriesEq a b
  | _, _ => false

/-- Whether two entry lists are equal. -/
def entriesEq : List (String × MetaValue) → List (String × MetaValue) → Bool
  | [], [] => true
  | (key, value) :: rest, (key', value') :: rest' =>
    key = key' && value.numericEq value' && entriesEq rest rest'
  | _, _ => false

end

end MetaValue

/-- A document. Only the id is required; a score comes with search results and is not stored. -/
structure Document where
  id : String
  content : Option String
  embedding : Option (List Binary32)
  dataframe : Option DataFrame
  blob : Option (List UInt8)
  metadata : Metadata
  score : Option Binary64

namespace Document

/-- The document with the given id and nothing else. -/
def ofId (id : String) : Document := ⟨id, none, none, none, none, Dict.empty, none⟩

/-- The document without its score. -/
def withoutScore (document : Document) : Document := { document with score := none }

/-- Whether two optional values are both missing or both there and related by `eq`. -/
def optionEq {α : Type} (eq : α → α → Bool) : Option α → Option α → Bool
  | none, none => true
  | some a, some b => eq a b
  | _, _ => false

/-- Whether two lists are equally long and related by `eq` position by position. -/
def listEq {α : Type} (eq : α → α → Bool) : List α → List α → Bool
  | [], [] => true
  | a :: rest, b :: rest' => eq a b && listEq eq rest rest'
  | _, _ => false

/-- Whether two documents are equal, numbers compared by value: a document that holds a datum which
is not a number is not equal to itself. -/
def numericEq (a b : Document) : Bool :=
  a.id = b.id && a.content = b.content &&
    optionEq (listEq Floating.numericEq) a.embedding b.embedding &&
    optionEq DataFrame.numericEq a.dataframe b.dataframe &&
    a.blob = b.blob && MetaValue.entriesEq a.metadata.entries b.metadata.entries &&
    optionEq Floating.numericEq a.score b.score

end Document

end DocumentStore
