import DocumentStore.Floating.Basic
import DocumentStore.Record

/-!
# Rows

A row is what is stored for a document: a record of cells in which every declared column has a
value. Absence shows in the flags that stand beside the members of a record, one for each of them,
and not in the values.
-/

set_option autoImplicit false

namespace DocumentStore

namespace Column

/-- The key of a row. -/
def id : String := "id"
/-- The embedding. -/
def vector : String := "vector"
/-- The text of a document. -/
def content : String := "content"
/-- The stored text of a data frame. -/
def dataframe : String := "dataframe"
/-- The bytes of a document. -/
def blob : String := "blob"
/-- The struct of declared metadata. -/
def metadata : String := "meta"
/-- The flags of a record, one for each other member: whether it is absent. -/
def flags : String := "_isempty"
/-- The distance that a vector search adds. -/
def distance : String := "_distance"
/-- The relevance that a text search adds. -/
def score : String := "score"
/-- The name of the vector column in filters. -/
def embedding : String := "embedding"

/-- The root columns in the order in which the root flags list them. -/
def flagged : List String := [blob, content, dataframe, id, metadata, vector]

end Column

/-- A stored value. -/
inductive Cell where
  | null
  | boolean (b : Bool)
  | int32 (n : Int32)
  | int64 (n : Int64)
  | float32 (x : Binary32)
  | float64 (x : Binary64)
  | utf8 (s : String)
  | binary (b : List UInt8)
  /-- Whole seconds since the beginning of 1970. -/
  | timestamp (seconds : Int64)
  | vector (values : List Binary32)
  | struct (members : Record Cell)

/-- A stored record. -/
abbrev Row := Record Cell

namespace Cell

/-- Whether the value is null. -/
def isNull : Cell → Bool
  | .null => true
  | _ => false

/-- The label of the kind of a value in messages. -/
def kind : Cell → String
  | .null => "null"
  | .boolean _ => "boolean"
  | .int32 _ => "int32"
  | .int64 _ => "int64"
  | .float32 _ => "float32"
  | .float64 _ => "float64"
  | .utf8 _ => "utf8"
  | .binary _ => "binary"
  | .timestamp _ => "timestamp[s]"
  | .vector _ => "vector"
  | .struct _ => "struct"

/-- The members of a struct. -/
def members? : Cell → Option Row
  | .struct members => some members
  | _ => none

/-- The truth value of a boolean. -/
def bool? : Cell → Option Bool
  | .boolean b => some b
  | _ => none

/-- The integer that an integer value is. -/
def integer? : Cell → Option Int
  | .int32 n => some n.toInt
  | .int64 n => some n.toInt
  | _ => none

/-- The double-precision number nearest to a numeric value. -/
def number? : Cell → Option Binary64
  | .int32 n => some (Floating.ofInt n.toInt)
  | .int64 n => some (Floating.ofInt n.toInt)
  | .float32 x => some (x.convert Floating.Format.binary64)
  | .float64 x => some x
  | _ => none

/-- The value under a path of member names. Below a null every path leads to null; below any other
value that is not a struct no path leads anywhere. -/
def path? : Cell → List String → Option Cell
  | cell, [] => some cell
  | .struct members, name :: rest =>
    match members.get? name with
    | some cell => cell.path? rest
    | none => none
  | .null, _ :: _ => some .null
  | _, _ :: _ => none

end Cell

namespace Row

/-- The value under a path of at least one name. -/
def path? (row : Row) : List String → Option Cell
  | [] => none
  | name :: rest =>
    match row.get? name with
    | some cell => cell.path? rest
    | none => none

/-- Whether the member `name` is flagged absent, if there is a flag for it. -/
def flag? (row : Row) (name : String) : Option Bool := do
  let flags ← row.get? Column.flags
  let members ← flags.members?
  let flag ← members.get? name
  flag.bool?

end Row

end DocumentStore
