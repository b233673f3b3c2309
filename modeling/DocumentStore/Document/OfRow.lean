import DocumentStore.Document.Basic
import DocumentStore.Schema.Table

/-!
# Documents of rows

A row is read back by its flags: what is flagged absent is left out whatever stands in its place,
what is flagged present is read, and a declared field without a flag makes the row unreadable.
Timestamps come back as texts. A score is taken from the columns that a search adds.
-/

set_option autoImplicit false

namespace DocumentStore

namespace Row

/-- Whether the member `name` of the record at `path` is there, by its flag. -/
def isPresent (record : Row) (name path : String) : Except Error Bool :=
  match record.flag? name with
  | some flag => .ok (!flag)
  | none => .error (.validation (.flagMissing path name))

/-- The value of a root column that is flagged present. -/
def presentColumn (row : Row) (name : String) : Except Error (Option Cell) :=
  match row.get? Column.flags with
  | none => .error (.validation .rootFlagsMissing)
  | some _ => do
    if ← row.isPresent name "<root>" then
      match row.get? name with
      | some value => .ok (some value)
      | none => .error (.validation (.rootColumnMissing name))
    else .ok none

end Row

namespace Cell

/-- The metadata value of a stored leaf. -/
def toMetaValue (path : String) : Cell → Except Error MetaValue
  | .null => .ok .null
  | .boolean b => .ok (.bool b)
  | .int32 n => .ok (.int n.toInt64)
  | .int64 n => .ok (.int n)
  | .float32 x => .ok (.ofBinary32 x)
  | .float64 x => .ok (.float x)
  | .utf8 s => .ok (.string s)
  | .binary b => .ok (.bytes b)
  | .timestamp seconds => do return .string (← Time.isoText seconds)
  | cell => .error (.validation (.scalarExpected path cell.kind))

/-- The error for a value of the wrong kind under `name`. -/
def unexpected (name expected : String) (found : Cell) : Error :=
  .validation (.storedKind name found.kind expected)

/-- The text of an optional text column. -/
def optionalText (name : String) : Option Cell → Except Error (Option String)
  | some (.utf8 s) => .ok (some s)
  | some .null => .ok none
  | some cell => .error (unexpected name "utf8" cell)
  | none => .ok none

end Cell

namespace Document

mutual

/-- The metadata entries of a stored struct at `path`, added to those found so far. -/
def entriesOf (record : Row) (path : String) :
    List (FieldOf DataType) → Metadata → Except Error Metadata
  | [], found => .ok found
  | ⟨name, type, _, _⟩ :: rest, found =>
    if name = Column.flags then entriesOf record path rest found
    else do
      if ← record.isPresent name path then
        let value ← valueOf (path ++ "." ++ name) (record.get? name) type
        entriesOf record path rest (found.insert name value)
      else entriesOf record path rest found

/-- The metadata value of a stored member of the given type. -/
def valueOf (path : String) (stored : Option Cell) : DataType → Except Error MetaValue
  | .struct fields =>
    match stored with
    | none => .error (.validation (.memberMissing path))
    | some (.struct record) => do
      return .map (← entriesOf record path fields Dict.empty)
    | some .null => .ok .null
    | some cell => .error (Cell.unexpected path "struct" cell)
  | _ =>
    match stored with
    | none => .error (.validation (.memberMissing path))
    | some cell => cell.toMetaValue path

end

/-- The document that a row of a table with the given schema stores. -/
def ofRow (row : Row) (schema : Schema) : Except Error Document := do
  let fields ← schema.metadataFields
  let id ←
    match row.get? Column.id with
    | some (.utf8 id) => Except.ok id
    | some cell => .error (Cell.unexpected Column.id "utf8" cell)
    | none => .error (.validation (.rootColumnMissing Column.id))
  let content ← Cell.optionalText Column.content (← row.presentColumn Column.content)
  let blob ←
    match ← row.presentColumn Column.blob with
    | some (.binary bytes) => Except.ok (some bytes)
    | some .null | none => .ok none
    | some cell => .error (Cell.unexpected Column.blob "binary" cell)
  let frameText ← Cell.optionalText Column.dataframe (← row.presentColumn Column.dataframe)
  let dataframe ← frameText.mapM DataFrame.ofCanonicalText
  let embedding ←
    match ← row.presentColumn Column.vector with
    | some (.vector values) => Except.ok (some values)
    | some .null | none => .ok none
    | some cell => .error (Cell.unexpected Column.vector "vector" cell)
  let metadata ←
    match ← row.presentColumn Column.metadata with
    | some (.struct record) => entriesOf record Column.metadata fields Dict.empty
    | some .null | none => .ok Dict.empty
    | some cell => .error (Cell.unexpected Column.metadata "struct" cell)
  let score := (row.get? Column.score).or (row.get? Column.distance)
  return ⟨id, content, embedding, dataframe, blob, metadata, score.bind Cell.number?⟩

end Document

end DocumentStore
