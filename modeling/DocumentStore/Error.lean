import DocumentStore.DataType
import DocumentStore.Json.Basic

/-!
# Errors

Every operation of the library that can fail does so with a cause of one of these kinds. A
configuration error lies in the description of a store or in a table schema, a validation error in
a document or a row, a filter error in a filter or a predicate. A cause holds what its message
mentions; `Error.message` is the only place where messages are worded.
-/

set_option autoImplicit false

namespace DocumentStore

/-- What is wrong with a store description or a table schema. -/
inductive ConfigurationError where
  | widthNotPositive (width : Int64)
  | widthTooLarge (width : Int64)
  | metadataSchemaMissing
  | widthMissing
  | reservedName (path : String)
  | emptyName (path : String)
  | duplicateName (name path : String)
  | unsupportedMetadataType (type : DataType) (path : String)
  | missingColumn (name : String)
  | invalidWidth (size : Int32)
  | vectorType (type : DataType)
  | metadataType (type : DataType)
  | descriptionNotStruct (kind : String)
  | structWithoutChildren (name : String)
  | leafWithChildren (name type : String)
  | undescribedType (name : String) (type : DataType)
  | unknownType (type name : String)
  | unexpectedColumn (name : String)
  | emptyTableName

/-- What is wrong with a document, a row or a text that one of them holds. -/
inductive ValidationError where
  | timestamp (text : String)
  | timestampRange (seconds : Int64)
  | raggedColumn (name : String) (rows expected : Nat)
  | repeatedColumn (name : String)
  | frameNotObject
  | columnNotObject (name : String)
  | rowKeyNotNumeric (name key : String)
  | rowKeyNotDense (name key : String)
  | emptyId
  | embeddingLength (id : String) (length expected : Nat)
  | unsuitableValue (path : String) (type : DataType) (kind : String)
  | notNullable (path : String)
  | outsideInt32 (path : String) (value : Int64)
  | structExpected (path kind : String)
  /-- A timestamp text inside metadata. -/
  | metadataTimestamp (path text : String)
  | flagMissing (path name : String)
  | rootFlagsMissing
  | rootColumnMissing (name : String)
  | storedKind (name kind expected : String)
  | memberMissing (path : String)
  | scalarExpected (path kind : String)
  | rowWithoutColumn (name : String)
  | columnType (name : String) (type : DataType) (kind : String)
  | vectorLength (name : String) (width length : Nat)
  | structWithoutMember (column member : String)
  | unsupportedColumn (name : String) (type : DataType)
  | unreadableColumn (type : DataType)

/-- What is wrong with a filter or a predicate. -/
inductive FilterError where
  | notObject (found : Json)
  | missingKey (key : String) (node : Json)
  | keyNotString (key : String)
  | conditionsNotList
  | unknownComparison (text : String)
  | unknownConnective (text : String)
  | noConditions (connective : String)
  | invalidField (field : String)
  | reservedField (field : String)
  | unknownField (field : String)
  | vectorComparison (field : String)
  | dateExpected (field operator text : String)
  | listExpected (field operator kind : String)
  | nullMember (field operator : String)
  | unsuitableOperand (field kind operator : String)
  | nonFiniteOperand (field : String) (value : Binary64)
  | nonFinite (value : Binary64)
  | notScalarOperator (operator : String)
  | emptyList
  | unknownColumn (path : String)
  | notDate (text : String)

/-- Why columns do not make up a batch. -/
inductive BatchError where
  | itemType (item : Field)
  | unmaskedNulls (member : String)
  | memberLength (member : String) (expected length : Nat)
  | maskLength (expected length : Nat)
  | noColumns
  | nullsInColumn (name : String)
  | unevenColumns

/-- A state that the checks made before it should have ruled out. -/
inductive InternalError where
  | noZero (path : String) (type : DataType)
  | listWidth (size : Int32)

/-- Why an operation fails. -/
inductive Error where
  | configuration (cause : ConfigurationError)
  | validation (cause : ValidationError)
  | filter (cause : FilterError)
  /-- A write that must not meet stored documents met the one with this id. -/
  | duplicate (id : String)
  | batch (cause : BatchError)
  | json (cause : Json.Failure)
  | internal (cause : InternalError)
  /-- An instant after the end of the calendar. No operation takes this up. -/
  | beyondCalendar

/-- The wording of a configuration error. -/
def ConfigurationError.message : ConfigurationError → String
  | .widthNotPositive width =>
    s!"embedding_dims must be a positive integer, got {width.toInt}"
  | .widthTooLarge width =>
    s!"embedding_dims {width.toInt} exceeds the maximum fixed-size list length"
  | .metadataSchemaMissing => "metadata_schema is required to create a table schema"
  | .widthMissing => "embedding_dims is required to create a table schema"
  | .reservedName path => s!"field name '_isempty' is reserved (in '{path}')"
  | .emptyName path => s!"empty field name in '{path}'"
  | .duplicateName name path => s!"duplicate field '{name}' in '{path}'"
  | .unsupportedMetadataType type path =>
    s!"unsupported metadata type {type.text} for field '{path}'"
  | .missingColumn name => s!"table schema has no '{name}' column"
  | .invalidWidth size => s!"invalid 'vector' width {size.toInt}"
  | .vectorType type =>
    s!"'vector' column must be fixed_size_list<float32>, found {type.text}"
  | .metadataType type => s!"'meta' column must be a struct, found {type.text}"
  | .descriptionNotStruct kind => s!"metadata schema must have type 'struct', found '{kind}'"
  | .structWithoutChildren name => s!"struct field '{name}' has no children"
  | .leafWithChildren name type => s!"field '{name}' of type '{type}' cannot have children"
  | .undescribedType name type =>
    s!"field '{name}' has type {type.text}, which has no schema description"
  | .unknownType type name => s!"unknown type '{type}' for field '{name}'"
  | .unexpectedColumn name => s!"table schema has an unexpected root column '{name}'"
  | .emptyTableName => "table_name must not be empty"

/-- The wording of a validation error. -/
def ValidationError.message : ValidationError → String
  | .timestamp text => s!"invalid ISO-8601 timestamp '{text}'"
  | .timestampRange seconds =>
    s!"timestamp {seconds.toInt} out of range: timestamp was not in range"
  | .raggedColumn name rows expected =>
    s!"dataframe column '{name}' has {rows} rows, expected {expected}"
  | .repeatedColumn name => s!"dataframe column '{name}' declared twice"
  | .frameNotObject => "dataframe payload must be a JSON object of columns"
  | .columnNotObject name => s!"dataframe column '{name}' must be an object keyed by row index"
  | .rowKeyNotNumeric name key => s!"dataframe column '{name}' has non-numeric row key '{key}'"
  | .rowKeyNotDense name key =>
    s!"dataframe column '{name}' has sparse or repeated row key '{key}'"
  | .emptyId => "document id must not be empty"
  | .embeddingLength id length expected =>
    s!"document '{id}' has an embedding of length {length}, expected {expected}"
  | .unsuitableValue path type kind =>
    s!"'{path}' is declared as {type.text}, cannot store a {kind} value"
  | .notNullable path => s!"'{path}' is not nullable, cannot store null"
  | .outsideInt32 path value => s!"'{path}' value {value.toInt} does not fit in int32"
  | .structExpected path kind =>
    s!"'{path}' is declared as a struct, cannot store a {kind} value"
  | .metadataTimestamp path text =>
    s!"'{path}': validation error: invalid ISO-8601 timestamp '{text}'"
  | .flagMissing path name => s!"stored struct '{path}' has no _isempty flag for '{name}'"
  | .rootFlagsMissing => "stored row has no root '_isempty' map"
  | .rootColumnMissing name => s!"stored row has no '{name}' column"
  | .storedKind name kind expected => s!"stored '{name}' is {kind}, expected {expected}"
  | .memberMissing path => s!"stored struct has no member '{path}'"
  | .scalarExpected path kind => s!"'{path}' holds a {kind} where a scalar was expected"
  | .rowWithoutColumn name => s!"row has no value for column '{name}'"
  | .columnType name type kind => s!"column '{name}' expects {type.text}, found {kind}"
  | .vectorLength name width length =>
    s!"column '{name}' expects vectors of length {width}, found {length}"
  | .structWithoutMember column member =>
    s!"struct column '{column}' is missing member '{member}'"
  | .unsupportedColumn name type => s!"column '{name}' has unsupported storage type {type.text}"
  | .unreadableColumn type => s!"cannot read stored values of type {type.text}"

/-- The spelling of a number in a message. -/
def numberText (value : Binary64) : String := String.ofList (Decimal.Layout.sql.text value)

/-- The wording of a filter error. -/
def FilterError.message : FilterError → String
  | .notObject found => s!"filter node must be an object, found {found.text}"
  | .missingKey key node => s!"'{key}' key missing in {node.text}"
  | .keyNotString key => s!"'{key}' must be a string"
  | .conditionsNotList => "'conditions' must be a list of filter nodes"
  | .unknownComparison text =>
    s!"unknown comparison operator '{text}', expected one of " ++
      "'==', '!=', '>', '>=', '<', '<=', 'in', 'not in'"
  | .unknownConnective text =>
    s!"unknown logical operator '{text}', expected one of 'AND', 'OR', 'NOT'"
  | .noConditions connective => s!"logical operator '{connective}' needs at least one condition"
  | .invalidField field => s!"invalid filter field '{field}'"
  | .reservedField field => s!"filter field '{field}' refers to the reserved '_isempty' name"
  | .unknownField field =>
    s!"unknown filter field '{field}'; use a document field or a 'meta.' path"
  | .vectorComparison field =>
    s!"'{field}' can only be compared with null to test for an embedding"
  | .dateExpected field operator text =>
    s!"'{field}': strings are only comparable with '{operator}' when they are ISO-8601 dates, " ++
      s!"found '{text}'"
  | .listExpected field operator kind =>
    s!"'{field}': value must be a list when using '{operator}', found {kind}"
  | .nullMember field operator => s!"'{field}': null is not allowed inside a '{operator}' list"
  | .unsuitableOperand field kind operator =>
    s!"'{field}': a {kind} value cannot be used with '{operator}'"
  | .nonFiniteOperand field value =>
    s!"'{field}': non-finite number {numberText value} cannot be used in a filter"
  | .nonFinite value => s!"non-finite number {numberText value} cannot be used in a filter"
  | .notScalarOperator operator =>
    s!"'{operator}' is a membership operator, not a scalar comparison"
  | .emptyList => "cannot render an empty IN list"
  | .unknownColumn path => s!"unknown column '{path}'"
  | .notDate text => s!"'{text}' is not an ISO-8601 date"

/-- The wording of a batch error. -/
def BatchError.message : BatchError → String
  | .itemType item =>
    s!"FixedSizeListArray expected data type {item.type.text} got Float32 for " ++
      Text.escaped item.name
  | .unmaskedNulls member =>
    "Found unmasked nulls for non-nullable StructArray field " ++ Text.escaped member
  | .memberLength member expected length =>
    "Incorrect array length for StructArray field " ++ Text.escaped member ++
      s!", expected {expected} got {length}"
  | .maskLength expected length =>
    s!"Incorrect number of nulls for StructArray, expected {expected} got {length}"
  | .noColumns => "must either specify a row count or at least one column"
  | .nullsInColumn name =>
    s!"Column '{name}' is declared as non-nullable but contains null values"
  | .unevenColumns => "all columns in a record batch must have the same length"

/-- The wording of an internal error. -/
def InternalError.message : InternalError → String
  | .noZero path type => s!"no zero value for '{path}' of type {type.text}"
  | .listWidth size => s!"invalid list width {size.toInt}"

/-- The name of a JSON failure. -/
def Json.Failure.text : Json.Failure → String
  | .malformed => "malformed text"
  | .ended => "unexpected end of text"
  | .unsuitable => "unsuitable value"

/-- The whole message of an error: its kind and the wording of its cause. -/
def Error.message : Error → String
  | .configuration cause => "configuration error: " ++ cause.message
  | .validation cause => "validation error: " ++ cause.message
  | .filter cause => "filter error: " ++ cause.message
  | .duplicate id => s!"duplicate document: document with id '{id}' already exists"
  | .batch cause => "Arrow error: Invalid argument error: " ++ cause.message
  | .json cause => "JSON error: " ++ cause.text
  | .internal cause => "An internal operation failed: " ++ cause.message
  | .beyondCalendar => "instant after the end of the calendar"

/-- Whether the caller's documents, filters or ids are at fault, and not the store. -/
def Error.isInputError : Error → Bool
  | .validation _ | .filter _ | .duplicate _ => true
  | _ => false

end DocumentStore
