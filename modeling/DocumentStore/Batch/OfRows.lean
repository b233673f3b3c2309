import DocumentStore.Batch.Basic

/-!
# Batches of rows

The columns of a batch are built one after the other, each from the cells that the rows hold under
its name; the order of members within a row does not matter. A cell must be null or of exactly the
type of its column. A null struct asks nothing of its members and masks their nulls.
-/

set_option autoImplicit false

namespace DocumentStore

/-- Whether cells of this leaf type can be stored. -/
def DataType.isStorageLeaf : DataType → Bool
  | .boolean | .int32 | .int64 | .float32 | .float64 | .utf8 | .binary => true
  | .timestamp .second _ => true
  | _ => false

/-- Whether a cell that is not null has the given leaf type. -/
def Cell.hasLeafType : Cell → DataType → Bool
  | .boolean _, .boolean => true
  | .int32 _, .int32 => true
  | .int64 _, .int64 => true
  | .float32 _, .float32 => true
  | .float64 _, .float64 => true
  | .utf8 _, .utf8 => true
  | .binary _, .binary => true
  | .timestamp _, .timestamp .second _ => true
  | _, _ => false

namespace ColumnData

/-- The error for a cell that does not have the type of the column `name`. -/
def mismatch (name : String) (type : DataType) (cell : Cell) : Error :=
  .validation (.columnType name type cell.kind)

/-- Checks the cells of a leaf column. -/
def checkLeaves (name : String) (type : DataType) : List Cell → Except Error Unit
  | [] => .ok ()
  | cell :: rest =>
    if cell.isNull || cell.hasLeafType type then checkLeaves name type rest
    else .error (mismatch name type cell)

/-- The numbers and the validity of the cells of a vector column. -/
def flatten (name : String) (type : DataType) (width : Nat) :
    List Cell → Except Error (List Binary32 × List Bool)
  | [] => .ok ([], [])
  | .vector values :: rest =>
    if values.length = width then do
      let (others, validity) ← flatten name type width rest
      return (values ++ others, true :: validity)
    else .error (.validation (.vectorLength name width values.length))
  | .null :: rest => do
    let (others, validity) ← flatten name type width rest
    return (List.replicate width Floating.zero ++ others, false :: validity)
  | cell :: _ => .error (mismatch name type cell)

/-- The validity of the cells of a struct column. -/
def structValidity (name : String) (type : DataType) : List Cell → Except Error (List Bool)
  | [] => .ok []
  | .struct _ :: rest => do return true :: (← structValidity name type rest)
  | .null :: rest => do return false :: (← structValidity name type rest)
  | cell :: _ => .error (mismatch name type cell)

/-- The cells of the member `member` in the cells of a struct column, nulls below null structs. -/
def memberCells (column member : String) : List Cell → Except Error (List Cell)
  | [] => .ok []
  | .struct record :: rest =>
    match record.get? member with
    | some cell => do return cell :: (← memberCells column member rest)
    | none => .error (.validation (.structWithoutMember column member))
  | _ :: rest => do return .null :: (← memberCells column member rest)

/-- Checks the member columns of a struct: as long as the struct, and without nulls that neither
the field nor the mask allows. -/
def checkMembers (mask : Mask) (length : Nat) :
    List Field → List ColumnData → Except Error Unit
  | field :: fields, column :: columns =>
    if column.length ≠ length then
      .error (.batch (.memberLength field.name length column.length))
    else if !field.nullable &&
        (List.range length).any (fun row => column.isNullAt row && !mask.isNullAt row) then
      .error (.batch (.unmaskedNulls field.name))
    else checkMembers mask length fields columns
  | _, _ => .ok ()

/-- The struct column with the given members; without members its length is `rows`. -/
def ofMembers (fields : List Field) (columns : List ColumnData) (rows : Nat) (mask : Mask) :
    Except Error ColumnData :=
  match columns with
  | [] => .ok (.struct fields [] rows mask)
  | first :: _ =>
    match mask with
    | some validity =>
      if validity.length ≠ first.length then
        .error (.batch (.maskLength first.length validity.length))
      else do
        checkMembers mask first.length fields columns
        return .struct fields columns first.length mask
    | none => do
      checkMembers mask first.length fields columns
      return .struct fields columns first.length mask

mutual

/-- The data of the column `name` with the given cells. -/
def ofCells (name : String) (cells : List Cell) : DataType → Except Error ColumnData
  | .fixedSizeList item size =>
    if size.toInt < 0 then .error (.internal (.listWidth size))
    else do
      let (values, validity) ←
        flatten name (.fixedSizeList item size) size.toInt.toNat cells
      if item.type = .float32 then
        return .vectors item size values (Mask.ofValidity validity)
      else .error (.batch (.itemType item))
  | .struct fields => do
    let validity ← structValidity name (.struct fields) cells
    let columns ← ofMemberCells name cells fields
    ofMembers fields columns cells.length (Mask.ofValidity validity)
  | type =>
    if type.isStorageLeaf then do
      checkLeaves name type cells
      return .leaf type cells
    else .error (.validation (.unsupportedColumn name type))

/-- The data of the members of the struct column `column`. -/
def ofMemberCells (column : String) (cells : List Cell) :
    List (FieldOf DataType) → Except Error (List ColumnData)
  | [] => .ok []
  | ⟨name, type, _, _⟩ :: rest => do
    let members ← memberCells column name cells
    let data ← ofCells name members type
    return data :: (← ofMemberCells column cells rest)

end

end ColumnData

namespace Batch

/-- The cells that the rows hold in the column `name`. -/
def columnCells (name : String) : List Row → Except Error (List Cell)
  | [] => .ok []
  | row :: rest =>
    match row.get? name with
    | some cell => do return cell :: (← columnCells name rest)
    | none => .error (.validation (.rowWithoutColumn name))

/-- The data of the columns of some fields. -/
def columnsOfRows (rows : List Row) : List Field → Except Error (List ColumnData)
  | [] => .ok []
  | field :: rest => do
    let cells ← columnCells field.name rows
    let data ← ColumnData.ofCells field.name cells field.type
    return data :: (← columnsOfRows rows rest)

/-- The batch of the given rows. -/
def ofRows (schema : Schema) (rows : List Row) : Except Error Batch := do
  let columns ← columnsOfRows rows schema.fields
  ofColumns schema columns

end Batch

end DocumentStore
