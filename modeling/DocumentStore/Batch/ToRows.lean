import DocumentStore.Batch.Basic

/-!
# Rows of batches

A batch is read back row by row. Columns that the table does not declare come along; one that
bears the name of an earlier column replaces its value. A null reads as null whatever the type of
its column; any other value can only be read from a type that rows can hold.
-/

set_option autoImplicit false

namespace DocumentStore

/-- Whether cells of this leaf type can be read. -/
def DataType.isReadableLeaf : DataType → Bool
  | .boolean | .int32 | .int64 | .float32 | .float64 | .utf8 | .largeUtf8 | .binary => true
  | .timestamp .second _ => true
  | _ => false

namespace ColumnData

mutual

/-- The cell at a position. -/
def cellAt (row : Nat) : ColumnData → Except Error Cell
  | .leaf type cells =>
    if (ColumnData.leaf type cells).isNullAt row then .ok .null
    else if type.isReadableLeaf then .ok (cells[row]?.getD .null)
    else .error (.validation (.unreadableColumn type))
  | .vectors item size values mask =>
    if mask.isNullAt row then .ok .null
    else if item.type = .float32 then
      let width := size.toInt.toNat
      .ok (.vector ((values.drop (row * width)).take width))
    else .error (.validation (.unreadableColumn (.fixedSizeList item size)))
  | .struct fields columns _ mask =>
    if mask.isNullAt row then .ok .null
    else do
      let cells ← cellsAt row columns
      return .struct (Record.ofList ((fields.map FieldOf.name).zip cells))

/-- The cells of several columns at a position. -/
def cellsAt (row : Nat) : List ColumnData → Except Error (List Cell)
  | [] => .ok []
  | column :: rest => do
    let cell ← column.cellAt row
    return cell :: (← cellsAt row rest)

end

end ColumnData

namespace Batch

/-- The row at a position. -/
def rowAt (batch : Batch) (row : Nat) : Except Error Row := do
  let cells ← ColumnData.cellsAt row batch.columns
  return Record.ofList ((batch.schema.fields.map FieldOf.name).zip cells)

/-- The rows of a batch. -/
def toRows (batch : Batch) : Except Error (List Row) :=
  (List.range batch.rowCount).mapM batch.rowAt

end Batch

end DocumentStore
