import DocumentStore.Error
import DocumentStore.Row.Basic

/-!
# Batches

A batch holds rows column by column. The data of a leaf column is a list of cells; vectors lie
one after the other in a single list of numbers; a struct column has the data of its members below
it. Vectors and structs that are null are marked by a mask, which is left out when there are none:
a null vector leaves zeros in its place, a null struct leaves nulls in its members.
-/

set_option autoImplicit false

namespace DocumentStore

/-- Which entries of a column are there; without a mask all of them are. -/
abbrev Mask := Option (List Bool)

namespace Mask

/-- The mask for the given validity, left out when every entry is valid. -/
def ofValidity (validity : List Bool) : Mask :=
  if validity.all id then none else some validity

/-- Whether the entry at a position is null. -/
def isNullAt (mask : Mask) (row : Nat) : Bool :=
  match mask with
  | none => false
  | some validity => validity[row]? = some false

/-- The number of null entries. -/
def nullCount (mask : Mask) : Nat :=
  match mask with
  | none => 0
  | some validity => validity.countP (! ·)

end Mask

/-- The data of a column. -/
inductive ColumnData where
  | leaf (type : DataType) (cells : List Cell)
  | vectors (item : Field) (size : Int32) (values : List Binary32) (mask : Mask)
  | struct (fields : List Field) (columns : List ColumnData) (length : Nat) (mask : Mask)

namespace ColumnData

/-- The number of entries. Vectors of width zero leave nothing to count, so without a mask there are
none of them. -/
def length : ColumnData → Nat
  | .leaf _ cells => cells.length
  | .vectors _ size values mask =>
    if size.toInt ≤ 0 then (mask.map List.length).getD 0
    else values.length / size.toInt.toNat
  | .struct _ _ length _ => length

/-- Whether the entry at a position is null. The entries of a column of type null do not count as
null, there being no other value that they could have had. -/
def isNullAt : ColumnData → Nat → Bool
  | .leaf .null _, _ => false
  | .leaf _ cells, row =>
    match cells[row]? with
    | some cell => cell.isNull
    | none => false
  | .vectors _ _ _ mask, row => mask.isNullAt row
  | .struct _ _ _ mask, row => mask.isNullAt row

/-- The number of null entries. -/
def nullCount : ColumnData → Nat
  | .leaf .null _ => 0
  | .leaf _ cells => cells.countP Cell.isNull
  | .vectors _ _ _ mask => mask.nullCount
  | .struct _ _ _ mask => mask.nullCount

end ColumnData

/-- Columns of equal length with their schema. -/
structure Batch where
  schema : Schema
  columns : List ColumnData

namespace Batch

/-- The number of rows: the length of the first column. -/
def rowCount (batch : Batch) : Nat :=
  match batch.columns with
  | [] => 0
  | column :: _ => column.length

/-- The error of the first column that holds nulls and must not. -/
def checkNulls : List Field → List ColumnData → Except Error Unit
  | field :: fields, column :: columns =>
    if !field.nullable && 0 < column.nullCount then
      .error (.batch (.nullsInColumn field.name))
    else checkNulls fields columns
  | _, _ => .ok ()

/-- The batch of the given columns, of which there must be at least one. -/
def ofColumns (schema : Schema) (columns : List ColumnData) : Except Error Batch :=
  match columns with
  | [] => .error (.batch .noColumns)
  | first :: _ => do
    checkNulls schema.fields columns
    if columns.any fun column => column.length ≠ first.length then
      .error (.batch .unevenColumns)
    else .ok ⟨schema, columns⟩

/-- The batch with further columns after its own. -/
def widen (batch : Batch) (fields : List Field) (columns : List ColumnData) :
    Except Error Batch :=
  ofColumns ⟨batch.schema.fields ++ fields⟩ (batch.columns ++ columns)

end Batch

end DocumentStore
