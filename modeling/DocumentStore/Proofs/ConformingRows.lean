import DocumentStore.Proofs.BatchRoundTrip
import DocumentStore.Proofs.FittingRows

/-!
# Conforming rows

A schema is one of batches when it has columns and all of their types are supported. A row conforms
to it when it has a value for every column: null only where the column allows it, otherwise of the
type of the column, and in a struct the same again for every member. A column is built as a whole,
with masks that cover the members of null structs; what comes out is a condition on each value by
itself. Rows form a batch exactly when they conform one by one, and so does no row at all.
-/

set_option autoImplicit false

namespace DocumentStore

/-- A type that columns can have. -/
inductive DataType.Supported : DataType → Prop
  | boolean : Supported .boolean
  | int32 : Supported .int32
  | int64 : Supported .int64
  | float32 : Supported .float32
  | float64 : Supported .float64
  | utf8 : Supported .utf8
  | binary : Supported .binary
  | timestamp (zone : Option String) : Supported (.timestamp .second zone)
  | vector {item : Field} {size : Int32} (numbers : item.type = .float32) (width : 0 < size.toInt) :
      Supported (.fixedSizeList item size)
  | struct {fields : List Field} (members : ∀ field ∈ fields, Supported field.type) :
      Supported (.struct fields)

/-- The cell can stand in a field of the type, which may hold nulls or not. Nothing is asked of the
members of a struct that is null. -/
inductive Cell.Conforms : DataType → Bool → Cell → Prop
  | null {type : DataType} : Conforms type true .null
  | boolean {nullable : Bool} {b : Bool} : Conforms .boolean nullable (.boolean b)
  | int32 {nullable : Bool} {n : Int32} : Conforms .int32 nullable (.int32 n)
  | int64 {nullable : Bool} {n : Int64} : Conforms .int64 nullable (.int64 n)
  | float32 {nullable : Bool} {x : Binary32} : Conforms .float32 nullable (.float32 x)
  | float64 {nullable : Bool} {x : Binary64} : Conforms .float64 nullable (.float64 x)
  | utf8 {nullable : Bool} {s : String} : Conforms .utf8 nullable (.utf8 s)
  | binary {nullable : Bool} {b : List UInt8} : Conforms .binary nullable (.binary b)
  | timestamp {nullable : Bool} {zone : Option String} {seconds : Int64} :
      Conforms (.timestamp .second zone) nullable (.timestamp seconds)
  | vector {nullable : Bool} {item : Field} {size : Int32} {values : List Binary32}
      (width : (values.length : Int) = size.toInt) :
      Conforms (.fixedSizeList item size) nullable (.vector values)
  | struct {nullable : Bool} {fields : List Field} {record : Row}
      (there : ∀ field ∈ fields, ∃ cell, record.get? field.name = some cell)
      (members : ∀ field ∈ fields, ∀ cell, record.get? field.name = some cell →
        Conforms field.type field.nullable cell) :
      Conforms (.struct fields) nullable (.struct record)

/-- The row has a conforming value for every column. -/
def Row.Conforms (row : Row) (fields : List Field) : Prop :=
  ∀ field ∈ fields, ∃ cell, row.get? field.name = some cell ∧
    cell.Conforms field.type field.nullable

/-! ## Types -/

/-- A storage leaf is supported. -/
theorem DataType.supported_of_isStorageLeaf {type : DataType} (h : type.isStorageLeaf = true) :
    type.Supported := by
  cases type with
  | boolean => exact .boolean
  | int32 => exact .int32
  | int64 => exact .int64
  | float32 => exact .float32
  | float64 => exact .float64
  | utf8 => exact .utf8
  | binary => exact .binary
  | timestamp unit zone =>
    cases unit with
    | second => exact .timestamp zone
    | millisecond => cases h
  | _ => cases h

/-- The supported types are those that columns can be built with. -/
theorem DataType.supported_iff_storable (type : DataType) : type.Supported ↔ type.Storable := by
  constructor
  · intro h
    induction h with
    | vector numbers width => exact .vector numbers width
    | struct _ ih => exact .struct ih
    | _ => exact .leaf rfl
  · intro h
    induction h with
    | leaf leaf => exact supported_of_isStorageLeaf leaf
    | vector numbers width => exact .vector numbers width
    | struct _ ih => exact .struct ih

/-! ## Cells -/

namespace Cell

variable {type : DataType} {nullable : Bool} {cell : Cell}

/-- A cell with the type of a leaf conforms to it. -/
theorem conforms_of_hasLeafType (h : cell.hasLeafType type = true) :
    cell.Conforms type nullable := by
  unfold hasLeafType at h
  split at h
  · exact .boolean
  · exact .int32
  · exact .int64
  · exact .float32
  · exact .float64
  · exact .utf8
  · exact .binary
  · exact .timestamp
  · cases h

/-- A conforming cell is of its type, and null only where it may be. -/
theorem Conforms.fitsField (h : cell.Conforms type nullable) : cell.FitsField type nullable := by
  induction h with
  | null => exact fitsField_null _
  | vector width => exact ⟨.vector (by omega), fun _ => rfl⟩
  | @struct _ fields record there _ ih =>
    refine ⟨.struct (fun field hfield => ?_) fun field hfield cell hcell => ?_, fun _ => rfl⟩
    · obtain ⟨cell, hcell⟩ := there field hfield
      exact ⟨cell, hcell, (ih field hfield cell hcell).2⟩
    · exact (ih field hfield cell hcell).1
  | _ => exact fitsField_of_hasLeafType rfl

/-- A cell of a type that can be stored conforms to it, unless it is a null that must not be. -/
theorem conforms_of_fits (fits : cell.Fits type) (storable : type.Storable)
    (hnull : nullable = false → cell.isNull = false) : cell.Conforms type nullable := by
  induction fits generalizing nullable with
  | null =>
    cases nullable with
    | true => exact .null
    | false => cases hnull rfl
  | leaf h => exact conforms_of_hasLeafType h
  | vector h =>
    cases storable with
    | leaf leaf => cases leaf
    | vector _ width => exact .vector (by omega)
  | struct there _ ih =>
    refine .struct (fun field hfield => ?_) fun field hfield cell hcell => ?_
    · obtain ⟨cell, hcell, -⟩ := there field hfield
      exact ⟨cell, hcell⟩
    · obtain ⟨other, hother, hnullable⟩ := there field hfield
      rw [hcell, Option.some.injEq] at hother
      exact ih field hfield cell hcell (storable.members field hfield) (hother ▸ hnullable)

end Cell

/-- The rows that conform to supported columns are those that fit them. -/
theorem Row.conforms_iff_fits {fields : List Field} (storable : (DataType.struct fields).Storable)
    (row : Row) : row.Conforms fields ↔ Cell.Fits (.struct fields) (.struct row) := by
  constructor
  · intro h
    have conforms : (Cell.struct row).Conforms (.struct fields) false := by
      refine .struct (fun field hfield => ?_) fun field hfield cell hcell => ?_
      · obtain ⟨cell, hcell, -⟩ := h field hfield
        exact ⟨cell, hcell⟩
      · obtain ⟨other, hother, hconforms⟩ := h field hfield
        rw [hcell, Option.some.injEq] at hother
        exact hother ▸ hconforms
    exact conforms.fitsField.1
  · intro fits field hfield
    have conforms : (Cell.struct row).Conforms (.struct fields) false :=
      Cell.conforms_of_fits fits storable fun _ => rfl
    cases conforms with
    | struct there members =>
      obtain ⟨cell, hcell⟩ := there field hfield
      exact ⟨cell, hcell, members field hfield cell hcell⟩

namespace Batch

/-- Rows form a batch exactly when there are columns, all of supported types, and every row has a
conforming value for each of them. -/
theorem ofRows_isOk_iff_conforms (schema : Schema) (rows : List Row)
    (vectors : ¬ (DataType.struct schema.fields).HasEmptyVectors) :
    (∃ batch, ofRows schema rows = .ok batch) ↔
      schema.fields ≠ [] ∧ (∀ field ∈ schema.fields, field.type.Supported) ∧
        ∀ row ∈ rows, row.Conforms schema.fields := by
  constructor
  · rintro ⟨batch, h⟩
    obtain ⟨storable, hne, fits⟩ := fits_of_ofRows vectors h
    refine ⟨hne, fun field hfield => ?_, fun row hrow => ?_⟩
    · exact (DataType.supported_iff_storable _).mpr (storable.members field hfield)
    · exact (Row.conforms_iff_fits storable row).mpr (fits row hrow)
  · rintro ⟨hne, supported, conforms⟩
    have storable : (DataType.struct schema.fields).Storable :=
      .struct fun field hfield => (DataType.supported_iff_storable _).mp (supported field hfield)
    have fits : ∀ row ∈ rows, Cell.Fits (.struct schema.fields) (.struct row) :=
      fun row hrow => (Row.conforms_iff_fits storable row).mp (conforms row hrow)
    obtain ⟨columns, hbatch, -⟩ := exists_ofRows storable hne fits
    exact ⟨_, hbatch⟩

/-- A member that must not be null may be missing below a null struct, beside a struct that has it;
in a struct that is there it may not be null. -/
theorem ofRows_isOk_iff_conforms_nullStruct :
    ¬ (DataType.struct
      [.plain "s" (.struct [.plain "flag" .boolean false]) true]).HasEmptyVectors ∧
    (∃ batch, ofRows ⟨[.plain "s" (.struct [.plain "flag" .boolean false]) true]⟩
      [⟨[("s", .struct ⟨[("flag", .boolean true)]⟩)]⟩, ⟨[("s", .null)]⟩] = .ok batch) ∧
    ¬ ∃ batch, ofRows ⟨[.plain "s" (.struct [.plain "flag" .boolean false]) true]⟩
      [⟨[("s", .null)]⟩, ⟨[("s", .struct ⟨[("flag", .null)]⟩)]⟩] = .ok batch := by
  have vectors : ¬ (DataType.struct
      [.plain "s" (.struct [.plain "flag" .boolean false]) true]).HasEmptyVectors := by
    rintro (_ | ⟨hfield, h⟩)
    cases List.mem_singleton.mp hfield
    obtain _ | ⟨hfield, h⟩ := h
    cases List.mem_singleton.mp hfield
    cases h
  refine ⟨vectors, ?_, ?_⟩
  · refine (ofRows_isOk_iff_conforms _ _ vectors).mpr ⟨List.cons_ne_nil _ _, ?_, ?_⟩
    · intro field hfield
      cases List.mem_singleton.mp hfield
      refine .struct fun member hmember => ?_
      cases List.mem_singleton.mp hmember
      exact .boolean
    · intro row hrow field hfield
      cases List.mem_singleton.mp hfield
      simp only [List.mem_cons, List.not_mem_nil, or_false] at hrow
      rcases hrow with rfl | rfl
      · refine ⟨_, rfl, .struct (fun member hmember => ?_) fun member hmember cell hcell => ?_⟩
        · cases List.mem_singleton.mp hmember
          exact ⟨_, rfl⟩
        · cases List.mem_singleton.mp hmember
          cases hcell
          exact .boolean
      · exact ⟨_, rfl, .null⟩
  · intro h
    obtain ⟨-, -, conforms⟩ := (ofRows_isOk_iff_conforms _ _ vectors).mp h
    obtain ⟨cell, hcell, hconforms⟩ := conforms ⟨[("s", .struct ⟨[("flag", .null)]⟩)]⟩
      (List.mem_cons_of_mem _ (List.mem_cons_self ..)) _ (List.mem_cons_self ..)
    cases hcell
    cases hconforms with
    | struct there members => cases members _ (List.mem_cons_self ..) .null rfl

end Batch

end DocumentStore
