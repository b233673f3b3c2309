import DocumentStore.Proofs.StoredValues

/-!
# Levels as they are written

A record at a level of fields lists its flags first and then the declared fields in their order, and
the flags list the same fields. This holds of every struct that is written, also of one that stands
for an absent field; such a struct has all of its flags set and absent members throughout, and an
absent leaf is null or zero.
-/

set_option autoImplicit false

namespace DocumentStore

/-- The record lists the flags and then the declared fields of the level, each once, and the flags
are one boolean for each of these fields in the same order. -/
structure Row.IsLevel (record : Row) (fields : List Field) : Prop where
  names : record.names = Column.flags :: (Field.declared fields).map FieldOf.name
  nodup : record.names.Nodup
  flags : ∃ flags : Row, record.get? Column.flags = some (.struct flags) ∧
    flags.names = (Field.declared fields).map FieldOf.name ∧
    ∀ flag ∈ flags.members, ∃ b, flag.2 = .boolean b

/-- Each struct in the value is a record at the level of its type. -/
inductive Shaped : DataType → Cell → Prop
  | plain {type : DataType} {cell : Cell} (h : cell.members? = none) : Shaped type cell
  | struct {fields : List Field} {record : Row} (level : record.IsLevel fields)
      (below : ∀ field ∈ Field.declared fields, ∀ cell, record.get? field.name = some cell →
        Shaped field.type cell) :
      Shaped (.struct fields) (.struct record)

/-- A leaf type and its zero. -/
inductive DataType.HasZero : DataType → Cell → Prop
  | utf8 : HasZero .utf8 (.utf8 "")
  | int32 : HasZero .int32 (.int32 0)
  | int64 : HasZero .int64 (.int64 0)
  | float32 : HasZero .float32 (.float32 Floating.zero)
  | float64 : HasZero .float64 (.float64 Floating.zero)
  | boolean : HasZero .boolean (.boolean false)
  | binary : HasZero .binary (.binary [])
  | timestamp {zone : Option String} : HasZero (.timestamp .second zone) (.timestamp 0)

/-- The cell stands for an absent field of the given type: null in a nullable leaf, zero in any
other leaf, and for a struct a record with all flags set and absent members. -/
inductive Absent : DataType → Bool → Cell → Prop
  | null {type : DataType} (leaf : type.members? = none) : Absent type true .null
  | zero {type : DataType} {cell : Cell} (h : type.HasZero cell) : Absent type false cell
  | struct {fields : List Field} {nullable : Bool} {record : Row} (level : record.IsLevel fields)
      (flag : ∀ field ∈ Field.declared fields, record.flag? field.name = some true)
      (there : ∀ field ∈ Field.declared fields, ∃ cell, record.get? field.name = some cell)
      (below : ∀ field ∈ Field.declared fields, ∀ cell, record.get? field.name = some cell →
        Absent field.type field.nullable cell) :
      Absent (.struct fields) nullable (.struct record)

/-! ## What is written has the shape of its type -/

/-- Slots that are named as the declared fields make a record at the level. -/
theorem Row.isLevel_ofSlots {fields : List Field} {slots : List (String × Slot)}
    (names : slots.map Prod.fst = (Field.declared fields).map FieldOf.name)
    (nodup : (fields.map FieldOf.name).Nodup) : (Row.ofSlots slots).IsLevel fields := by
  have hnodup : (slots.map Prod.fst).Nodup := by
    rw [names]
    exact Field.nodup_declared nodup
  have hflags : Column.flags ∉ slots.map Prod.fst := by
    rw [names]
    exact Field.flags_not_mem_declared fields
  have hall : (Column.flags :: slots.map Prod.fst).Nodup := List.nodup_cons.mpr ⟨hflags, hnodup⟩
  have hrecord : (Row.ofSlots slots).names = Column.flags :: slots.map Prod.fst := by
    unfold Row.ofSlots
    have hmembers : ∀ first : Cell, (((Column.flags, first) ::
        slots.map fun slot => (slot.1, slot.2.value)).map Prod.fst) =
          Column.flags :: slots.map Prod.fst := by
      intro first
      rw [List.map_cons, List.map_map]
      rfl
    rw [Record.ofList_of_nodup (by rwa [hmembers])]
    exact hmembers _
  refine ⟨by rw [hrecord, names], by rwa [hrecord], _, Row.get?_flags_ofSlots hnodup hflags, ?_, ?_⟩
  · rw [← names]
    exact List.map_map
  · intro flag hflag
    obtain ⟨slot, -, rfl⟩ := List.mem_map.mp hflag
    exact ⟨_, rfl⟩

/-- The zero that is written for a metadata leaf is the zero of its type. -/
theorem Cell.hasZero_of_zero {path : String} {type : DataType} {cell : Cell}
    (leaf : type.isMetadataLeaf = true) (h : Cell.zero path type = .ok cell) :
    type.HasZero cell := by
  cases type with
  | timestamp unit zone =>
    cases unit with
    | second =>
      cases h
      exact .timestamp
    | millisecond => cases h
  | utf8 => cases h; exact .utf8
  | int32 => cases h; exact .int32
  | int64 => cases h; exact .int64
  | float32 => cases h; exact .float32
  | float64 => cases h; exact .float64
  | boolean => cases h; exact .boolean
  | binary => cases h; exact .binary
  | _ => cases leaf

/-- What stands for a leaf's value has no members. -/
theorem Cell.Encodes.members?_eq_none {type : DataType} {nullable : Bool} {value : MetaValue}
    {cell : Cell} (h : Cell.Encodes type nullable value cell) : cell.members? = none := by
  cases h <;> rfl

/-- An absent leaf is written as null or as the zero of its type. -/
theorem Cell.absent_of_leafPlaceholder {path : String} {type : DataType} {nullable : Bool}
    {cell : Cell} (leaf : type.isMetadataLeaf = true)
    (h : Cell.leafPlaceholder path type nullable = .ok cell) : Absent type nullable cell := by
  unfold Cell.leafPlaceholder at h
  split at h
  · next hnullable =>
    cases h
    rw [hnullable]
    exact .null (Document.members?_eq_none leaf)
  · next hnullable =>
    rw [Bool.not_eq_true] at hnullable
    rw [hnullable]
    exact .zero (Cell.hasZero_of_zero leaf h)

/-- What stands in a leaf without a value has no members. -/
theorem Absent.members?_eq_none {type : DataType} {nullable : Bool} {cell : Cell}
    (h : Absent type nullable cell) (leaf : type.members? = none) : cell.members? = none := by
  cases h with
  | null => rfl
  | zero h => cases h <;> rfl
  | struct => cases leaf

namespace Document

/-- In a flagged type whatever is written has the shape of the type. -/
theorem shaped_of_flagged {type : DataType} (flagged : type.Flagged) :
    (∀ path nullable value cell, storedValue path nullable value type = .ok cell →
      Shaped type cell) ∧
    (∀ path nullable cell, placeholder path nullable type = .ok cell → Shaped type cell) := by
  refine encoded_induction (P := fun type _ _ cell => Shaped type cell) ?_ ?_ ?_ ?_ flagged
  · intro type nullable value cell _ h
    exact .plain h.members?_eq_none
  · intro path type nullable cell leaf h
    exact .plain
      ((Cell.absent_of_leafPlaceholder leaf h).members?_eq_none (members?_eq_none leaf))
  · intro fields
    exact .plain rfl
  · intro fields nullable entries slots level filled
    refine .struct (Row.isLevel_ofSlots filled.names level.nodup) ?_
    intro field hfield cell hcell
    obtain ⟨slot, ⟨-, hshaped⟩, hget, -⟩ := filled.exists_slot level.nodup hfield
    rw [hget] at hcell
    cases hcell
    exact hshaped

end Document

/-- What is stored where the document has nothing stands for absence. -/
theorem Stored.absent {type : DataType} {nullable : Bool} {value? : Option MetaValue} {cell : Cell}
    (stored : Stored type nullable value? cell) (habsent : value? = none)
    (shaped : Shaped type cell) : Absent type nullable cell := by
  induction stored with
  | leaf => cases habsent
  | absentLeaf leaf h => exact Cell.absent_of_leafPlaceholder leaf h
  | null => cases habsent
  | @struct fields nullable entries record level flag there below ih =>
    cases entries with
    | some entries => cases habsent
    | none =>
      cases shaped with
      | plain h => cases h
      | struct hlevel hbelow =>
        exact .struct hlevel flag there fun field hfield cell hcell =>
          ih field hfield cell hcell rfl (hbelow field hfield cell hcell)

end DocumentStore
