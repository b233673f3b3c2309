import DocumentStore.Proofs.BatchRows
import DocumentStore.Proofs.StoredDocuments

/-!
# Rows of documents fit their schema

Whatever is written for a value, and whatever stands in place of one, is of the type of its field,
and it is null only where the field allows it. The flags of a level are booleans, one for each of
its fields. So the row of a document always fits the schema that it was made for.
-/

set_option autoImplicit false

namespace DocumentStore

/-! ## Flagged types can be stored -/

/-- What metadata may hold can be stored. -/
theorem DataType.isStorageLeaf_of_isMetadataLeaf {type : DataType}
    (h : type.isMetadataLeaf = true) : type.isStorageLeaf = true := by
  cases type with
  | timestamp unit zone => cases unit <;> first | rfl | cases h
  | _ => first | rfl | cases h

/-- The flags of a level are booleans. -/
theorem Field.HasFlags.type_of_flags {fields : List Field} (level : Field.HasFlags fields)
    {field : Field} (hfield : field ∈ fields) (hname : field.name = Column.flags) :
    ∃ flags : List Field, field.type = .struct flags ∧ field.nullable = false ∧
      flags.Perm (Field.flagsOf (Field.declared fields)) := by
  obtain ⟨flags, annotations, hmem, hperm⟩ := level.flags
  rw [Field.eq_of_name_eq level.nodup hfield hmem hname]
  exact ⟨flags, rfl, rfl, hperm⟩

/-- Each flag of a level belongs to a declared field. -/
theorem Field.exists_of_mem_flags {fields flags : List Field}
    (h : flags.Perm (Field.flagsOf (Field.declared fields))) {flag : Field} (hflag : flag ∈ flags) :
    ∃ field ∈ Field.declared fields, flag = .plain field.name .boolean false := by
  rw [h.mem_iff] at hflag
  obtain ⟨field, hfield, rfl⟩ := List.mem_map.mp hflag
  exact ⟨field, hfield, rfl⟩

/-- A level with flags is storable if its declared fields are. -/
theorem DataType.storable_level {fields : List Field} (level : Field.HasFlags fields)
    (h : ∀ field ∈ Field.declared fields, field.type.Storable) :
    (DataType.struct fields).Storable := by
  refine .struct fun field hfield => ?_
  by_cases hname : field.name = Column.flags
  · obtain ⟨flags, htype, -, hperm⟩ := level.type_of_flags hfield hname
    rw [htype]
    refine .struct fun flag hflag => ?_
    obtain ⟨declared, -, rfl⟩ := Field.exists_of_mem_flags hperm hflag
    exact .leaf rfl
  · exact h field (Field.mem_declared.mpr ⟨hfield, hname⟩)

/-- A type with flags at every level is storable. -/
theorem DataType.storable_of_flagged {type : DataType} (flagged : type.Flagged) :
    type.Storable := by
  induction flagged with
  | leaf h => exact .leaf (isStorageLeaf_of_isMetadataLeaf h)
  | struct level _ ih =>
    refine storable_level level fun field hfield => ?_
    obtain ⟨hmem, hname⟩ := Field.mem_declared.mp hfield
    exact ih field hmem hname

/-! ## What is written fits -/

namespace Cell

/-- The cell fits the type, and is null only if it may be. -/
def FitsField (type : DataType) (nullable : Bool) (cell : Cell) : Prop :=
  cell.Fits type ∧ (nullable = false → cell.isNull = false)

/-- A cell with the type of a leaf fits its field. -/
theorem fitsField_of_hasLeafType {type : DataType} {nullable : Bool} {cell : Cell}
    (h : cell.hasLeafType type = true) : cell.FitsField type nullable := by
  refine ⟨.leaf h, fun _ => ?_⟩
  cases cell with
  | null => cases type <;> cases h
  | _ => rfl

/-- Null fits a field that may be null. -/
theorem fitsField_null (type : DataType) : Cell.null.FitsField type true :=
  ⟨.null, fun h => by cases h⟩

/-- What stands for a value fits its field. -/
theorem Encodes.fitsField {type : DataType} {nullable : Bool} {value : MetaValue} {cell : Cell}
    (h : Encodes type nullable value cell) : cell.FitsField type nullable := by
  cases h with
  | null => exact fitsField_null type
  | _ => exact fitsField_of_hasLeafType rfl

/-- What stands in place of an absent leaf has the type of the leaf. -/
theorem fitsField_leafPlaceholder {path : String} {type : DataType} {nullable : Bool} {cell : Cell}
    (leaf : type.isMetadataLeaf = true) (h : leafPlaceholder path type nullable = .ok cell) :
    cell.FitsField type nullable := by
  unfold leafPlaceholder at h
  cases nullable with
  | true =>
    cases h
    exact fitsField_null type
  | false =>
    cases type with
    | timestamp unit zone =>
      cases unit with
      | second =>
        cases h
        exact fitsField_of_hasLeafType rfl
      | millisecond => cases h
    | fixedSizeList => cases leaf
    | _ => cases h <;> exact fitsField_of_hasLeafType rfl

/-- A level of slots fits when each of its slots does. -/
theorem fits_ofSlots {fields : List Field} {slots : List (String × Slot)}
    (level : Field.HasFlags fields)
    (h : Field.Filled (fun field slot => slot.value.FitsField field.type field.nullable) fields
      slots) : Fits (.struct fields) (.struct (Row.ofSlots slots)) := by
  have hflags := Row.get?_flags_ofSlots (h.nodup level.nodup) h.flags_not_mem
  -- Each member of the level has a cell, the flags being a struct and the others those of slots.
  have hcells : ∀ field ∈ fields, ∃ cell, (Row.ofSlots slots).get? field.name = some cell ∧
      cell.FitsField field.type field.nullable := by
    intro field hfield
    by_cases hname : field.name = Column.flags
    · obtain ⟨flags, htype, -, hperm⟩ := level.type_of_flags hfield hname
      refine ⟨_, by rw [hname]; exact hflags, ?_, fun _ => rfl⟩
      rw [htype]
      have hflag : ∀ flag ∈ flags, ∃ b,
          (Record.mk (slots.map fun slot => (slot.1, Cell.boolean (!slot.2.present)))).get?
            flag.name = some (.boolean b) ∧ flag.type = .boolean := by
        intro flag hflag
        obtain ⟨field', hfield', rfl⟩ := Field.exists_of_mem_flags hperm hflag
        obtain ⟨slot, -, -, hslot⟩ := h.exists_slot level.nodup hfield'
        rw [Row.flag?_ofSlots (h.nodup level.nodup) h.flags_not_mem] at hslot
        obtain ⟨found, hfound, -⟩ := Option.map_eq_some_iff.mp hslot
        have hlookup := lookup_map_values (fun slot : Slot => Cell.boolean (!slot.present)) slots
          field'.name
        rw [hfound] at hlookup
        exact ⟨_, hlookup, rfl⟩
      refine .struct ?_ ?_
      · intro flag hmem
        obtain ⟨b, hget, -⟩ := hflag flag hmem
        exact ⟨_, hget, fun _ => rfl⟩
      · intro flag hmem cell hcell
        obtain ⟨b, hget, hbool⟩ := hflag flag hmem
        rw [hget] at hcell
        cases hcell
        rw [hbool]
        exact .leaf rfl
    · obtain ⟨slot, hslot, hget, -⟩ :=
        h.exists_slot level.nodup (Field.mem_declared.mpr ⟨hfield, hname⟩)
      exact ⟨slot.value, hget, hslot⟩
  refine .struct ?_ ?_
  · intro field hfield
    obtain ⟨cell, hget, -, hnull⟩ := hcells field hfield
    exact ⟨cell, hget, hnull⟩
  · intro field hfield cell hcell
    obtain ⟨other, hget, hfits, -⟩ := hcells field hfield
    rw [hget] at hcell
    cases hcell
    exact hfits

end Cell

namespace Document

/-- Everything that is written for a flagged type fits it. -/
theorem fitsField_of_flagged {type : DataType} (flagged : type.Flagged) :
    (∀ path nullable value cell, storedValue path nullable value type = .ok cell →
      cell.FitsField type nullable) ∧
    (∀ path nullable cell, placeholder path nullable type = .ok cell →
      cell.FitsField type nullable) := by
  refine @encoded_induction (fun type nullable _ cell => cell.FitsField type nullable)
    ?_ ?_ ?_ ?_ type flagged
  · intro type nullable value cell _ h
    exact h.fitsField
  · intro path type nullable cell leaf h
    exact Cell.fitsField_leafPlaceholder leaf h
  · intro fields
    exact Cell.fitsField_null _
  · intro fields nullable entries slots level h
    exact ⟨Cell.fits_ofSlots level ⟨h.names, fun field hfield slot hslot =>
      (h.filled field hfield slot hslot).2⟩, fun _ => rfl⟩

variable {document : Document} {schema : Schema} {metadata : List Field} {size : Int32} {row : Row}

/-- What an optional column holds fits it. -/
theorem fitsField_optionalSlot {field : Field} {value : Option Cell} {slot : Slot}
    (leaf : field.type.isMetadataLeaf = true)
    (hvalue : ∀ cell, value = some cell → cell.hasLeafType field.type = true)
    (h : optionalSlot field value = .ok slot) : slot.value.FitsField field.type field.nullable := by
  unfold optionalSlot at h
  cases value with
  | some cell =>
    cases h
    exact Cell.fitsField_of_hasLeafType (hvalue cell rfl)
  | none =>
    obtain ⟨cell, hcell, h⟩ := (bind_eq_ok_iff _ _ _).mp h
    cases h
    exact Cell.fitsField_leafPlaceholder leaf hcell

/-- What the vector column holds fits it. -/
theorem fitsField_vectorSlot {item : Field} {nullable : Bool} {slot : Slot}
    (h : document.vectorSlot size.toInt.toNat = .ok slot) :
    slot.value.FitsField (.fixedSizeList item size) nullable := by
  unfold vectorSlot at h
  split at h
  · split at h
    · next hlength =>
      cases h
      exact ⟨.vector hlength, fun _ => rfl⟩
    · cases h
  · cases h
    exact ⟨.vector List.length_replicate, fun _ => rfl⟩

/-- What any column of a document holds fits it. -/
theorem fitsField_rootSlot (flagged : (DataType.struct metadata).Flagged) {field : Field}
    (hfield : field ∈ Schema.documentColumns metadata size) {slot : Slot}
    (h : document.rootSlot size.toInt.toNat metadata field = .ok slot) :
    slot.value.FitsField field.type field.nullable := by
  have htext : ∀ (value : Option String) (cell : Cell), value.map Cell.utf8 = some cell →
      cell.hasLeafType .utf8 = true := by
    intro value cell hcell
    obtain ⟨text, -, rfl⟩ := Option.map_eq_some_iff.mp hcell
    rfl
  simp only [Schema.documentColumns, List.mem_cons, List.not_mem_nil, or_false] at hfield
  rcases hfield with rfl | rfl | rfl | rfl | rfl | rfl
  · refine fitsField_optionalSlot rfl ?_ h
    intro cell hcell
    obtain ⟨bytes, -, rfl⟩ := Option.map_eq_some_iff.mp hcell
    rfl
  · exact fitsField_optionalSlot rfl (htext _) h
  · refine fitsField_optionalSlot rfl ?_ h
    intro cell hcell
    obtain ⟨frame, -, rfl⟩ := Option.map_eq_some_iff.mp hcell
    rfl
  · cases h
    exact Cell.fitsField_of_hasLeafType rfl
  · obtain ⟨slots, hslots, h⟩ := (bind_eq_ok_iff _ _ _).mp h
    cases h
    apply (fitsField_of_flagged flagged).1 Column.metadata false (.map document.metadata)
    rw [storedValue, hslots]
    rfl
  · exact fitsField_vectorSlot h

/-- The row of a document fits the schema. -/
theorem fits_toRow (table : schema.IsTable metadata size) (h : document.toRow schema = .ok row) :
    Cell.Fits (.struct schema.fields) (.struct row) := by
  obtain ⟨slots, rfl, hfilled⟩ := filled_toRow table h
  refine Cell.fits_ofSlots table.level ⟨hfilled.names, fun field hfield slot hslot => ?_⟩
  exact fitsField_rootSlot table.flagged (table.columns.mem_iff.mp hfield)
    (hfilled.filled field hfield slot hslot)

end Document

namespace Schema.IsTable

variable {schema : Schema} {metadata : List Field} {size : Int32}

/-- All columns of a document table can be stored. -/
theorem storable (table : schema.IsTable metadata size) :
    (DataType.struct schema.fields).Storable := by
  refine DataType.storable_level table.level fun field hfield => ?_
  rw [table.columns.mem_iff] at hfield
  simp only [documentColumns, List.mem_cons, List.not_mem_nil, or_false] at hfield
  rcases hfield with rfl | rfl | rfl | rfl | rfl | rfl
  · exact .leaf rfl
  · exact .leaf rfl
  · exact .leaf rfl
  · exact .leaf rfl
  · exact DataType.storable_of_flagged table.flagged
  · exact .vector rfl table.size_pos

/-- A document table has columns. -/
theorem fields_ne_nil (table : schema.IsTable metadata size) : schema.fields ≠ [] := by
  intro h
  have hcolumns := table.columns.length_eq
  rw [h] at hcolumns
  cases hcolumns

end Schema.IsTable

end DocumentStore
