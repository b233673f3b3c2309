import DocumentStore.Proofs.FlaggedLevels

/-!
# Schemas of document tables

A document table has the six document columns and their flags, a vector column of some width, and
metadata that is flagged at every level. Schemas that are built for new tables are of this kind. The
definition says nothing about order, so it also covers tables whose columns have been rearranged.
-/

set_option autoImplicit false

namespace DocumentStore

namespace Schema

/-- The document columns for the given metadata fields and vector width, sorted by name. -/
def documentColumns (metadata : List Field) (size : Int32) : List Field := [
  .plain Column.blob .binary true,
  .plain Column.content .utf8 true,
  .plain Column.dataframe .utf8 true,
  .plain Column.id .utf8 false,
  .plain Column.metadata (.struct metadata) false,
  .plain Column.vector (.fixedSizeList (.plain "item" .float32 true) size) false]

/-- The schema of a document table with the given metadata fields and vector width. -/
structure IsTable (schema : Schema) (metadata : List Field) (size : Int32) : Prop where
  level : Field.HasFlags schema.fields
  columns : (Field.declared schema.fields).Perm (documentColumns metadata size)
  size_pos : 0 < size.toInt
  flagged : (DataType.struct metadata).Flagged

/-- The columns of a document are those with flags. -/
theorem documentColumns_names (metadata : List Field) (size : Int32) :
    (documentColumns metadata size).map FieldOf.name = Column.flagged := rfl

/-- The width of a new table is positive and fits the size of a vector column. -/
theorem toInt_size_of_ofMetadata {metadata : List Field} {width : Int64} {schema : Schema}
    (h : ofMetadata metadata width = .ok schema) :
    0 < width.toInt ∧ (Int32.ofInt width.toInt).toInt = width.toInt := by
  have hmax : Int32.maxValue.toInt = 2147483647 := by decide
  unfold ofMetadata at h
  split at h
  · cases h
  next hpos =>
  split at h
  · cases h
  next hle =>
  rw [hmax] at hle
  exact ⟨by omega, by rw [Int32.toInt_ofInt_of_le] <;> omega⟩

/-- The schema of a new table is that of a document table with canonical metadata. -/
theorem isTable_ofMetadata {metadata : List Field} {width : Int64} {schema : Schema}
    (h : ofMetadata metadata width = .ok schema) :
    ∃ fields, canonicalType Column.metadata (.struct metadata) = .ok (.struct fields) ∧
      schema.IsTable fields (Int32.ofInt width.toInt) := by
  have hsize := toInt_size_of_ofMetadata h
  unfold ofMetadata at h
  split at h
  · cases h
  split at h
  · cases h
  obtain ⟨fields, hfields, h⟩ := (bind_eq_ok_iff _ _ _).mp h
  cases h
  have hcanonical :
      canonicalType Column.metadata (.struct metadata) = .ok (.struct fields) := by
    unfold canonicalMetadata at hfields
    obtain ⟨children, hchildren, hfields⟩ := (bind_eq_ok_iff _ _ _).mp hfields
    cases hfields
    rw [canonicalType, hchildren]
    rfl
  refine ⟨fields, hcanonical, ?_, ?_, ?_, flagged_canonicalType _ _ _ hcanonical⟩
  · constructor
    · show [Column.flags, Column.blob, Column.content, Column.dataframe, Column.id,
        Column.metadata, Column.vector].Nodup
      decide
    · exact ⟨_, _, List.mem_cons_self .., List.Perm.refl _⟩
  · exact List.Perm.refl _
  · rw [hsize.2]
    exact hsize.1

/-- A column that is found is one of the fields and has the name. -/
theorem name_of_column? {schema : Schema} {name : String} {field : Field}
    (h : schema.column? name = some field) : field ∈ schema.fields ∧ field.name = name := by
  unfold column? at h
  exact ⟨List.mem_of_find?_eq_some h, by simpa using List.find?_some h⟩

/-- Where names are distinct, a column is found by its name. -/
theorem column?_of_mem {schema : Schema} (nodup : (schema.fields.map FieldOf.name).Nodup)
    {field : Field} (hmem : field ∈ schema.fields) : schema.column? field.name = some field := by
  cases hfind : schema.column? field.name with
  | none =>
    unfold column? at hfind
    rw [List.find?_eq_none] at hfind
    exact absurd (hfind field hmem) (by simp)
  | some other =>
    obtain ⟨hother, hname⟩ := name_of_column? hfind
    rw [Field.eq_of_name_eq nodup hother hmem hname]

/-- Where names are distinct, the order of columns does not matter to finding them. -/
theorem column?_perm {fields fields' : List Field} (nodup : (fields.map FieldOf.name).Nodup)
    (h : fields.Perm fields') (name : String) :
    (Schema.mk fields).column? name = (Schema.mk fields').column? name := by
  cases hfind : (Schema.mk fields).column? name with
  | some field =>
    obtain ⟨hmem, rfl⟩ := name_of_column? hfind
    exact (column?_of_mem ((h.map FieldOf.name).nodup_iff.mp nodup) (h.mem_iff.mp hmem)).symm
  | none =>
    cases hfind' : (Schema.mk fields').column? name with
    | none => rfl
    | some field =>
      obtain ⟨hmem, rfl⟩ := name_of_column? hfind'
      rw [column?_of_mem nodup (h.mem_iff.mpr hmem)] at hfind
      cases hfind

namespace IsTable

variable {schema : Schema} {metadata : List Field} {size : Int32}

/-- The columns of a document table are declared. -/
theorem mem_declared_of_mem (h : schema.IsTable metadata size) {field : Field}
    (hfield : field ∈ documentColumns metadata size) : field ∈ Field.declared schema.fields :=
  h.columns.mem_iff.mpr hfield

/-- The columns of a document table are found under their names. -/
theorem column?_eq_some (h : schema.IsTable metadata size) {field : Field}
    (hfield : field ∈ documentColumns metadata size) :
    schema.column? field.name = some field :=
  column?_of_mem h.level.nodup (Field.mem_declared.mp (h.mem_declared_of_mem hfield)).1

/-- The width of a document table is that of its vectors. -/
theorem width_eq (h : schema.IsTable metadata size) : schema.width = .ok size.toInt.toNat := by
  have hmem : FieldOf.plain Column.vector
      (.fixedSizeList (.plain "item" .float32 true) size) false ∈
        documentColumns metadata size := by
    simp [documentColumns]
  have hsize := h.size_pos
  unfold width
  rw [show schema.column? Column.vector = _ from h.column?_eq_some hmem]
  dsimp only [FieldOf.plain]
  rw [if_pos rfl, if_neg (by omega)]

/-- The metadata fields of a document table are found. -/
theorem metadataFields_eq (h : schema.IsTable metadata size) :
    schema.metadataFields = .ok metadata := by
  have hmem : FieldOf.plain Column.metadata (.struct metadata) false ∈
      documentColumns metadata size := by
    simp [documentColumns]
  unfold metadataFields
  rw [show schema.column? Column.metadata = _ from h.column?_eq_some hmem]
  rfl

end IsTable

end Schema

end DocumentStore
