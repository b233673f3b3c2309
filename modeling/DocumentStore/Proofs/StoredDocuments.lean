import DocumentStore.Proofs.StoredValues
import DocumentStore.Proofs.TableSchema

/-!
# What stands in the row of a document

The row of a document has a slot for each document column. An optional member of the document that
is there stands in its column and is flagged present; one that is missing is flagged absent.
`Document.StoredIn` gathers what look-ups in such a row give; reading and filtering rely on nothing
else, so they do not notice when columns or members change their places.
-/

set_option autoImplicit false

namespace DocumentStore

namespace Document

variable {document : Document} {schema : Schema} {metadata : List Field} {size : Int32} {row : Row}

/-- A row is made of one slot for each declared column, for a document that has an id. -/
theorem toRow_eq (document : Document) (table : schema.IsTable metadata size) :
    document.toRow schema =
      if document.id = "" then .error (.validation .emptyId)
      else ((Field.declared schema.fields).mapM fun field => do
        return (field.name, ← document.rootSlot size.toInt.toNat metadata field)).map Row.ofSlots := by
  unfold toRow
  rw [table.width_eq, table.metadataFields_eq, ok_bind, ok_bind]
  split
  · rfl
  · exact bind_pure_eq_map _ _

/-- A document has a row when it has an id and each of its columns has a slot. -/
theorem toRow_eq_ok_iff (table : schema.IsTable metadata size) :
    document.toRow schema = .ok row ↔
      document.id ≠ "" ∧ ∃ slots, row = Row.ofSlots slots ∧
        (Field.declared schema.fields).mapM (fun field => do
          return (field.name, ← document.rootSlot size.toInt.toNat metadata field)) = .ok slots := by
  rw [toRow_eq document table]
  split
  · next hid => exact iff_of_false (fun h => by cases h) fun h => h.1 hid
  · next hid =>
    rw [and_iff_right hid, map_eq_ok_iff]
    constructor
    · rintro ⟨slots, hslots, h⟩
      exact ⟨slots, h.symm, hslots⟩
    · rintro ⟨slots, h, hslots⟩
      exact ⟨slots, hslots, h.symm⟩

/-- The row of a document is made of the slots of its columns. -/
theorem filled_toRow (table : schema.IsTable metadata size) (h : document.toRow schema = .ok row) :
    ∃ slots, row = Row.ofSlots slots ∧
      Field.Filled (fun field slot =>
        document.rootSlot size.toInt.toNat metadata field = .ok slot) schema.fields slots := by
  obtain ⟨-, slots, hrow, hslots⟩ := (toRow_eq_ok_iff table).mp h
  exact ⟨slots, hrow, filled_of_mapM table.level.nodup (fun _ _ _ hslot => hslot) hslots⟩

/-- In a row each document column has the value and the flag of its slot. -/
theorem exists_rootSlot (table : schema.IsTable metadata size)
    (h : document.toRow schema = .ok row) {field : Field}
    (hfield : field ∈ Schema.documentColumns metadata size) :
    ∃ slot, document.rootSlot size.toInt.toNat metadata field = .ok slot ∧
      row.get? field.name = some slot.value ∧ row.flag? field.name = some (!slot.present) := by
  obtain ⟨slots, rfl, hfilled⟩ := filled_toRow table h
  exact hfilled.exists_slot table.level.nodup (table.mem_declared_of_mem hfield)

/-- A row has no columns besides its flags and the document columns. -/
theorem get?_toRow_eq_none (table : schema.IsTable metadata size)
    (h : document.toRow schema = .ok row) {name : String} (hflags : name ≠ Column.flags)
    (hname : name ∉ Column.flagged) :
    row.get? name = none := by
  obtain ⟨slots, rfl, hfilled⟩ := filled_toRow table h
  rw [Row.get?_ofSlots (hfilled.nodup table.level.nodup) hfilled.flags_not_mem hflags]
  have hnot : name ∉ slots.map Prod.fst := by
    rw [hfilled.names, (table.columns.map FieldOf.name).mem_iff, Schema.documentColumns_names]
    exact hname
  rw [(lookup_eq_none_iff_not_mem slots name).mpr hnot]
  rfl

/-- A column holds the value of an optional member, and is flagged by whether there is one. -/
structure ColumnHolds (row : Row) (name : String) (value : Option Cell) : Prop where
  flag : row.flag? name = some value.isNone
  held : ∀ cell, value = some cell → row.get? name = some cell

/-- A column that allows nulls holds null in place of what is missing. -/
structure NullableHolds (row : Row) (name : String) (value : Option Cell) : Prop extends
    ColumnHolds row name value where
  stored : row.get? name = some (value.getD .null)

/-- The stored text of the data frame of a document. -/
def frameCell (document : Document) : Option Cell :=
  document.dataframe.map fun frame => .utf8 frame.canonicalText

/-- The row stores the document with the given metadata fields. -/
structure StoredIn (document : Document) (metadata : List Field) (row : Row) : Prop where
  id : row.get? Column.id = some (.utf8 document.id)
  content : NullableHolds row Column.content (document.content.map .utf8)
  blob : NullableHolds row Column.blob (document.blob.map .binary)
  dataframe : NullableHolds row Column.dataframe document.frameCell
  vector : ColumnHolds row Column.vector (document.embedding.map .vector)
  metadata : ∃ cell, ColumnHolds row Column.metadata (some cell) ∧
    Stored (.struct metadata) false (some (.map document.metadata)) cell
  score : row.get? Column.score = none
  distance : row.get? Column.distance = none

section Columns

variable (table : schema.IsTable metadata size) (h : document.toRow schema = .ok row)

include table h

/-- A column that allows nulls holds null where the document has nothing. -/
theorem nullableHolds_column {field : Field} {value : Option Cell}
    (hfield : field ∈ Schema.documentColumns metadata size) (hnullable : field.nullable = true)
    (hroot : document.rootSlot size.toInt.toNat metadata field = optionalSlot field value) :
    NullableHolds row field.name value := by
  obtain ⟨slot, hslot, hget, hflag⟩ := exists_rootSlot table h hfield
  rw [hroot] at hslot
  unfold optionalSlot at hslot
  cases value with
  | some cell =>
    cases hslot
    exact ⟨⟨hflag, fun other hother => by cases hother; exact hget⟩, hget⟩
  | none =>
    obtain ⟨placeholder, hplaceholder, hslot⟩ := (bind_eq_ok_iff _ _ _).mp hslot
    cases hslot
    unfold Cell.leafPlaceholder at hplaceholder
    rw [if_pos hnullable] at hplaceholder
    cases hplaceholder
    exact ⟨⟨hflag, fun other hother => by cases hother⟩, hget⟩

/-- The vector column stores the embedding. -/
theorem columnHolds_vector :
    ColumnHolds row Column.vector (document.embedding.map .vector) := by
  have hfield : FieldOf.plain Column.vector
      (.fixedSizeList (.plain "item" .float32 true) size) false ∈
        Schema.documentColumns metadata size := by
    simp [Schema.documentColumns]
  obtain ⟨slot, hslot, hget, hflag⟩ := exists_rootSlot table h hfield
  have hslot : document.vectorSlot size.toInt.toNat = .ok slot := hslot
  unfold vectorSlot at hslot
  cases hembedding : document.embedding with
  | some values =>
    rw [hembedding] at hslot
    dsimp only at hslot
    split at hslot
    · cases hslot
      exact ⟨hflag, fun cell hc => by cases hc; exact hget⟩
    · cases hslot
  | none =>
    rw [hembedding] at hslot
    cases hslot
    exact ⟨hflag, fun cell hc => by cases hc⟩

/-- The metadata column holds the stored form of the metadata of the document. -/
theorem exists_metadataRecord :
    ∃ record, row.get? Column.metadata = some (.struct record) ∧
      row.flag? Column.metadata = some false ∧
      storedValue Column.metadata false (.map document.metadata) (.struct metadata) =
        .ok (.struct record) := by
  have hfield : FieldOf.plain Column.metadata (.struct metadata) false ∈
      Schema.documentColumns metadata size := by
    simp [Schema.documentColumns]
  obtain ⟨slot, hslot, hget, hflag⟩ := exists_rootSlot table h hfield
  obtain ⟨slots, hslots, hslot⟩ := (bind_eq_ok_iff _ _ _).mp hslot
  cases hslot
  refine ⟨_, hget, hflag, ?_⟩
  rw [storedValue, hslots]
  rfl

/-- The metadata column stores the metadata. -/
theorem columnHolds_metadata :
    ∃ cell, ColumnHolds row Column.metadata (some cell) ∧
      Stored (.struct metadata) false (some (.map document.metadata)) cell := by
  obtain ⟨record, hget, hflag, hstored⟩ := exists_metadataRecord table h
  refine ⟨_, ⟨hflag, fun cell hcell => by cases hcell; exact hget⟩, ?_⟩
  exact (stored_of_flagged table.flagged).1 Column.metadata false _ _ hstored

/-- The row of a document stores the document. -/
theorem storedIn_toRow : document.StoredIn metadata row where
  id := by
    have hfield : FieldOf.plain Column.id .utf8 false ∈
        Schema.documentColumns metadata size := by
      simp [Schema.documentColumns]
    obtain ⟨slot, hslot, hget, -⟩ := exists_rootSlot table h hfield
    cases hslot
    exact hget
  content := by
    have hfield : FieldOf.plain Column.content .utf8 true ∈
        Schema.documentColumns metadata size := by
      simp [Schema.documentColumns]
    exact nullableHolds_column table h hfield rfl rfl
  blob := by
    have hfield : FieldOf.plain Column.blob .binary true ∈
        Schema.documentColumns metadata size := by
      simp [Schema.documentColumns]
    exact nullableHolds_column table h hfield rfl rfl
  dataframe := by
    have hfield : FieldOf.plain Column.dataframe .utf8 true ∈
        Schema.documentColumns metadata size := by
      simp [Schema.documentColumns]
    exact nullableHolds_column table h hfield rfl rfl
  vector := columnHolds_vector table h
  metadata := columnHolds_metadata table h
  score := get?_toRow_eq_none table h (by decide) (by decide)
  distance := get?_toRow_eq_none table h (by decide) (by decide)

end Columns

end Document

end DocumentStore
