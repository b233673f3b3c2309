import DocumentStore.Proofs.DeclaredPaths
import DocumentStore.Proofs.StoredDocuments
import DocumentStore.Proofs.WrittenLevels

/-!
# Flags tell what a document has

The row of a document is a record at every level, from the root down to the deepest struct that is
written. Its flags are set exactly where the document has no entry, whether the key itself or one of
those around it is missing, and what is flagged stands for absence. A struct is left out in one case
only: when the document has a null for it or further up.
-/

set_option autoImplicit false

namespace DocumentStore

/-! ## Levels and the names that lead to them -/

/-- The names lead from a level to the level of a declared struct below it. -/
inductive Field.Reaches : List Field → List String → List Field → Prop
  | here {fields : List Field} : Reaches fields [] fields
  | inside {fields inner level : List Field} {field : Field} {names : List String}
      (h : field ∈ Field.declared fields) (type : field.type = .struct inner)
      (rest : Reaches inner names level) : Reaches fields (field.name :: names) level

/-- What leads from a value to a struct begins at a struct. -/
theorem Cell.exists_struct_of_path? {cell : Cell} {names : List String} {record : Row}
    (h : cell.path? names = some (.struct record)) : ∃ outer, cell = .struct outer := by
  cases cell with
  | struct outer => exact ⟨outer, rfl⟩
  | _ => cases names <;> cases h

/-- What is found at a path into a struct is found in one of its members. -/
theorem Cell.path?_struct_cons {record : Row} {name : String} {names : List String} {found : Cell}
    (h : (Cell.struct record).path? (name :: names) = some found) :
    ∃ cell, record.get? name = some cell ∧ cell.path? names = some found := by
  rw [Cell.path?] at h
  split at h
  · next cell hcell => exact ⟨cell, hcell, h⟩
  · cases h

/-- A struct can only be the value of a struct type. -/
theorem Shaped.exists_fields {type : DataType} {record : Row} (h : Shaped type (.struct record)) :
    ∃ fields, type = .struct fields ∧ record.IsLevel fields ∧
      ∀ field ∈ Field.declared fields, ∀ cell, record.get? field.name = some cell →
        Shaped field.type cell := by
  cases h with
  | plain h => cases h
  | struct level below => exact ⟨_, rfl, level, below⟩

/-- The flags apart, what is found in a record is a declared field of its level. -/
theorem Row.IsLevel.exists_field {record : Row} {fields : List Field} (level : record.IsLevel fields)
    {name : String} {cell : Cell} (h : record.get? name = some cell) (hname : name ≠ Column.flags) :
    ∃ field ∈ Field.declared fields, field.name = name := by
  have hmem : name ∈ record.names := List.mem_map.mpr ⟨(name, cell), mem_of_lookup h, rfl⟩
  rw [level.names, List.mem_cons, or_iff_right hname] at hmem
  exact List.mem_map.mp hmem

/-- Where a struct is found, a declared struct is reached. -/
theorem Shaped.exists_reaches {fields : List Field} {outer record : Row} {names : List String}
    (shaped : Shaped (.struct fields) (.struct outer)) (hflags : Column.flags ∉ names)
    (h : (Cell.struct outer).path? names = some (.struct record)) :
    ∃ level, Field.Reaches fields names level := by
  induction names generalizing fields outer with
  | nil => exact ⟨fields, .here⟩
  | cons name rest ih =>
    simp only [List.mem_cons, not_or] at hflags
    obtain ⟨cell, hcell, hrest⟩ := Cell.path?_struct_cons h
    obtain ⟨fields, ⟨rfl⟩, hlevel, hbelow⟩ := shaped.exists_fields
    obtain ⟨field, hfield, rfl⟩ := hlevel.exists_field hcell (Ne.symm hflags.1)
    obtain ⟨inner, rfl⟩ := Cell.exists_struct_of_path? hrest
    have hinner := hbelow field hfield _ hcell
    obtain ⟨below, htype, -, -⟩ := hinner.exists_fields
    rw [htype] at hinner
    obtain ⟨level, hlevel⟩ := ih hinner hflags.2 hrest
    exact ⟨level, .inside hfield htype hlevel⟩

/-- A struct that is written at a reached level stores what the document has there. -/
theorem Stored.at_reached {fields level : List Field} {names : List String}
    (reaches : Field.Reaches fields names level) {nullable : Bool} {value? : Option MetaValue}
    {outer record : Row} (stored : Stored (.struct fields) nullable value? (.struct outer))
    (shaped : Shaped (.struct fields) (.struct outer))
    (h : (Cell.struct outer).path? names = some (.struct record)) :
    Shaped (.struct level) (.struct record) ∧ ∃ nullable,
      Stored (.struct level) nullable (value?.bind fun value => value.at? names)
        (.struct record) := by
  induction reaches generalizing nullable value? outer with
  | here =>
    cases h
    refine ⟨shaped, nullable, ?_⟩
    cases value? with
    | none => exact stored
    | some value => cases value <;> exact stored
  | @inside fields inner level field names hfield htype _ ih =>
    obtain ⟨cell, hcell, hrest⟩ := Cell.path?_struct_cons h
    obtain ⟨inside, rfl⟩ := Cell.exists_struct_of_path? hrest
    obtain ⟨fields, ⟨rfl⟩, -, hbelow⟩ := shaped.exists_fields
    have hshaped := hbelow field hfield _ hcell
    cases stored with
    | leaf leaf => cases leaf
    | absentLeaf leaf => cases leaf
    | @struct _ _ entries _ _ _ _ below =>
      have hstored := below field hfield _ hcell
      rw [htype] at hstored hshaped
      rw [MetaValue.bind_at?_cons]
      exact ih hstored hshaped hrest

namespace Document

/-- The record tells of each field of its level whether the document has an entry under the names
that lead to it, and what stands in place of a missing entry stands for absence. -/
structure Tells (document : Document) (names : List String) (level : List Field) (record : Row) :
    Prop where
  isLevel : record.IsLevel level
  flag : ∀ field ∈ Field.declared level, record.flag? field.name =
    some ((MetaValue.map document.metadata).at? (names ++ [field.name])).isNone
  absent : ∀ field ∈ Field.declared level, record.flag? field.name = some true →
    ∃ cell, record.get? field.name = some cell ∧ Absent field.type field.nullable cell
  written : ∀ field ∈ Field.declared level, ∀ inner, field.type = .struct inner →
    (record.get? field.name = some .null ↔
      (MetaValue.map document.metadata).at? (names ++ [field.name]) = some .null) ∧
    (record.get? field.name = some .null ∨ ∃ below, record.get? field.name = some (.struct below))

/-- The root tells which members the document has, and holds nulls and a zero vector in place of
those that are missing. -/
structure TellsRoot (document : Document) (width : Nat) (row : Row) : Prop where
  id : row.flag? Column.id = some false
  metadata : row.flag? Column.metadata = some false
  content : row.flag? Column.content = some document.content.isNone
  dataframe : row.flag? Column.dataframe = some document.dataframe.isNone
  blob : row.flag? Column.blob = some document.blob.isNone
  vector : row.flag? Column.vector = some document.embedding.isNone
  noContent : document.content = none → row.get? Column.content = some .null
  noDataframe : document.dataframe = none → row.get? Column.dataframe = some .null
  noBlob : document.blob = none → row.get? Column.blob = some .null
  noVector : document.embedding = none →
    row.get? Column.vector = some (.vector (List.replicate width Floating.zero))

/-- A stored struct tells of its fields. -/
theorem tells_of_stored {document : Document} {names : List String} {level : List Field}
    {record : Row} {nullable : Bool} (shaped : Shaped (.struct level) (.struct record))
    (stored : Stored (.struct level) nullable
      ((MetaValue.map document.metadata).at? names) (.struct record)) :
    document.Tells names level record := by
  obtain ⟨fields, ⟨rfl⟩, hlevel, hbelow⟩ := shaped.exists_fields
  generalize hvalue : (MetaValue.map document.metadata).at? names = value? at stored
  cases stored with
  | leaf leaf => cases leaf
  | absentLeaf leaf => cases leaf
  | @struct _ _ entries _ level flag there below =>
    have hentry : ∀ field : Field, (MetaValue.map document.metadata).at? (names ++ [field.name]) =
        Metadata.valueIn entries field := by
      intro field
      rw [MetaValue.at?_append, hvalue, MetaValue.bind_at?_cons]
      cases Metadata.valueIn entries field with
      | none => rfl
      | some value => cases value <;> rfl
    refine ⟨hlevel, ?_, ?_, ?_⟩
    · intro field hfield
      rw [hentry, flag field hfield]
    · intro field hfield htrue
      rw [flag field hfield, Option.some.injEq, Option.isNone_iff_eq_none] at htrue
      obtain ⟨cell, hcell⟩ := there field hfield
      exact ⟨cell, hcell,
        (below field hfield cell hcell).absent htrue (hbelow field hfield cell hcell)⟩
    · intro field hfield inner htype
      obtain ⟨cell, hcell⟩ := there field hfield
      have hstored := below field hfield cell hcell
      rw [hentry, hcell]
      rw [htype] at hstored
      generalize field.nullable = nullable', Metadata.valueIn entries field = held at hstored
      cases hstored with
      | leaf leaf => cases leaf
      | absentLeaf leaf => cases leaf
      | null => simp
      | @struct _ _ entries => cases entries <;> simp

variable {document : Document} {schema : Schema} {metadata : List Field} {size : Int32} {row : Row}

/-- The root of a row tells which members the document has. -/
theorem tellsRoot_toRow (table : schema.IsTable metadata size)
    (h : document.toRow schema = .ok row) :
    row.IsLevel schema.fields ∧ document.TellsRoot size.toInt.toNat row := by
  have stored := storedIn_toRow table h
  have hcolumn : ∀ {name : String} {value : Option Cell}, NullableHolds row name value →
      value = none → row.get? name = some .null := by
    intro name value holds hnone
    rw [holds.stored, hnone]
    rfl
  constructor
  · obtain ⟨slots, rfl, hfilled⟩ := filled_toRow table h
    exact Row.isLevel_ofSlots hfilled.names table.level.nodup
  · refine ⟨?_, (exists_metadataRecord table h).choose_spec.2.1, ?_, ?_, ?_, ?_, ?_, ?_, ?_, ?_⟩
    · have hfield : FieldOf.plain Column.id .utf8 false ∈
          Schema.documentColumns metadata size := by
        simp [Schema.documentColumns]
      obtain ⟨slot, hslot, -, hflag⟩ := exists_rootSlot table h hfield
      cases hslot
      exact hflag
    · simpa using stored.content.flag
    · simpa [frameCell] using stored.dataframe.flag
    · simpa using stored.blob.flag
    · simpa using stored.vector.flag
    · exact fun hnone => hcolumn stored.content (by simp [hnone])
    · exact fun hnone => hcolumn stored.dataframe (by simp [frameCell, hnone])
    · exact fun hnone => hcolumn stored.blob (by simp [hnone])
    · intro hnone
      have hfield : FieldOf.plain Column.vector
          (.fixedSizeList (.plain "item" .float32 true) size) false ∈
            Schema.documentColumns metadata size := by
        simp [Schema.documentColumns]
      obtain ⟨slot, hslot, hget, -⟩ := exists_rootSlot table h hfield
      have hslot : document.vectorSlot size.toInt.toNat = .ok slot := hslot
      unfold vectorSlot at hslot
      rw [hnone] at hslot
      cases hslot
      exact hget

/-- In the row of a document in a new table, the root and every metadata struct that is written are
records at their levels, and tell which entries the document has. Structs are written at declared
structs only, and the metadata of the document always is one of them. -/
theorem presence_faithful {fields : List Field} {width : Int64}
    (hschema : Schema.ofMetadata fields width = .ok schema)
    (hrow : document.toRow schema = .ok row) :
    row.IsLevel schema.fields ∧ document.TellsRoot width.toInt.toNat row ∧
    ∃ metadata, schema.metadataFields = .ok metadata ∧
      (∃ record, row.get? Column.metadata = some (.struct record)) ∧
      (∀ names record, Column.flags ∉ names →
        row.path? (Column.metadata :: names) = some (.struct record) →
          ∃ level, Field.Reaches metadata names level) ∧
      ∀ names level record, Field.Reaches metadata names level →
        row.path? (Column.metadata :: names) = some (.struct record) →
          document.Tells names level record := by
  obtain ⟨metadata, -, table⟩ := Schema.isTable_ofMetadata hschema
  obtain ⟨hlevel, hroot⟩ := tellsRoot_toRow table hrow
  rw [(Schema.toInt_size_of_ofMetadata hschema).2] at hroot
  obtain ⟨record, hget, -, hstored⟩ := exists_metadataRecord table hrow
  have shaped := (shaped_of_flagged table.flagged).1 _ _ _ _ hstored
  have stored := (stored_of_flagged table.flagged).1 _ _ _ _ hstored
  refine ⟨hlevel, hroot, metadata, table.metadataFields_eq, ⟨record, hget⟩, ?_, ?_⟩
  · intro names inner hflags hpath
    rw [Row.path?_cons hget] at hpath
    exact shaped.exists_reaches hflags hpath
  · intro names level inner reaches hpath
    rw [Row.path?_cons hget] at hpath
    obtain ⟨hshaped, nullable, hinner⟩ := Stored.at_reached reaches stored shaped hpath
    exact tells_of_stored hshaped hinner

/-- Fields with a struct inside a struct, and a document that has neither of them. -/
theorem presence_faithful_nestedAbsence :
    ∃ schema row, Schema.ofMetadata [.plain "outer" (.struct [.plain "inner" (.struct
        [.plain "note" .utf8 false]) true]) true] 2 = .ok schema ∧
      (Document.ofId "a").toRow schema = .ok row ∧ row.IsLevel schema.fields ∧
      ∃ metadata, schema.metadataFields = .ok metadata ∧
        ∀ names level record, Field.Reaches metadata names level →
          row.path? (Column.metadata :: names) = some (.struct record) →
            (Document.ofId "a").Tells names level record := by
  have h := @presence_faithful (.ofId "a") _ _ [.plain "outer" (.struct [.plain "inner" (.struct
    [.plain "note" .utf8 false]) true]) true] 2 rfl rfl
  obtain ⟨metadata, hmetadata, -, -, htells⟩ := h.2.2
  exact ⟨_, _, rfl, rfl, h.1, metadata, hmetadata, htells⟩

end Document

end DocumentStore
