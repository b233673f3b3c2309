import DocumentStore.Proofs.FittingRows
import DocumentStore.Proofs.Rearrangement
import DocumentStore.Proofs.RowRoundTrip
import DocumentStore.Store.Table

/-!
# Batches of documents

Documents that have rows always form a batch, in tables that have been rearranged as well. Going
through a batch only puts the columns of a row and the members of its structs into the order of the
schema. What is read of a row so arranged is what is read of the row, errors included, so the batch
reads back as the rows do: all of them, or with the error of the first row that cannot be read.
-/

set_option autoImplicit false

namespace DocumentStore

/-! ## Looking up in arranged rows -/

namespace Row

variable {fields : List Field} {row : Row}

/-- An arranged record has the arranged values of the record. -/
theorem get?_arranged (nodup : (fields.map FieldOf.name).Nodup) {field : Field}
    (hfield : field ∈ fields) {cell : Cell} (h : row.get? field.name = some cell) :
    (row.arranged fields).get? field.name = some (Cell.arranged field.type cell) := by
  have hnames : ((Cell.arrangedMembers (.struct row) fields).map Prod.fst).Nodup := by
    rw [Cell.arrangedMembers_eq_map, List.map_map]
    exact nodup
  have hmem : (field.name, Cell.arranged field.type cell) ∈
      Cell.arrangedMembers (.struct row) fields := by
    rw [Cell.arrangedMembers_eq_map]
    refine List.mem_map.mpr ⟨field, hfield, ?_⟩
    rw [Cell.member, h, Option.getD_some]
  unfold Row.arranged
  rw [Record.get?_ofList hnames]
  exact lookup_of_mem hnames hmem

/-- An arranged record has no other members than the fields. -/
theorem get?_arranged_eq_none (nodup : (fields.map FieldOf.name).Nodup) {name : String}
    (h : name ∉ fields.map FieldOf.name) : (row.arranged fields).get? name = none := by
  have hnames : (Cell.arrangedMembers (.struct row) fields).map Prod.fst =
      fields.map FieldOf.name := by
    rw [Cell.arrangedMembers_eq_map, List.map_map]
    rfl
  unfold Row.arranged
  rw [Record.get?_ofList (by rwa [hnames])]
  exact (lookup_eq_none_iff_not_mem _ _).mpr (by rwa [hnames])

/-- Flags stay what they are. -/
theorem flag?_arranged (level : Field.HasFlags fields) {field : Field}
    (hfield : field ∈ Field.declared fields) {b : Bool} (h : row.flag? field.name = some b) :
    (row.arranged fields).flag? field.name = some b := by
  unfold Row.flag? at h
  simp only [Option.bind_eq_bind, Option.bind_eq_some_iff] at h
  obtain ⟨held, hheld, record, hrecord, flag, hflag, hb⟩ := h
  cases held with
  | struct members =>
    cases hrecord
    cases flag with
    | boolean value =>
      cases hb
      obtain ⟨flags, annotations, hmem, hperm⟩ := level.flags
      have hflags : (row.arranged fields).get? Column.flags =
          some (.struct (Row.arranged flags record)) :=
        get?_arranged level.nodup hmem hheld
      have hnodup : (flags.map FieldOf.name).Nodup := by
        rw [(hperm.map FieldOf.name).nodup_iff]
        unfold Field.flagsOf
        rw [List.map_map]
        exact Field.nodup_declared level.nodup
      have hboolean : FieldOf.plain field.name .boolean false ∈ flags :=
        hperm.mem_iff.mpr (List.mem_map.mpr ⟨field, hfield, rfl⟩)
      have hvalue : (Row.arranged flags record).get? field.name = some (.boolean b) :=
        get?_arranged hnodup hboolean hflag
      unfold Row.flag?
      rw [hflags]
      simp only [Cell.members?, Option.bind_eq_bind, Option.bind_some, hvalue, Cell.bool?]
    | _ => cases hb
  | _ => cases hrecord

end Row

/-! ## Arranged values are read alike -/

namespace Document

/-- The entries of a level are read in the same way when it is arranged, if its values are. -/
theorem entriesOf_arranged {fields : List Field} {entries : Option Metadata} {record : Row}
    (level : Field.HasFlags fields)
    (flag : ∀ field ∈ Field.declared fields,
      record.flag? field.name = some (Metadata.valueIn entries field).isNone)
    (there : ∀ field ∈ Field.declared fields, ∃ cell, record.get? field.name = some cell)
    (values : ∀ field ∈ Field.declared fields, ∀ cell, record.get? field.name = some cell →
      ∀ path, valueOf path (some (Cell.arranged field.type cell)) field.type =
        valueOf path (some cell) field.type) (path : String) (found : Metadata) :
    entriesOf (Row.arranged fields record) path fields found = entriesOf record path fields found := by
  refine entriesOf_readAlike (fun field hfield => ?_) (fun field hfield _ path => ?_) path found
  · rw [Row.flag?_arranged level hfield (flag field hfield), flag field hfield]
  · obtain ⟨cell, hcell⟩ := there field hfield
    rw [Row.get?_arranged level.nodup (Field.mem_declared.mp hfield).1 hcell, hcell]
    exact values field hfield cell hcell path

/-- A stored value is read in the same way when its members are arranged. -/
theorem valueOf_arranged {type : DataType} {nullable : Bool} {value : Option MetaValue}
    {cell : Cell} (h : Stored type nullable value cell) :
    ∀ path, valueOf path (some (Cell.arranged type cell)) type =
      valueOf path (some cell) type := by
  induction h with
  | leaf leaf =>
    intro path
    rw [Cell.arranged_leaf (members?_eq_none leaf)]
  | absentLeaf leaf =>
    intro path
    rw [Cell.arranged_leaf (members?_eq_none leaf)]
  | null => exact fun _ => rfl
  | @struct fields nullable entries record level flag there below ih =>
    intro path
    show valueOf path (some (.struct (Row.arranged fields record))) (.struct fields) = _
    rw [valueOf_struct, valueOf_struct, entriesOf_arranged level flag there ih]

end Document

/-! ## Arranged rows store their documents -/

/-- What stands for a value still does when its members are arranged. -/
theorem Stored.arranged {type : DataType} {nullable : Bool} {value : Option MetaValue} {cell : Cell}
    (h : Stored type nullable value cell) :
    Stored type nullable value (Cell.arranged type cell) := by
  induction h with
  | leaf leaf h =>
    rw [Cell.arranged_leaf (Document.members?_eq_none leaf)]
    exact .leaf leaf h
  | absentLeaf leaf h =>
    rw [Cell.arranged_leaf (Document.members?_eq_none leaf)]
    exact .absentLeaf leaf h
  | null => exact .null
  | @struct fields nullable entries record level flag there below ih =>
    show Stored (.struct fields) nullable (entries.map MetaValue.map)
      (.struct (Row.arranged fields record))
    have hget : ∀ field ∈ Field.declared fields, ∀ cell, record.get? field.name = some cell →
        (Row.arranged fields record).get? field.name = some (Cell.arranged field.type cell) :=
      fun field hfield _ hcell =>
        Row.get?_arranged level.nodup (Field.mem_declared.mp hfield).1 hcell
    refine .struct level ?_ ?_ ?_
    · intro field hfield
      exact Row.flag?_arranged level hfield (flag field hfield)
    · intro field hfield
      obtain ⟨cell, hcell⟩ := there field hfield
      exact ⟨_, hget field hfield cell hcell⟩
    · intro field hfield cell hcell
      obtain ⟨held, hheld⟩ := there field hfield
      rw [hget field hfield held hheld] at hcell
      cases hcell
      exact ih field hfield held hheld

namespace Document

variable {document : Document} {schema : Schema} {metadata : List Field} {size : Int32} {row : Row}

/-- A column of an arranged row holds the arranged value. -/
theorem ColumnHolds.arranged {fields : List Field} (level : Field.HasFlags fields) {field : Field}
    (hfield : field ∈ Field.declared fields) {value : Option Cell}
    (h : ColumnHolds row field.name value) :
    ColumnHolds (row.arranged fields) field.name (value.map (Cell.arranged field.type)) where
  flag := by
    rw [Option.isNone_map]
    exact Row.flag?_arranged level hfield h.flag
  held := by
    intro cell hcell
    obtain ⟨held, hheld, rfl⟩ := Option.map_eq_some_iff.mp hcell
    exact Row.get?_arranged level.nodup (Field.mem_declared.mp hfield).1 (h.held held hheld)

/-- A leaf column holds the same in an arranged row. -/
theorem ColumnHolds.arranged_leaf {fields : List Field} (level : Field.HasFlags fields)
    {field : Field} (hfield : field ∈ Field.declared fields)
    (leaf : field.type.members? = none) {value : Option Cell}
    (h : ColumnHolds row field.name value) :
    ColumnHolds (row.arranged fields) field.name value := by
  have hvalue : value.map (Cell.arranged field.type) = value := by
    cases value with
    | none => rfl
    | some cell => rw [Option.map_some, Cell.arranged_leaf leaf]
  rw [← hvalue]
  exact h.arranged level hfield

/-- A leaf column that stores null where nothing is there does so in an arranged row. -/
theorem NullableHolds.arranged {fields : List Field} (level : Field.HasFlags fields) {field : Field}
    (hfield : field ∈ Field.declared fields) (leaf : field.type.members? = none)
    {value : Option Cell} (h : NullableHolds row field.name value) :
    NullableHolds (row.arranged fields) field.name value where
  toColumnHolds := h.toColumnHolds.arranged_leaf level hfield leaf
  stored := by
    rw [Row.get?_arranged level.nodup (Field.mem_declared.mp hfield).1 h.stored,
      Cell.arranged_leaf leaf]

/-- A row that stores a document still does when it is arranged. -/
theorem StoredIn.arranged (table : schema.IsTable metadata size)
    (h : document.StoredIn metadata row) :
    document.StoredIn metadata (row.arranged schema.fields) := by
  have hcolumn : ∀ field ∈ Schema.documentColumns metadata size,
      field ∈ Field.declared schema.fields := fun field hfield => table.mem_declared_of_mem hfield
  have hmissing : ∀ name : String, name ≠ Column.flags → name ∉ Column.flagged →
      (row.arranged schema.fields).get? name = none := by
    intro name hflags hname
    apply Row.get?_arranged_eq_none table.level.nodup
    intro hmem
    obtain ⟨field, hfield, rfl⟩ := List.mem_map.mp hmem
    apply hname
    rw [← Schema.documentColumns_names metadata size, ← (table.columns.map FieldOf.name).mem_iff]
    exact List.mem_map.mpr ⟨field, Field.mem_declared.mpr ⟨hfield, hflags⟩, rfl⟩
  simp only [Schema.documentColumns, List.forall_mem_cons] at hcolumn
  obtain ⟨hblob, hcontent, hdataframe, hid, hmetadata, hvector, -⟩ := hcolumn
  constructor
  · exact Row.get?_arranged table.level.nodup (Field.mem_declared.mp hid).1 h.id
  · exact h.content.arranged table.level hcontent rfl
  · exact h.blob.arranged table.level hblob rfl
  · exact h.dataframe.arranged table.level hdataframe rfl
  · exact h.vector.arranged_leaf table.level hvector rfl
  · obtain ⟨cell, hholds, hstored⟩ := h.metadata
    exact ⟨_, hholds.arranged table.level hmetadata, hstored.arranged⟩
  · exact hmissing _ (by decide) (by decide)
  · exact hmissing _ (by decide) (by decide)

/-- The row of a document is read in the same way when it is arranged, errors included. -/
theorem ofRow_arranged (table : schema.IsTable metadata size)
    (h : document.toRow schema = .ok row) :
    Document.ofRow (row.arranged schema.fields) schema = Document.ofRow row schema := by
  have hstoredIn := storedIn_toRow table h
  have hfield : .plain Column.metadata (.struct metadata) false ∈
      Field.declared schema.fields :=
    table.mem_declared_of_mem (by simp [Schema.documentColumns])
  obtain ⟨_, hholds, hstored⟩ := hstoredIn.metadata
  obtain ⟨record, rfl⟩ := exists_record hstored
  have hentries : entriesOf (Row.arranged metadata record) Column.metadata metadata Dict.empty =
      entriesOf record Column.metadata metadata Dict.empty := by
    generalize some (MetaValue.map document.metadata) = value? at hstored
    cases hstored with
    | leaf leaf => cases leaf
    | absentLeaf leaf => cases leaf
    | struct level flag there below =>
      exact entriesOf_arranged level flag there
        (fun field hfield cell hcell => valueOf_arranged (below field hfield cell hcell)) _ _
  rw [ofRow_storedIn table hstoredIn hholds, ← hentries]
  exact ofRow_storedIn table (hstoredIn.arranged table) (hholds.arranged table.level hfield)

end Document

/-! ## Documents through batches -/

namespace Batch

variable {schema : Schema} {metadata : List Field} {size : Int32}

/-- Documents that have rows form a batch, which has these rows, arranged. -/
theorem exists_toRows_ofDocuments (table : schema.IsTable metadata size)
    {documents : List Document} {rows : List Row}
    (h : (documents.mapM fun document => document.toRow schema) = .ok rows) :
    ∃ batch, Batch.ofDocuments schema documents = .ok batch ∧
      batch.toRows = .ok (rows.map (Row.arranged schema.fields)) := by
  have hfits : ∀ row ∈ rows, Cell.Fits (.struct schema.fields) (.struct row) := by
    intro row hrow
    obtain ⟨document, -, hdocument⟩ := exists_related ((mapM_eq_ok_iff _ _ _).mp h).flip hrow
    exact Document.fits_toRow table hdocument
  obtain ⟨batch, hbatch, hread⟩ := toRows_ofRows table.storable table.fields_ne_nil hfits
  refine ⟨batch, ?_, hread⟩
  unfold Batch.ofDocuments
  rw [h, ok_bind, hbatch]

/-- Documents that have rows form a batch, which is read as their rows are. -/
theorem toDocuments_of_rows (table : schema.IsTable metadata size) {documents : List Document}
    {rows : List Row} (h : (documents.mapM fun document => document.toRow schema) = .ok rows) :
    ∃ batch, Batch.ofDocuments schema documents = .ok batch ∧
      batch.toDocuments schema = rows.mapM fun row => Document.ofRow row schema := by
  obtain ⟨batch, hbatch, hread⟩ := exists_toRows_ofDocuments table h
  refine ⟨batch, hbatch, ?_⟩
  unfold Batch.toDocuments
  rw [hread, ok_bind, List.mapM_map]
  apply mapM_congr_mem
  intro row hrow
  obtain ⟨document, -, hdocument⟩ := exists_related ((mapM_eq_ok_iff _ _ _).mp h).flip hrow
  exact Document.ofRow_arranged table hdocument

/-- A batch fails exactly as the rows of its documents do. -/
theorem ofDocuments_eq_error_iff (table : schema.IsTable metadata size) (documents : List Document)
    (e : Error) : Batch.ofDocuments schema documents = .error e ↔
      (documents.mapM fun document => document.toRow schema) = .error e := by
  cases h : documents.mapM fun document => document.toRow schema with
  | error e' =>
    unfold Batch.ofDocuments
    rw [h, error_bind]
    constructor <;> rintro ⟨⟩ <;> rfl
  | ok rows =>
    obtain ⟨batch, hbatch, -⟩ := toDocuments_of_rows table h
    rw [hbatch]
    constructor <;> rintro ⟨⟩

end Batch

end DocumentStore
