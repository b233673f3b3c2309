import DocumentStore.Proofs.BeyondCalendar
import DocumentStore.Proofs.CanonicalForms
import DocumentStore.Proofs.StoredDocuments

/-!
# Conforming documents

A document conforms to declared metadata and a width when it has an id, its embedding has the width,
and every declared key that it has holds a value that the declared type takes. New tables store
these documents and no others. Whatever else a document may be is refused as invalid, text beyond
the calendar apart: placeholders are there for every type that may be declared, and the columns of a
table are all known.
-/

set_option autoImplicit false

namespace DocumentStore

/-- A field of the type, which takes nulls or does not, takes the value. What a map has under keys
that are not declared does not matter. -/
inductive MetaValue.Conforms : DataType → Bool → MetaValue → Prop
  | null {type : DataType} : Conforms type true .null
  | utf8 {nullable : Bool} {s : String} : Conforms .utf8 nullable (.string s)
  | int32 {nullable : Bool} {n : Int64} (lower : -2147483648 ≤ n.toInt)
      (upper : n.toInt ≤ 2147483647) : Conforms .int32 nullable (.int n)
  | int64 {nullable : Bool} {n : Int64} : Conforms .int64 nullable (.int n)
  | float32 {nullable : Bool} {x : Binary64} : Conforms .float32 nullable (.float x)
  | float32OfInt {nullable : Bool} {n : Int64} : Conforms .float32 nullable (.int n)
  | float64 {nullable : Bool} {x : Binary64} : Conforms .float64 nullable (.float x)
  | float64OfInt {nullable : Bool} {n : Int64} : Conforms .float64 nullable (.int n)
  | boolean {nullable : Bool} {b : Bool} : Conforms .boolean nullable (.bool b)
  | binary {nullable : Bool} {b : List UInt8} : Conforms .binary nullable (.bytes b)
  | timestamp {nullable : Bool} {t : Instant} :
      Conforms (.timestamp .second none) nullable (.timestamp t)
  | timestampText {nullable : Bool} {s : String} {t : Instant} (h : Instant.parse s = .ok t) :
      Conforms (.timestamp .second none) nullable (.string s)
  | map {nullable : Bool} {fields : List Field} {entries : Metadata}
      (held : ∀ field ∈ Field.declared fields, ∀ value, entries.get? field.name = some value →
        Conforms field.type field.nullable value) :
      Conforms (.struct fields) nullable (.map entries)

/-- A document that a new table with the given metadata fields and vector width takes. -/
structure Document.Conforms (document : Document) (fields : List Field) (width : Int64) : Prop where
  hasId : document.id ≠ ""
  embedding : ∀ values, document.embedding = some values → (values.length : Int) = width.toInt
  metadata : MetaValue.Conforms (.struct fields) false (.map document.metadata)

/-- An error that a document can cause. -/
def Error.OfDocument (e : Error) : Prop := (∃ cause, e = .validation cause) ∨ e = .beyondCalendar

/-! ## Leaves -/

/-- An instant is read exactly from the texts that stand for one. -/
theorem Instant.parse_eq_ok_iff (s : String) (t : Instant) :
    Instant.parse s = .ok t ↔ Time.read s = .instant t := by
  constructor
  · exact Instant.read_of_ofText
  · intro h
    unfold Instant.parse Instant.ofText
    rw [h]

/-- A cell that encodes a value is what storing the value gives. -/
theorem Cell.Encodes.ofMetaValue_eq {type : DataType} {nullable : Bool} {value : MetaValue}
    {cell : Cell} (h : Cell.Encodes type nullable value cell) (path : String) :
    Cell.ofMetaValue path type nullable value = .ok cell := by
  cases h with
  | null =>
    cases type with
    | timestamp unit zone => cases unit <;> rfl
    | _ => rfl
  | int32 n range => exact if_pos range
  | @timestampText _ zone s t reads =>
    have hread : Instant.ofText s (.validation (.metadataTimestamp path s)) = .ok t := by
      unfold Instant.ofText
      rw [reads]
    show (Instant.ofText s (.validation (.metadataTimestamp path s)) >>= fun t =>
      pure (Cell.timestamp t.seconds)) = _
    rw [hread]
    rfl
  | _ => rfl

/-- The values that a leaf takes are those that have an encoding. -/
theorem MetaValue.conforms_leaf_iff {type : DataType} (leaf : type.isMetadataLeaf = true)
    (nullable : Bool) (value : MetaValue) :
    value.Conforms type nullable ↔ ∃ cell, Cell.Encodes type nullable value cell := by
  have hmin : Int32.minValue.toInt = -2147483648 := by decide
  have hmax : Int32.maxValue.toInt = 2147483647 := by decide
  constructor
  · intro h
    cases h with
    | null => exact ⟨_, .null⟩
    | utf8 => exact ⟨_, .utf8 _⟩
    | int32 lower upper => exact ⟨_, .int32 _ ⟨by omega, by omega⟩⟩
    | int64 => exact ⟨_, .int64 _⟩
    | float32 => exact ⟨_, .float32 _⟩
    | float32OfInt => exact ⟨_, .float32OfInt _⟩
    | float64 => exact ⟨_, .float64 _⟩
    | float64OfInt => exact ⟨_, .float64OfInt _⟩
    | boolean => exact ⟨_, .boolean _⟩
    | binary => exact ⟨_, .binary _⟩
    | timestamp => exact ⟨_, .timestamp none _⟩
    | timestampText h => exact ⟨_, .timestampText none ((Instant.parse_eq_ok_iff _ _).mp h)⟩
    | map => cases leaf
  · rintro ⟨cell, h⟩
    cases h with
    | null => exact .null
    | utf8 => exact .utf8
    | int32 n range => exact .int32 (by omega) (by omega)
    | int64 => exact .int64
    | float32 => exact .float32
    | float32OfInt => exact .float32OfInt
    | float64 => exact .float64
    | float64OfInt => exact .float64OfInt
    | boolean => exact .boolean
    | binary => exact .binary
    | timestamp zone t =>
      cases zone with
      | none => exact .timestamp
      | some zone => cases leaf
    | timestampText zone reads =>
      cases zone with
      | none => exact .timestampText ((Instant.parse_eq_ok_iff _ _).mpr reads)
      | some zone => cases leaf

/-- A struct takes null where it may, and otherwise maps whose values its fields take. -/
theorem MetaValue.conforms_struct_iff (fields : List Field) (nullable : Bool) (value : MetaValue) :
    value.Conforms (.struct fields) nullable ↔ (value = .null ∧ nullable = true) ∨
      ∃ entries, value = .map entries ∧ ∀ field ∈ Field.declared fields, ∀ held,
        entries.get? field.name = some held → held.Conforms field.type field.nullable := by
  constructor
  · intro h
    cases h with
    | null => exact .inl ⟨rfl, rfl⟩
    | map held => exact .inr ⟨_, rfl, held⟩
  · rintro (⟨rfl, rfl⟩ | ⟨entries, rfl, held⟩)
    · exact .null
    · exact .map held

/-- A value that cannot be stored is an error of its document. -/
theorem Cell.ofMetaValue_error {path : String} {type : DataType} {nullable : Bool}
    {value : MetaValue} {e : Error} (h : Cell.ofMetaValue path type nullable value = .error e) :
    e.OfDocument := by
  unfold Cell.ofMetaValue at h
  split at h
  case h_1 =>
    split at h
    · cases h
    · cases h
      exact .inl ⟨_, rfl⟩
  case h_3 =>
    split at h
    · cases h
    · cases h
      exact .inl ⟨_, rfl⟩
  case h_12 zone s =>
    rcases (bind_eq_error_iff _ _ _).mp h with h | ⟨t, -, h⟩
    · unfold Instant.ofText at h
      split at h
      · cases h
      · cases h
        exact .inl ⟨_, rfl⟩
      · cases h
        exact .inr rfl
    · cases h
  case h_13 =>
    cases h
    exact .inl ⟨_, rfl⟩
  all_goals cases h

namespace Document

/-! ## Levels -/

/-- Every leaf type of metadata has a zero. -/
theorem leafPlaceholder_isOk {type : DataType} (leaf : type.isMetadataLeaf = true) (path : String)
    (nullable : Bool) : ∃ cell, Cell.leafPlaceholder path type nullable = .ok cell := by
  cases nullable with
  | true => exact ⟨.null, rfl⟩
  | false =>
    cases type with
    | timestamp unit zone =>
      cases unit with
      | second => exact ⟨_, rfl⟩
      | millisecond => cases leaf
    | utf8 | int32 | int64 | float32 | float64 | boolean | binary => exact ⟨_, rfl⟩
    | _ => cases leaf

/-- The fields of a level have slots when each of them does. -/
theorem fieldSlots_isOk_iff (entries : Option Metadata) (path : String) (fields : List Field) :
    (∃ slots, fieldSlots entries path fields = .ok slots) ↔
      ∀ field ∈ Field.declared fields, ∃ slot, fieldSlot entries path field = .ok slot := by
  rw [fieldSlots_eq_mapM, mapM_isOk_iff]
  simp only [bind_pure_eq_map, map_isOk_iff]

/-- A placeholder stands for every flagged type. -/
theorem placeholder_isOk {type : DataType} (flagged : type.Flagged) :
    ∀ path nullable, ∃ cell, placeholder path nullable type = .ok cell := by
  induction flagged with
  | leaf leaf =>
    intro path nullable
    rw [placeholder_leaf (members?_eq_none leaf)]
    exact leafPlaceholder_isOk leaf path nullable
  | @struct fields _ _ ih =>
    intro path nullable
    rw [placeholder, bind_pure_eq_map, map_isOk_iff, fieldSlots_isOk_iff]
    intro field hfield
    obtain ⟨hfield, hname⟩ := Field.mem_declared.mp hfield
    unfold fieldSlot Metadata.valueIn
    rw [Option.bind_none]
    dsimp only
    rw [bind_pure_eq_map, map_isOk_iff]
    exact ih field hfield hname _ _

/-- A field has a slot when its value, if it has one, can be stored. -/
theorem fieldSlot_isOk_iff {field : Field} (flagged : field.type.Flagged) (entries : Metadata)
    (path : String) :
    (∃ slot, fieldSlot (some entries) path field = .ok slot) ↔
      ∀ value, entries.get? field.name = some value →
        ∃ cell, storedValue (path ++ "." ++ field.name) field.nullable value field.type =
          .ok cell := by
  have hentry : Metadata.valueIn (some entries) field = entries.get? field.name := rfl
  unfold fieldSlot
  rw [hentry]
  cases entries.get? field.name with
  | none =>
    dsimp only
    rw [bind_pure_eq_map, map_isOk_iff]
    exact iff_of_true (placeholder_isOk flagged _ _) (by simp)
  | some value =>
    dsimp only
    rw [bind_pure_eq_map, map_isOk_iff]
    simp

/-- A value can be stored in a flagged type when it conforms to it. -/
theorem storedValue_isOk_iff {type : DataType} (flagged : type.Flagged) :
    ∀ path nullable value, (∃ cell, storedValue path nullable value type = .ok cell) ↔
      value.Conforms type nullable := by
  induction flagged with
  | leaf leaf =>
    intro path nullable value
    rw [storedValue_leaf (members?_eq_none leaf), MetaValue.conforms_leaf_iff leaf]
    exact ⟨fun ⟨cell, h⟩ => ⟨cell, Cell.encodes_of_eq_ok h⟩,
      fun ⟨cell, h⟩ => ⟨cell, h.ofMetaValue_eq path⟩⟩
  | @struct fields _ below ih =>
    intro path nullable value
    cases value with
    | map entries =>
      rw [storedValue, bind_pure_eq_map, map_isOk_iff, fieldSlots_isOk_iff]
      have hfield : ∀ field ∈ Field.declared fields,
          ((∃ slot, fieldSlot (some entries) path field = .ok slot) ↔
            ∀ value, entries.get? field.name = some value →
              value.Conforms field.type field.nullable) := by
        intro field hfield
        obtain ⟨hfield, hname⟩ := Field.mem_declared.mp hfield
        rw [fieldSlot_isOk_iff (below field hfield hname)]
        exact forall₂_congr fun value _ => ih field hfield hname _ _ _
      rw [forall₂_congr hfield, MetaValue.conforms_struct_iff]
      simp
    | null =>
      rw [storedValue]
      cases nullable with
      | true => exact iff_of_true ⟨_, if_pos rfl⟩ .null
      | false =>
        rw [if_neg Bool.false_ne_true]
        exact iff_of_false (by simp) fun h => by cases h
    | _ =>
      rw [storedValue]
      · exact iff_of_false (by simp) fun h => by cases h
      all_goals simp

/-- A value that cannot be stored in a flagged type is invalid, or comes to a text beyond the
calendar. -/
theorem storedValue_error {type : DataType} (flagged : type.Flagged) :
    ∀ path nullable value e, storedValue path nullable value type = .error e → e.OfDocument := by
  induction flagged with
  | leaf leaf =>
    intro path nullable value e h
    rw [storedValue_leaf (members?_eq_none leaf)] at h
    exact Cell.ofMetaValue_error h
  | @struct fields _ below ih =>
    intro path nullable value e h
    cases value with
    | map entries =>
      rw [storedValue, bind_pure_eq_map, map_eq_error_iff, fieldSlots_eq_mapM] at h
      obtain ⟨before, field, after, hlevel, -, h⟩ := (mapM_eq_error_iff _ _ _).mp h
      have hfield : field ∈ Field.declared fields := by simp [hlevel]
      obtain ⟨hfield, hname⟩ := Field.mem_declared.mp hfield
      rw [bind_pure_eq_map, map_eq_error_iff] at h
      unfold fieldSlot at h
      split at h
      · rw [bind_pure_eq_map, map_eq_error_iff] at h
        exact ih field hfield hname _ _ _ _ h
      · obtain ⟨cell, hcell⟩ := placeholder_isOk (below field hfield hname)
          (path ++ "." ++ field.name) field.nullable
        rw [hcell] at h
        cases h
    | null =>
      rw [storedValue] at h
      split at h
      · cases h
      · cases h
        exact .inl ⟨_, rfl⟩
    | _ =>
      rw [storedValue] at h
      · cases h
        exact .inl ⟨_, rfl⟩
      all_goals simp

end Document

/-! ## From declared to canonical metadata -/

/-- A canonical type takes what the declared type takes. -/
theorem DataType.HasCanonical.conforms_iff {type canonical : DataType}
    (h : type.HasCanonical canonical) :
    type.Declarable → ∀ nullable (value : MetaValue),
      value.Conforms canonical nullable ↔ value.Conforms type nullable := by
  induction h with
  | leaf => exact fun _ _ _ => Iff.rfl
  | @struct fields members _ names kept _ ih =>
    intro declarable nullable value
    obtain ⟨proper, below⟩ := declarable.names_and_below
    have hmembers : Field.declared (Field.flagsFor members :: members) = members := by
      rw [Field.declared_flagsFor_cons]
      exact Field.declared_eq_self (proper.perm names.symm).unreserved
    rw [MetaValue.conforms_struct_iff, MetaValue.conforms_struct_iff, hmembers,
      Field.declared_eq_self proper.unreserved]
    refine or_congr_right (exists_congr fun entries => and_congr_right fun _ => ?_)
    constructor
    · intro h field hfield held hheld
      obtain ⟨member, hmember, hname⟩ := Field.exists_named names.symm hfield
      rw [← ih field hfield member hmember hname (below field hfield),
        ← (kept field hfield member hmember hname).1]
      exact h member hmember held (hname ▸ hheld)
    · intro h member hmember held hheld
      obtain ⟨field, hfield, hname⟩ := Field.exists_named names hmember
      rw [ih field hfield member hmember hname.symm (below field hfield),
        (kept field hfield member hmember hname.symm).1]
      exact h field hfield held (hname ▸ hheld)

namespace Document

/-! ## Columns -/

variable {document : Document} {schema : Schema} {metadata : List Field} {size : Int32}

/-- An optional column always has a slot. -/
theorem optionalSlot_isOk {field : Field} (nullable : field.nullable = true) (value : Option Cell) :
    ∃ slot, optionalSlot field value = .ok slot := by
  unfold optionalSlot Cell.leafPlaceholder
  cases value with
  | some cell => exact ⟨_, rfl⟩
  | none =>
    rw [if_pos nullable]
    exact ⟨_, rfl⟩

/-- A vector has a slot unless it has another width. -/
theorem vectorSlot_isOk_iff (document : Document) (width : Nat) :
    (∃ slot, document.vectorSlot width = .ok slot) ↔
      ∀ values, document.embedding = some values → values.length = width := by
  unfold vectorSlot
  cases document.embedding with
  | none => exact iff_of_true ⟨_, rfl⟩ (by simp)
  | some values =>
    dsimp only
    split
    · next h => exact iff_of_true ⟨_, rfl⟩ (by simpa using h)
    · next h => exact iff_of_false (by simp) (by simpa using h)

/-- A vector that has no slot is an error of its document. -/
theorem vectorSlot_error {width : Nat} {e : Error} (h : document.vectorSlot width = .error e) :
    e.OfDocument := by
  unfold vectorSlot at h
  split at h
  · split at h
    · cases h
    · cases h
      exact .inl ⟨_, rfl⟩
  · cases h

/-- Of the columns of a table only the embedding and the metadata can be refused. -/
theorem rootSlots_isOk_iff (document : Document) (table : schema.IsTable metadata size) :
    (∀ column ∈ Field.declared schema.fields,
      ∃ slot, document.rootSlot size.toInt.toNat metadata column = .ok slot) ↔
      (∀ values, document.embedding = some values → values.length = size.toInt.toNat) ∧
        (MetaValue.map document.metadata).Conforms (.struct metadata) false := by
  have hmetadata : (∃ slot, document.rootSlot size.toInt.toNat metadata
        (.plain Column.metadata (.struct metadata) false) = .ok slot) ↔
      (MetaValue.map document.metadata).Conforms (.struct metadata) false := by
    rw [← storedValue_isOk_iff table.flagged Column.metadata, storedValue]
    show (∃ slot, (fieldSlots (some document.metadata) Column.metadata metadata >>= fun slots =>
      pure (Slot.mk (.struct (Row.ofSlots slots)) true)) = .ok slot) ↔ _
    rw [bind_pure_eq_map, bind_pure_eq_map, map_isOk_iff, map_isOk_iff]
  have hmem : (∀ column ∈ Field.declared schema.fields,
        ∃ slot, document.rootSlot size.toInt.toNat metadata column = .ok slot) ↔
      ∀ column ∈ Schema.documentColumns metadata size,
        ∃ slot, document.rootSlot size.toInt.toNat metadata column = .ok slot :=
    forall_congr' fun column => by rw [table.columns.mem_iff]
  rw [hmem, ← hmetadata, ← vectorSlot_isOk_iff]
  unfold Schema.documentColumns
  simp only [List.forall_mem_cons]
  constructor
  · rintro ⟨-, -, -, -, hmetadata, hvector, -⟩
    exact ⟨hvector, hmetadata⟩
  · rintro ⟨hvector, hmetadata⟩
    exact ⟨optionalSlot_isOk rfl _, optionalSlot_isOk rfl _, optionalSlot_isOk rfl _, ⟨_, rfl⟩,
      hmetadata, hvector, by simp⟩

/-- A column without a slot is an error of its document. -/
theorem rootSlot_error (table : schema.IsTable metadata size) {column : Field}
    (hcolumn : column ∈ Field.declared schema.fields) {e : Error}
    (h : document.rootSlot size.toInt.toNat metadata column = .error e) : e.OfDocument := by
  have hoptional : ∀ {field : Field} {value : Option Cell}, field.nullable = true →
      optionalSlot field value = .error e → e.OfDocument := by
    intro field value nullable h
    obtain ⟨slot, hslot⟩ := optionalSlot_isOk nullable value
    rw [hslot] at h
    cases h
  have hcolumn := table.columns.mem_iff.mp hcolumn
  simp only [Schema.documentColumns, List.mem_cons, List.not_mem_nil, or_false] at hcolumn
  rcases hcolumn with rfl | rfl | rfl | rfl | rfl | rfl
  · exact hoptional rfl h
  · exact hoptional rfl h
  · exact hoptional rfl h
  · cases h
  · have hstored : storedValue Column.metadata false (.map document.metadata) (.struct metadata) =
        .error e := by
      rcases (bind_eq_error_iff _ _ _).mp h with h | ⟨slots, -, h⟩
      · rw [storedValue, h]
        rfl
      · cases h
    exact storedValue_error table.flagged _ _ _ _ hstored
  · exact vectorSlot_error h

/-- A table takes a document that has an id, an embedding of its width if any, and metadata that
conforms to that of the table. -/
theorem toRow_isOk_iff (document : Document) (table : schema.IsTable metadata size) :
    (∃ row, document.toRow schema = .ok row) ↔ document.id ≠ "" ∧
      (∀ values, document.embedding = some values → values.length = size.toInt.toNat) ∧
      (MetaValue.map document.metadata).Conforms (.struct metadata) false := by
  rw [toRow_eq document table, ← rootSlots_isOk_iff document table]
  split
  · next hid => exact iff_of_false (by simp) fun h => h.1 hid
  · next hid =>
    rw [and_iff_right hid, map_isOk_iff, mapM_isOk_iff]
    simp only [bind_pure_eq_map, map_isOk_iff]

/-- A document without a row is refused for what is in it. -/
theorem toRow_error (table : schema.IsTable metadata size) {e : Error}
    (h : document.toRow schema = .error e) : e.OfDocument := by
  rw [toRow_eq document table] at h
  split at h
  · cases h
    exact .inl ⟨_, rfl⟩
  · rw [map_eq_error_iff] at h
    obtain ⟨before, column, after, hlevel, -, h⟩ := (mapM_eq_error_iff _ _ _).mp h
    have hcolumn : column ∈ Field.declared schema.fields := by simp [hlevel]
    rw [bind_pure_eq_map, map_eq_error_iff] at h
    exact rootSlot_error table hcolumn h

/-- A new table stores exactly the documents that conform to its declared metadata and its width. Any
other document is invalid, unless storing it comes to a text that names an instant after the end of
the calendar; no error lies with the table, and none is internal. -/
theorem toRow_isOk_iff_conforms (document : Document) (fields : List Field) (width : Int64)
    (schema : Schema) (h : Schema.ofMetadata fields width = .ok schema) :
    ((∃ row, document.toRow schema = .ok row) ↔ document.Conforms fields width) ∧
    (¬document.Conforms fields width →
      (∃ cause, document.toRow schema = .error (.validation cause)) ∨
      (document.ReachesBeyond schema ∧ document.toRow schema = .error .beyondCalendar)) := by
  obtain ⟨canonical, hcanonical, table⟩ := Schema.isTable_ofMetadata h
  obtain ⟨hpos, hsize⟩ := Schema.toInt_size_of_ofMetadata h
  obtain ⟨declarable, hcanonical⟩ := (Schema.canonicalType_eq_ok_iff _ _ _).mp hcanonical
  have accepted : (∃ row, document.toRow schema = .ok row) ↔ document.Conforms fields width := by
    rw [toRow_isOk_iff document table, hcanonical.conforms_iff declarable]
    constructor
    · rintro ⟨hid, hembedding, hmetadata⟩
      refine ⟨hid, fun values hvalues => ?_, hmetadata⟩
      have hlength := hembedding values hvalues
      omega
    · rintro ⟨hid, hembedding, hmetadata⟩
      refine ⟨hid, fun values hvalues => ?_, hmetadata⟩
      have hlength := hembedding values hvalues
      omega
  refine ⟨accepted, fun hnot => ?_⟩
  cases hrow : document.toRow schema with
  | ok row => exact absurd (accepted.mp ⟨row, hrow⟩) hnot
  | error e =>
    rcases toRow_error table hrow with ⟨cause, rfl⟩ | rfl
    · exact .inl ⟨cause, rfl⟩
    · exact .inr ⟨(toRow_eq_beyondCalendar_iff document schema).mp hrow, rfl⟩

/-- The last integer that a field of 32 bits takes, below a struct, and the next one. -/
theorem toRow_isOk_iff_conforms_int32 :
    ∃ schema, Schema.ofMetadata
        [.plain "m" (.struct [.plain "n" .int32 false]) true] 1 = .ok schema ∧
      (∃ row, (⟨"k", none, none, none, none,
        ⟨[("m", .map ⟨[("n", .int 2147483647)]⟩)]⟩, none⟩ : Document).toRow schema = .ok row) ∧
      ∃ cause, (⟨"k", none, none, none, none,
        ⟨[("m", .map ⟨[("n", .int 2147483648)]⟩)]⟩, none⟩ : Document).toRow schema =
          .error (.validation cause) := by
  have conforms : ∀ n : Int64, (⟨"k", none, none, none, none,
      ⟨[("m", .map ⟨[("n", .int n)]⟩)]⟩, none⟩ : Document).Conforms
        [.plain "m" (.struct [.plain "n" .int32 false]) true] 1 ↔
      (MetaValue.int n).Conforms .int32 false := by
    intro n
    have hmetadata : (MetaValue.map ⟨[("m", .map ⟨[("n", .int n)]⟩)]⟩).Conforms
          (.struct [.plain "m" (.struct [.plain "n" .int32 false]) true]) false ↔
        (MetaValue.int n).Conforms .int32 false := by
      simp [MetaValue.conforms_struct_iff, Field.declared, FieldOf.plain, Column.flags, Dict.get?]
    exact ⟨fun h => hmetadata.mp h.metadata, fun h => ⟨by simp, by simp, hmetadata.mpr h⟩⟩
  have outside : ¬(MetaValue.int 2147483648).Conforms .int32 false := by
    intro h
    cases h with
    | int32 lower upper => exact absurd upper (by decide)
  refine ⟨_, rfl, (toRow_isOk_iff_conforms _ _ 1 _ rfl).1.mpr ((conforms _).mpr ?_), ?_⟩
  · exact .int32 (by decide) (by decide)
  · rcases (toRow_isOk_iff_conforms _ _ 1 _ rfl).2 (mt (conforms _).mp outside) with h | ⟨-, h⟩
    · exact h
    · cases h

end Document

end DocumentStore
