import DocumentStore.Proofs.ReadingTimes
import DocumentStore.Proofs.RowRoundTrip
import DocumentStore.Proofs.Widening

/-!
# Storing again what was read

What is read from the row of a document is its normal form, and every value of it is stored in the
cell it was read from: a number that was narrowed is not narrowed any further, and the text of a
second is read as that second. The exception are seconds before year zero, whose text is no
timestamp, so what was read is refused exactly when there is such a second in it. The data frame is
stored as what was read of its text; the row is the same if its numbers were read as they had been
written.
-/

set_option autoImplicit false

namespace DocumentStore

/-! ## Texts of instants -/

namespace Instant

/-- The text of an instant in a year of four digits is read as an instant in the same second. -/
theorem read_text {t : Instant} (h : Time.IsRereadable t.seconds.toInt) :
    ∃ t' : Instant, t'.seconds = t.seconds ∧ Time.read t.text = .instant t' := by
  rw [t.toInt_seconds] at h
  obtain ⟨t', hnanos, hread⟩ := Time.read_secondText (Or.inl rfl) h.1 h.2
  refine ⟨t', ?_, hread⟩
  rw [seconds, hnanos, Int.mul_ediv_cancel _ (by decide)]
  rfl

/-- The text of any other instant is no timestamp. -/
theorem read_text_eq_invalid {t : Instant} (h : ¬ Time.IsRereadable t.seconds.toInt) :
    Time.read t.text = .invalid := by
  rw [t.toInt_seconds, Time.IsRereadable] at h
  by_cases hlow : t.nanos / Time.nanosPerSecond < Time.yearZero
  · exact Time.read_secondText_of_lt 'T' hlow
  · exact Time.read_secondText_of_gt 'T' (by omega)

/-- The text of an instant is stored as the second of the instant, if its year has four digits, and
not at all otherwise. -/
theorem ofMetaValue_text_iff (t : Instant) (path : String) (zone : Option String) (nullable : Bool)
    (cell : Cell) :
    Cell.ofMetaValue path (.timestamp .second zone) nullable (.string t.text) = .ok cell ↔
      cell = .timestamp t.seconds ∧ Time.IsRereadable t.seconds.toInt := by
  have hstore : Cell.ofMetaValue path (.timestamp .second zone) nullable (.string t.text) =
      Instant.ofText t.text (.validation (.metadataTimestamp path t.text)) >>=
        fun t' => .ok (.timestamp t'.seconds) := rfl
  rw [hstore, Instant.ofText]
  by_cases h : Time.IsRereadable t.seconds.toInt
  · obtain ⟨t', hseconds, hread⟩ := read_text h
    rw [hread, ok_bind, hseconds]
    simp [h, eq_comm]
  · rw [read_text_eq_invalid h]
    simp [h, error_bind]

end Instant

/-! ## Cells of normal forms -/

namespace Document

/-- Stores again what comes back for a value, or for the absence of one. -/
def restored (path : String) (nullable : Bool) (type : DataType) :
    Option MetaValue → Except Error Cell
  | some value => storedValue path nullable (value.normalized type) type
  | none => placeholder path nullable type

/-- What comes back is stored in the same cell as before, if every second stored of it has a year of
four digits, and not at all otherwise. -/
def Restores (type : DataType) (nullable : Bool) (value? : Option MetaValue) (cell : Cell) : Prop :=
  ∀ path again, restored path nullable type value? = .ok again ↔
    again = cell ∧ ∀ value, value? = some value → value.EverySecond Time.IsRereadable type

/-- A leaf without seconds stores its normal form in the same cell. -/
theorem restores_of_stored {type : DataType} {nullable : Bool} {value : MetaValue} {cell : Cell}
    (leaf : type.isMetadataLeaf = true) (hevery : value.EverySecond Time.IsRereadable type)
    (h : ∀ path, Cell.ofMetaValue path type nullable (value.normalizedLeaf type) = .ok cell) :
    Restores type nullable (some value) cell := by
  intro path again
  have hmembers := members?_eq_none leaf
  rw [restored, MetaValue.normalized_leaf hmembers, storedValue_leaf hmembers, h]
  simp [hevery, eq_comm]

/-- A single-precision number that came back in double precision is stored as it was. -/
theorem ofMetaValue_ofBinary32 (x : Binary32) (path : String) (nullable : Bool) :
    Cell.ofMetaValue path .float32 nullable (.ofBinary32 x) = .ok (.float32 x) := by
  show Except.ok (Cell.float32 ((x.convert Floating.Format.binary64).convert _)) = _
  rw [Floating.convert_convert Floating.Format.widens_binary32_binary64]

/-- What is stored in a leaf is stored in the same cell when it has come back. -/
theorem restores_leaf {type : DataType} {nullable : Bool} {value : MetaValue} {cell : Cell}
    (leaf : type.isMetadataLeaf = true) (h : Cell.Encodes type nullable value cell) :
    Restores type nullable (some value) cell := by
  cases h with
  | timestamp zone t =>
    intro path again
    simp only [Option.some.injEq, forall_eq', MetaValue.everySecond_instant_iff]
    exact t.ofMetaValue_text_iff path zone nullable again
  | @timestampText _ zone s t reads =>
    intro path again
    have hnormal : (MetaValue.string s).normalized (.timestamp .second zone) = .string t.text := by
      simp only [MetaValue.normalized, MetaValue.normalizedLeaf, reads]
    simp only [Option.some.injEq, forall_eq', MetaValue.everySecond_text_iff _ _ reads]
    rw [restored, hnormal]
    exact t.ofMetaValue_text_iff path zone nullable again
  | null =>
    refine restores_of_stored leaf (MetaValue.everySecond_null type) fun path => ?_
    cases type with
    | timestamp unit zone => cases unit <;> rfl
    | _ => rfl
  | int32 n range =>
    refine restores_of_stored leaf (MetaValue.everySecond_of_leaf rfl (by simp) _) ?_
    exact fun path => if_pos range
  | float32 x =>
    refine restores_of_stored leaf (MetaValue.everySecond_of_leaf rfl (by simp) _) ?_
    exact fun path => ofMetaValue_ofBinary32 _ path nullable
  | float32OfInt n =>
    refine restores_of_stored leaf (MetaValue.everySecond_of_leaf rfl (by simp) _) ?_
    exact fun path => ofMetaValue_ofBinary32 _ path nullable
  | _ =>
    refine restores_of_stored leaf (MetaValue.everySecond_of_leaf rfl (by simp) _) ?_
    exact fun path => rfl

/-- What stands for an absent leaf does not depend on where it stands. -/
theorem leafPlaceholder_path {type : DataType} {nullable : Bool} {cell : Cell} {path : String}
    (h : Cell.leafPlaceholder path type nullable = .ok cell) (path' : String) :
    Cell.leafPlaceholder path' type nullable = .ok cell := by
  unfold Cell.leafPlaceholder at h ⊢
  cases nullable with
  | true => exact h
  | false =>
    cases type with
    | timestamp unit zone =>
      cases unit with
      | second => exact h
      | millisecond => cases h
    | _ => cases h <;> rfl

/-- An absent leaf is stored as the same placeholder again. -/
theorem restores_absentLeaf {type : DataType} {nullable : Bool} {cell : Cell} {path : String}
    (leaf : type.isMetadataLeaf = true)
    (h : Cell.leafPlaceholder path type nullable = .ok cell) : Restores type nullable none cell := by
  intro path' again
  rw [restored, placeholder_leaf (members?_eq_none leaf), leafPlaceholder_path h path']
  simp [eq_comm]

/-! ## Levels of normal forms -/

/-- What comes back of a level of metadata. -/
def normalizedLevel (entries : Option Metadata) (fields : List Field) : Option Metadata :=
  entries.map fun held => Dict.ofList (MetaValue.normalizedEntries held fields)

/-- A field of a level that came back has what came back for it. -/
theorem valueIn_normalizedLevel {fields : List Field} (nodup : (fields.map FieldOf.name).Nodup)
    (entries : Option Metadata) {field : Field} (hfield : field ∈ Field.declared fields) :
    Metadata.valueIn (normalizedLevel entries fields) field =
      (Metadata.valueIn entries field).map fun value => value.normalized field.type := by
  obtain ⟨hmem, hname⟩ := Field.mem_declared.mp hfield
  cases entries with
  | none => rfl
  | some held => exact MetaValue.get?_normalizedEntries nodup held hmem hname

/-- A slot of a level that came back is filled again with what came back for its field. -/
theorem fieldSlot_normalizedLevel {fields : List Field} (nodup : (fields.map FieldOf.name).Nodup)
    (entries : Option Metadata) (path : String) {field : Field}
    (hfield : field ∈ Field.declared fields) :
    fieldSlot (normalizedLevel entries fields) path field =
      (restored (path ++ "." ++ field.name) field.nullable field.type
        (Metadata.valueIn entries field)).map fun cell =>
          Slot.mk cell (Metadata.valueIn entries field).isSome := by
  unfold fieldSlot
  rw [valueIn_normalizedLevel nodup entries hfield]
  cases Metadata.valueIn entries field with
  | none =>
    dsimp only [Option.map_none, restored]
    cases placeholder (path ++ "." ++ field.name) field.nullable field.type <;> rfl
  | some value =>
    dsimp only [Option.map_some, restored]
    cases storedValue (path ++ "." ++ field.name) field.nullable (value.normalized field.type)
      field.type <;> rfl

/-- The slots of a level that came back are the slots it was read from, if every stored second has a
year of four digits. -/
theorem fieldSlots_normalizedLevel {fields : List Field} {entries : Option Metadata}
    {slots : List (String × Slot)} (level : Field.HasFlags fields)
    (h : Field.Filled (fun field slot => slot.present = (Metadata.valueIn entries field).isSome ∧
      Restores field.type field.nullable (Metadata.valueIn entries field) slot.value) fields slots)
    (path : String) (again : List (String × Slot)) :
    fieldSlots (normalizedLevel entries fields) path fields = .ok again ↔
      again = slots ∧ ∀ field ∈ Field.declared fields, ∀ value,
        Metadata.valueIn entries field = some value →
          value.EverySecond Time.IsRereadable field.type := by
  rw [fieldSlots_eq_mapM]
  apply mapM_eq_ok_iff_of_forall₂
  refine h.forall₂.imp ?_
  rintro field ⟨name, slot⟩ ⟨hfield, rfl, hpresent, hrestores⟩ named
  rw [fieldSlot_normalizedLevel level.nodup entries path hfield, bind_eq_ok_iff]
  simp only [map_eq_ok_iff]
  constructor
  · rintro ⟨_, ⟨cell, hcell, rfl⟩, hnamed⟩
    obtain ⟨rfl, hevery⟩ := (hrestores _ cell).mp hcell
    cases hnamed
    exact ⟨by rw [← hpresent], hevery⟩
  · rintro ⟨rfl, hevery⟩
    exact ⟨slot, ⟨slot.value, (hrestores _ _).mpr ⟨rfl, hevery⟩, by rw [← hpresent]⟩, rfl⟩

/-- A level that came back is stored as the struct it was read from. -/
theorem restores_level {fields : List Field} {nullable : Bool} {entries : Option Metadata}
    {slots : List (String × Slot)} (level : Field.HasFlags fields)
    (h : Field.Filled (fun field slot => slot.present = (Metadata.valueIn entries field).isSome ∧
      Restores field.type field.nullable (Metadata.valueIn entries field) slot.value) fields slots) :
    Restores (.struct fields) nullable (entries.map .map) (.struct (Row.ofSlots slots)) := by
  intro path again
  have hstore : restored path nullable (.struct fields) (entries.map .map) =
      fieldSlots (normalizedLevel entries fields) path fields >>=
        fun slots => .ok (.struct (Row.ofSlots slots)) := by
    cases entries with
    | none => rw [Option.map_none, restored, placeholder]; rfl
    | some held => rw [Option.map_some, restored, MetaValue.normalized, storedValue]; rfl
  have hevery : (∀ value, entries.map MetaValue.map = some value →
      value.EverySecond Time.IsRereadable (.struct fields)) ↔
        ∀ field ∈ Field.declared fields, ∀ value, Metadata.valueIn entries field = some value →
          value.EverySecond Time.IsRereadable field.type := by
    cases entries with
    | none => simp [Metadata.valueIn]
    | some held => simp [Metadata.valueIn, MetaValue.everySecond_struct_iff]
  rw [hstore, bind_eq_ok_iff, hevery]
  simp only [fieldSlots_normalizedLevel level h]
  constructor
  · rintro ⟨_, ⟨rfl, hevery⟩, hagain⟩
    cases hagain
    exact ⟨rfl, hevery⟩
  · rintro ⟨rfl, hevery⟩
    exact ⟨slots, ⟨rfl, hevery⟩, rfl⟩

/-- Whatever is written for a value or its absence is written again for what comes back. -/
theorem restores_of_flagged {type : DataType} (flagged : type.Flagged) :
    (∀ path nullable value cell, storedValue path nullable value type = .ok cell →
      Restores type nullable (some value) cell) ∧
    (∀ path nullable cell, placeholder path nullable type = .ok cell →
      Restores type nullable none cell) := by
  refine encoded_induction restores_leaf restores_absentLeaf ?_ restores_level flagged
  intro fields path again
  rw [restored, MetaValue.normalized, storedValue, if_pos rfl]
  · simp [MetaValue.everySecond_null, eq_comm]
  · simp

/-! ## Documents that were read -/

variable {document : Document} {schema : Schema} {metadata : List Field} {size : Int32} {row : Row}

/-- The slot of the metadata column holds what is stored of the metadata. -/
theorem rootSlot_metadata (document : Document) (width : Nat) (metadata : List Field) :
    document.rootSlot width metadata (.plain Column.metadata (.struct metadata) false) =
      (storedValue Column.metadata false (.map document.metadata) (.struct metadata)).map
        fun cell => ⟨cell, true⟩ := by
  rw [storedValue]
  show (fieldSlots (some document.metadata) Column.metadata metadata >>= _) = _
  cases fieldSlots (some document.metadata) Column.metadata metadata <;> rfl

/-- The slot of a document column is filled again with what came back; that of the metadata only if
every stored second has a year of four digits. -/
theorem rootSlot_normalized (flagged : (DataType.struct metadata).Flagged) {field : Field}
    (hfield : field ∈ Schema.documentColumns metadata size) {slot : Slot}
    (h : document.rootSlot size.toInt.toNat metadata field = .ok slot) (again : Slot) :
    (document.normalized metadata).rootSlot size.toInt.toNat metadata field = .ok again ↔
      again = slot ∧
        (field.name = Column.metadata → document.EverySecond metadata Time.IsRereadable) := by
  -- besides metadata the document has come back as it was
  have hplain : (document.normalized metadata).rootSlot size.toInt.toNat metadata field = .ok slot →
      field.name ≠ Column.metadata → ((document.normalized metadata).rootSlot size.toInt.toNat
        metadata field = .ok again ↔ again = slot ∧
          (field.name = Column.metadata → document.EverySecond metadata Time.IsRereadable)) := by
    intro hsame hname
    rw [hsame, Except.ok.injEq]
    simp [hname, eq_comm]
  simp only [Schema.documentColumns, List.mem_cons, List.not_mem_nil, or_false] at hfield
  rcases hfield with rfl | rfl | rfl | rfl | rfl | rfl
  · exact hplain h (by decide)
  · exact hplain h (by decide)
  · exact hplain h (by decide)
  · exact hplain h (by decide)
  · rw [rootSlot_metadata, map_eq_ok_iff] at h ⊢
    obtain ⟨cell, hcell, rfl⟩ := h
    have hrestores := (restores_of_flagged flagged).1 _ _ _ _ hcell Column.metadata
    simp only [restored, MetaValue.normalized, Option.some.injEq, forall_eq'] at hrestores
    constructor
    · rintro ⟨cell', hcell', rfl⟩
      obtain ⟨rfl, hevery⟩ := (hrestores cell').mp hcell'
      exact ⟨rfl, fun _ => hevery⟩
    · rintro ⟨rfl, hevery⟩
      exact ⟨cell, (hrestores cell).mpr ⟨rfl, hevery rfl⟩, rfl⟩
  · exact hplain h (show Column.vector ≠ Column.metadata by decide)

/-- The normal form of a stored document is stored in the row of the document, if every stored second
has a year of four digits, and not at all otherwise. -/
theorem toRow_normalized_iff (table : schema.IsTable metadata size)
    (h : document.toRow schema = .ok row) (again : Row) :
    (document.normalized metadata).toRow schema = .ok again ↔
      again = row ∧ document.EverySecond metadata Time.IsRereadable := by
  obtain ⟨hid, -⟩ := (toRow_eq_ok_iff table).mp h
  obtain ⟨slots, rfl, hfilled⟩ := filled_toRow table h
  have hslots : ∀ others, ((Field.declared schema.fields).mapM fun field => do
      return (field.name, ← (document.normalized metadata).rootSlot size.toInt.toNat metadata
        field)) = .ok others ↔ others = slots ∧ ∀ field ∈ Field.declared schema.fields,
          field.name = Column.metadata → document.EverySecond metadata Time.IsRereadable := by
    apply mapM_eq_ok_iff_of_forall₂
    refine hfilled.forall₂.imp ?_
    rintro field ⟨name, slot⟩ ⟨hfield, rfl, hslot⟩ named
    have hagain := rootSlot_normalized table.flagged (table.columns.mem_iff.mp hfield) hslot
    simp only [bind_eq_ok_iff, hagain]
    constructor
    · rintro ⟨slot', ⟨rfl, hevery⟩, hnamed⟩
      cases hnamed
      exact ⟨rfl, hevery⟩
    · rintro ⟨rfl, hevery⟩
      exact ⟨slot, ⟨rfl, hevery⟩, rfl⟩
  have hmetadata : FieldOf.plain Column.metadata (.struct metadata) false ∈
      Field.declared schema.fields :=
    table.mem_declared_of_mem (by simp [Schema.documentColumns])
  rw [toRow_eq_ok_iff table]
  simp only [hslots]
  constructor
  · rintro ⟨-, _, rfl, rfl, hevery⟩
    exact ⟨rfl, hevery _ hmetadata rfl⟩
  · rintro ⟨rfl, hevery⟩
    exact ⟨hid, slots, rfl, rfl, fun _ _ _ => hevery⟩

/-! ## Data frames that were read -/

/-- The document with another data frame, or without one. -/
def withFrame (document : Document) (frame : Option DataFrame) : Document :=
  { document with dataframe := frame }

/-- The frame does not matter to the seconds that are stored. -/
theorem everySecond_withFrame (document : Document) (frame : Option DataFrame)
    (fields : List Field) (p : Int → Prop) :
    (document.withFrame frame).EverySecond fields p ↔ document.EverySecond fields p :=
  Iff.rfl

/-- A document that is stored is stored with any data frame. -/
theorem exists_toRow_withFrame (table : schema.IsTable metadata size)
    (h : document.toRow schema = .ok row) (frame : Option DataFrame) :
    ∃ again, (document.withFrame frame).toRow schema = .ok again := by
  obtain ⟨hid, slots, -, hslots⟩ := (toRow_eq_ok_iff table).mp h
  obtain ⟨others, hothers⟩ : ∃ others, (Field.declared schema.fields).mapM (fun field => do
      return (field.name,
        ← (document.withFrame frame).rootSlot size.toInt.toNat metadata field)) = .ok others := by
    refine (mapM_isOk_iff _ _).mpr fun field hfield => ?_
    obtain ⟨_, -, hnamed⟩ := exists_related ((mapM_eq_ok_iff _ _ _).mp hslots) hfield
    obtain ⟨slot, hslot, -⟩ := (bind_eq_ok_iff _ _ _).mp hnamed
    have hmade : ∃ slot,
        (document.withFrame frame).rootSlot size.toInt.toNat metadata field = .ok slot := by
      have hcolumn := table.columns.mem_iff.mp hfield
      simp only [Schema.documentColumns, List.mem_cons, List.not_mem_nil, or_false] at hcolumn
      rcases hcolumn with rfl | rfl | rfl | rfl | rfl | rfl
      · exact ⟨slot, hslot⟩
      · exact ⟨slot, hslot⟩
      · cases frame <;> exact ⟨_, rfl⟩
      · exact ⟨slot, hslot⟩
      · exact ⟨slot, hslot⟩
      · exact ⟨slot, hslot⟩
    obtain ⟨slot, hslot⟩ := hmade
    exact ⟨_, by rw [hslot]; rfl⟩
  exact ⟨_, (toRow_eq_ok_iff table).mpr ⟨hid, others, rfl, hothers⟩⟩

/-- A document that was read has the same row again exactly when its data frame was read as it had
been written. -/
theorem row_withFrame_reread_iff (table : schema.IsTable metadata size)
    (hframe : document.HasReadableFrame) (h : document.toRow schema = .ok row) {again : Row}
    (hagain : (document.withFrame (document.dataframe.map DataFrame.reread)).toRow schema =
      .ok again) :
    again = row ↔ ∀ frame, document.dataframe = some frame → frame.reread = frame := by
  constructor
  · rintro rfl frame hdataframe
    have hstored := (storedIn_toRow table h).dataframe.stored
    rw [(storedIn_toRow table hagain).dataframe.stored] at hstored
    unfold frameCell withFrame at hstored
    rw [hdataframe] at hstored
    obtain ⟨hlawful, -⟩ := hframe frame hdataframe
    exact DataFrame.canonicalText_injective hlawful.reread hlawful
      (Cell.utf8.inj (Option.some.inj hstored))
  · intro hback
    have hsame : document.dataframe.map DataFrame.reread = document.dataframe := by
      cases hdataframe : document.dataframe with
      | none => rfl
      | some frame => exact congrArg some (hback frame hdataframe)
    rw [hsame] at hagain
    exact Except.ok.inj (hagain.symm.trans h)

/-- What is read in a new table is stored as the document with the frame that was read, exactly if
every stored second has a year of four digits. -/
theorem toRow_of_ofRow_iff {fields : List Field} {width : Int64}
    (hschema : Schema.ofMetadata fields width = .ok schema) (hframe : document.HasReadableFrame)
    (hrow : document.toRow schema = .ok row) {read : Document}
    (hread : Document.ofRow row schema = .ok read) (again : Row) : read.toRow schema = .ok again ↔
      (document.withFrame (document.dataframe.map DataFrame.reread)).toRow schema = .ok again ∧
        document.EverySecond fields Time.IsRereadable := by
  obtain ⟨canonical, hcanonical, table⟩ := Schema.isTable_ofMetadata hschema
  obtain ⟨rfl, -⟩ := (ofRow_eq_ok_iff_of_readable table hframe hrow read).mp hread
  obtain ⟨held, hheld⟩ := exists_toRow_withFrame table hrow
    (document.dataframe.map DataFrame.reread)
  have hsame : document.reread canonical =
      (document.withFrame (document.dataframe.map DataFrame.reread)).normalized canonical := rfl
  rw [hsame, toRow_normalized_iff table hheld, everySecond_withFrame,
    everySecond_canonical hcanonical, hheld, Except.ok.injEq, @eq_comm _ held]

/-- In a new table a stored document is read back if every second stored of it belongs to the
calendar. What is read is stored again exactly if each of these seconds lies in a year of four
digits, and then in the same row exactly if the numbers of the data frame are read as they were
written. -/
theorem toRow_ofRow_newTable {fields : List Field} {width : Int64}
    (hschema : Schema.ofMetadata fields width = .ok schema) (hframe : document.HasReadableFrame)
    (hrow : document.toRow schema = .ok row) :
    ((∃ read, Document.ofRow row schema = .ok read) ↔
      document.EverySecond fields Time.InCalendar) ∧
    ∀ read, Document.ofRow row schema = .ok read →
      ((∃ again, read.toRow schema = .ok again) ↔
        document.EverySecond fields Time.IsRereadable) ∧
      ∀ again, read.toRow schema = .ok again →
        (again = row ↔ ∀ frame, document.dataframe = some frame → frame.reread = frame) := by
  obtain ⟨canonical, -, table⟩ := Schema.isTable_ofMetadata hschema
  obtain ⟨held, hheld⟩ := exists_toRow_withFrame table hrow
    (document.dataframe.map DataFrame.reread)
  refine ⟨exists_ofRow_iff hschema hframe hrow, fun read hread => ?_⟩
  have hagain := toRow_of_ofRow_iff hschema hframe hrow hread
  refine ⟨⟨?_, fun hevery => ⟨held, (hagain held).mpr ⟨hheld, hevery⟩⟩⟩, fun again h => ?_⟩
  · rintro ⟨again, h⟩
    exact ((hagain again).mp h).2
  · exact row_withFrame_reread_iff table hframe hrow ((hagain again).mp h).1

/-- A document with the first second of year zero, given in another zone, and a number that is
narrowed. -/
theorem toRow_ofRow_firstSecond :
    ∃ schema row read,
      Schema.ofMetadata [.plain "at" (.timestamp .second none) true, .plain "size" .float32 false] 2 =
        .ok schema ∧
      Document.toRow ⟨"a", none, none, none, none, ⟨[("at", .string "0000-01-01T01:00:00+01:00"),
        ("size", .int 16777217)]⟩, none⟩ schema = .ok row ∧
      Document.ofRow row schema = .ok read ∧ read.toRow schema = .ok row := by
  obtain ⟨t, hseconds, hread⟩ : ∃ t : Instant, t.seconds = -62167219200 ∧
      Time.read "0000-01-01T01:00:00+01:00" = .instant t :=
    ⟨⟨-62167219200000000000, by decide, by decide⟩, rfl, rfl⟩
  have hevery : ∀ p : Int → Prop, p (-62167219200) → Document.EverySecond ⟨"a", none, none, none,
      none, ⟨[("at", .string "0000-01-01T01:00:00+01:00"), ("size", .int 16777217)]⟩, none⟩
        [.plain "at" (.timestamp .second none) true, .plain "size" .float32 false] p := by
    intro p hp
    refine (MetaValue.everySecond_struct_iff _ _).mpr fun field hfield value hvalue => ?_
    rcases List.mem_pair.mp hfield with rfl | rfl <;> cases hvalue
    · refine (MetaValue.everySecond_text_iff _ _ hread).mpr ?_
      rwa [hseconds]
    · exact MetaValue.everySecond_of_leaf rfl (by simp [FieldOf.plain]) _
  have hframe : HasReadableFrame ⟨"a", none, none, none, none,
      ⟨[("at", .string "0000-01-01T01:00:00+01:00"), ("size", .int 16777217)]⟩, none⟩ := by
    rintro _ ⟨⟩
  obtain ⟨hdecoded, hstored⟩ := @toRow_ofRow_newTable _ _ _
    [.plain "at" (.timestamp .second none) true, .plain "size" .float32 false] 2 rfl hframe rfl
  obtain ⟨read, hread⟩ := hdecoded.mpr (hevery _ (by decide))
  obtain ⟨haccepted, hsame⟩ := hstored read hread
  obtain ⟨again, hagain⟩ := haccepted.mpr (hevery _ (by decide))
  have heq := (hsame again hagain).mpr (by rintro _ ⟨⟩)
  exact ⟨_, _, read, rfl, rfl, hread, heq ▸ hagain⟩

/-- The last hour before year zero can be written as an hour of year zero in another zone. It is
stored and read back, but not stored again. -/
theorem toRow_ofRow_beforeYearZero :
    ∃ schema row read,
      Schema.ofMetadata [.plain "at" (.timestamp .second none) true] 2 = .ok schema ∧
      Document.toRow ⟨"a", none, none, none, none,
        ⟨[("at", .string "0000-01-01T00:00:00+01:00")]⟩, none⟩ schema = .ok row ∧
      Document.ofRow row schema = .ok read ∧ ∀ again, read.toRow schema ≠ .ok again := by
  obtain ⟨t, hseconds, hreads⟩ : ∃ t : Instant, t.seconds = -62167222800 ∧
      Time.read "0000-01-01T00:00:00+01:00" = .instant t :=
    ⟨⟨-62167222800000000000, by decide, by decide⟩, rfl, rfl⟩
  have hevery : ∀ p : Int → Prop, Document.EverySecond ⟨"a", none, none, none, none,
      ⟨[("at", .string "0000-01-01T00:00:00+01:00")]⟩, none⟩
        [.plain "at" (.timestamp .second none) true] p ↔ p (-62167222800) := by
    intro p
    have hvalue := @MetaValue.everySecond_text_iff p .second none _ _ hreads
    rw [hseconds] at hvalue
    refine Iff.trans (MetaValue.everySecond_struct_iff _ _) (Iff.trans ⟨fun h => ?_, ?_⟩ hvalue)
    · exact h _ (List.mem_singleton_self _) _ rfl
    · rintro h field hfield value hheld
      cases List.mem_singleton.mp hfield
      cases hheld
      exact h
  have hframe : HasReadableFrame ⟨"a", none, none, none, none,
      ⟨[("at", .string "0000-01-01T00:00:00+01:00")]⟩, none⟩ := by
    rintro _ ⟨⟩
  obtain ⟨read, hread⟩ := (@exists_ofRow_iff _ _ _
    [.plain "at" (.timestamp .second none) true] 2 rfl hframe rfl).mpr
      ((hevery _).mpr (by decide))
  refine ⟨_, _, read, rfl, rfl, hread, fun again hagain => ?_⟩
  have hrereadable := ((@toRow_of_ofRow_iff _ _ _
    [.plain "at" (.timestamp .second none) true] 2 rfl hframe rfl _ hread again).mp hagain).2
  exact absurd ((hevery _).mp hrereadable) (by decide)

end Document

end DocumentStore
