import DocumentStore.Proofs.DataFrameText
import DocumentStore.Proofs.NormalForm
import DocumentStore.Proofs.StoredDocuments

/-!
# Reading back the row of a document

A row of a document is read as the normal form of the document, provided that every second stored of
its timestamps belongs to the calendar and that the text of its data frame can be read. The frame
comes back with its numbers as they are read, which is the same frame where printed numbers are read
back. The schema may list its columns in any order.
-/

set_option autoImplicit false

namespace DocumentStore

namespace Document

variable {document : Document} {schema : Schema} {metadata : List Field} {size : Int32} {row : Row}

/-- What is there in a column is what is read from it, whatever stands in place of the rest. -/
theorem presentColumn_of_holds {name : String} {value : Option Cell}
    (holds : ColumnHolds row name value) : row.presentColumn name = .ok value := by
  have hthere : row.isPresent name "<root>" = .ok value.isSome := by
    unfold Row.isPresent
    rw [holds.flag]
    dsimp only
    rw [Option.not_isNone]
  unfold Row.presentColumn
  cases hflags : row.get? Column.flags with
  | none =>
    have hflag := holds.flag
    unfold Row.flag? at hflag
    rw [hflags] at hflag
    cases hflag
  | some flags =>
    dsimp only
    rw [hthere, ok_bind]
    cases value with
    | none => rfl
    | some cell =>
      rw [if_pos Option.isSome_some, holds.held cell rfl]

/-- The text of a text column is what was stored there. -/
theorem optionalText_map_utf8 (name : String) (text : Option String) :
    Cell.optionalText name (text.map .utf8) = .ok text := by
  cases text <;> rfl

/-- The metadata of a row is read in normal form, provided that every stored second belongs to the
calendar. -/
theorem entriesOf_stored_eq_ok_iff {record : Row} {entries : Metadata}
    (h : Stored (.struct metadata) false (some (.map entries)) (.struct record))
    (result : Metadata) :
    entriesOf record Column.metadata metadata Dict.empty = .ok result ↔
      result = Dict.ofList (MetaValue.normalizedEntries entries metadata) ∧
        MetaValue.EverySecond Time.InCalendar (.struct metadata) (.map entries) := by
  have hvalue := valueOf_stored_eq_ok_iff h _ rfl Column.metadata (.map result)
  rw [valueOf, bind_pure_eq_map, map_eq_ok_iff, MetaValue.normalized, MetaValue.map.injEq] at hvalue
  rw [← hvalue]
  constructor
  · exact fun hread => ⟨result, hread, rfl⟩
  · rintro ⟨_, hread, ⟨⟩⟩
    exact hread

/-- What is stored as metadata is a record. -/
theorem exists_record {entries : Metadata} {cell : Cell}
    (h : Stored (.struct metadata) false (some (.map entries)) cell) :
    ∃ record, cell = .struct record := by
  generalize hvalue : some (MetaValue.map entries) = value? at h
  cases h with
  | leaf leaf => cases leaf
  | absentLeaf leaf => cases leaf
  | struct => exact ⟨_, rfl⟩

/-- The data frame of the document, read of its text. -/
def readFrame (document : Document) : Except Error (Option DataFrame) :=
  document.dataframe.mapM fun frame => DataFrame.ofCanonicalText frame.canonicalText

/-- From a row that stores a document the parts of the document are read; only the text of its data
frame and its metadata may fail to be read. -/
theorem ofRow_storedIn (table : schema.IsTable metadata size) (h : document.StoredIn metadata row)
    {record : Row} (holds : ColumnHolds row Column.metadata (some (.struct record))) :
    Document.ofRow row schema = do
      let frame ← document.readFrame
      let entries ← entriesOf record Column.metadata metadata Dict.empty
      return { document with dataframe := frame, metadata := entries, score := none } := by
  have hcontent := presentColumn_of_holds h.content.toColumnHolds
  have hblob := presentColumn_of_holds h.blob.toColumnHolds
  have hdataframe := presentColumn_of_holds h.dataframe.toColumnHolds
  have hvector := presentColumn_of_holds h.vector
  have hmetadata := presentColumn_of_holds holds
  have htext : document.frameCell =
      (document.dataframe.map DataFrame.canonicalText).map .utf8 := by
    unfold frameCell
    rw [Option.map_map]
    rfl
  have hframe : document.readFrame =
      (document.dataframe.map DataFrame.canonicalText).mapM DataFrame.ofCanonicalText := by
    unfold readFrame
    cases document.dataframe <;> rfl
  unfold Document.ofRow
  rw [table.metadataFields_eq, h.id, hcontent, hblob, hdataframe, hvector, hmetadata, h.score,
    h.distance, htext, hframe]
  simp only [ok_bind, optionalText_map_utf8]
  cases (document.dataframe.map DataFrame.canonicalText).mapM DataFrame.ofCanonicalText with
  | error e => cases document.blob <;> rfl
  | ok frame => cases document.blob <;> cases document.embedding <;> rfl

/-- What is read from the row of a document depends on the document alone: it is the normal form with
the frame that is read, and it is read when the frame is and every stored second belongs to the
calendar. -/
theorem ofRow_toRow_eq_ok_iff (table : schema.IsTable metadata size)
    (hrow : document.toRow schema = .ok row) (result : Document) :
    Document.ofRow row schema = .ok result ↔ ∃ frame, document.readFrame = .ok frame ∧
      result = { document.normalized metadata with dataframe := frame } ∧
      document.EverySecond metadata Time.InCalendar := by
  have hstoredIn := storedIn_toRow table hrow
  obtain ⟨_, hholds, hstored⟩ := hstoredIn.metadata
  obtain ⟨record, rfl⟩ := exists_record hstored
  rw [ofRow_storedIn table hstoredIn hholds, bind_eq_ok_iff]
  simp only [bind_eq_ok_iff, entriesOf_stored_eq_ok_iff hstored]
  refine exists_congr fun frame => and_congr_right fun _ => ?_
  unfold Document.normalized Document.EverySecond
  constructor
  · rintro ⟨_, ⟨rfl, hevery⟩, ⟨⟩⟩
    exact ⟨rfl, hevery⟩
  · rintro ⟨rfl, hevery⟩
    exact ⟨_, ⟨rfl, hevery⟩, rfl⟩

/-! ## Frames that can be read -/

/-- The data frame of the document can be built, and its text can be read. -/
def HasReadableFrame (document : Document) : Prop :=
  ∀ frame, document.dataframe = some frame →
    frame.Lawful ∧ frame.DepthWithin DataFrame.cellDepthLimit

/-- A frame whose text can be read is read with its numbers as they are read. -/
theorem readFrame_eq (h : document.HasReadableFrame) :
    document.readFrame = .ok (document.dataframe.map DataFrame.reread) := by
  unfold readFrame
  cases hframe : document.dataframe with
  | none => rfl
  | some frame =>
    obtain ⟨hlawful, hdepth⟩ := h frame hframe
    rw [Option.mapM_some, DataFrame.ofCanonicalText_canonicalText hlawful hdepth]
    rfl

/-- What comes back of a document whose frame can be read. -/
def reread (document : Document) (fields : List Field) : Document :=
  { document.normalized fields with dataframe := document.dataframe.map DataFrame.reread }

/-- The row of a document whose frame can be read is read when every stored second belongs to the
calendar. -/
theorem ofRow_eq_ok_iff_of_readable (table : schema.IsTable metadata size)
    (hframe : document.HasReadableFrame) (hrow : document.toRow schema = .ok row)
    (result : Document) :
    Document.ofRow row schema = .ok result ↔
      result = document.reread metadata ∧ document.EverySecond metadata Time.InCalendar := by
  rw [ofRow_toRow_eq_ok_iff table hrow, readFrame_eq hframe]
  constructor
  · rintro ⟨_, ⟨⟩, hresult, hevery⟩
    exact ⟨hresult, hevery⟩
  · rintro ⟨hresult, hevery⟩
    exact ⟨_, rfl, hresult, hevery⟩

/-- A frame that is read as it was written is part of what comes back. -/
theorem reread_eq_normalized (fields : List Field)
    (hback : ∀ frame, document.dataframe = some frame → frame.reread = frame) :
    document.reread fields = document.normalized fields := by
  have hframe : document.dataframe.map DataFrame.reread = document.dataframe := by
    cases h : document.dataframe with
    | none => rfl
    | some frame => exact congrArg some (hback frame h)
  unfold reread
  rw [hframe]
  rfl

/-! ## New tables -/

section NewTable

variable {fields canonical : List Field}
  (hcanonical : Schema.canonicalType Column.metadata (.struct fields) = .ok (.struct canonical))

include hcanonical

/-- The normal form for the fields of a table is that for the fields as they were declared. -/
theorem normalized_canonical (document : Document) :
    document.normalized canonical = document.normalized fields := by
  have hvalue := MetaValue.normalized_canonicalType _ _ _ hcanonical (.map document.metadata)
  rw [MetaValue.normalized, MetaValue.normalized] at hvalue
  unfold Document.normalized
  rw [MetaValue.map.inj hvalue]

/-- The fields of a table store the same seconds as the fields that were declared. -/
theorem everySecond_canonical (document : Document) (p : Int → Prop) :
    document.EverySecond canonical p ↔ document.EverySecond fields p :=
  MetaValue.everySecond_canonicalType _ _ _ hcanonical _

end NewTable

/-- In a new table a stored document is read back exactly if every second stored of it belongs to the
calendar. -/
theorem exists_ofRow_iff {fields : List Field} {width : Int64}
    (hschema : Schema.ofMetadata fields width = .ok schema) (hframe : document.HasReadableFrame)
    (hrow : document.toRow schema = .ok row) :
    (∃ read, Document.ofRow row schema = .ok read) ↔
      document.EverySecond fields Time.InCalendar := by
  obtain ⟨canonical, hcanonical, table⟩ := Schema.isTable_ofMetadata hschema
  have hread := ofRow_eq_ok_iff_of_readable table hframe hrow
  rw [← everySecond_canonical hcanonical]
  constructor
  · rintro ⟨read, h⟩
    exact ((hread read).mp h).2
  · exact fun hevery => ⟨_, (hread _).mpr ⟨rfl, hevery⟩⟩

/-- In a new table a stored document reads back as its normal form for the fields as they were
declared. A native instant has to belong to the calendar, as every instant does that a text names,
the cells of the frame must not be nested too deep, and its numbers have to be read as they were
written. -/
theorem ofRow_toRow_newTable {fields : List Field} {width : Int64}
    (hschema : Schema.ofMetadata fields width = .ok schema)
    (hinstants : document.EverySecond fields Time.InCalendar)
    (hframe : document.HasReadableFrame)
    (hback : ∀ frame, document.dataframe = some frame → frame.reread = frame)
    (hrow : document.toRow schema = .ok row) :
    Document.ofRow row schema = .ok (document.normalized fields) := by
  obtain ⟨canonical, hcanonical, table⟩ := Schema.isTable_ofMetadata hschema
  rw [ofRow_eq_ok_iff_of_readable table hframe hrow, reread_eq_normalized canonical hback,
    normalized_canonical hcanonical, everySecond_canonical hcanonical]
  exact ⟨rfl, hinstants⟩

/-- A document with a declared null, an undeclared key, a native instant and a data frame, and fields
for it. -/
theorem ofRow_toRow_undeclaredKey :
    ∃ frame instant schema row,
      DataFrame.ofColumns [("n", [.null])] = .ok frame ∧ instant.nanos = -1 ∧
      Schema.ofMetadata [.plain "tags" (.struct [.plain "kind" .utf8 true]) true,
        .plain "at" (.timestamp .second none) false] 2 = .ok schema ∧
      Document.toRow ⟨"a", none, none, some frame, some [7],
        ⟨[("at", .timestamp instant), ("tags", .map ⟨[("kind", .null), ("note", .int 1)]⟩)]⟩,
        none⟩ schema = .ok row ∧
      Document.ofRow row schema = .ok (Document.normalized
        ⟨"a", none, none, some frame, some [7],
          ⟨[("at", .timestamp instant), ("tags", .map ⟨[("kind", .null), ("note", .int 1)]⟩)]⟩,
          none⟩
        [.plain "tags" (.struct [.plain "kind" .utf8 true]) true,
          .plain "at" (.timestamp .second none) false]) := by
  obtain ⟨frame, hcolumns, hlawful, hdepth, hback⟩ : ∃ frame : DataFrame,
      DataFrame.ofColumns [("n", [.null])] = .ok frame ∧ frame.Lawful ∧
        frame.DepthWithin DataFrame.cellDepthLimit ∧ frame.reread = frame := by
    refine ⟨⟨⟨[("n", [.null])]⟩, List.pairwise_singleton _ _, by simp⟩, rfl, ⟨by decide, ?_⟩, ?_,
      rfl⟩
    · simp [Json.Canonical]
    · simp [DataFrame.DepthWithin, Json.depth]
  obtain ⟨instant, hinstant⟩ : ∃ instant : Instant, instant.nanos = -1 :=
    ⟨⟨-1, by decide, by decide⟩, rfl⟩
  refine ⟨frame, instant, _, _, hcolumns, hinstant, rfl, rfl,
    @ofRow_toRow_newTable _ _ _ _ 2 rfl ?_ ?_ ?_ rfl⟩
  · have hcalendar : Time.InCalendar instant.seconds.toInt := by
      rw [← Instant.inCalendar_iff, Instant.InCalendar, hinstant]
      decide
    refine (MetaValue.everySecond_struct_iff _ _).mpr fun field hfield value hvalue => ?_
    rcases List.mem_pair.mp hfield with rfl | rfl <;> cases hvalue
    · refine (MetaValue.everySecond_struct_iff _ _).mpr fun field hfield value _ => ?_
      cases List.mem_singleton.mp hfield
      exact MetaValue.everySecond_of_leaf rfl (by simp [FieldOf.plain]) value
    · exact (MetaValue.everySecond_instant_iff _ _ _).mpr hcalendar
  · rintro _ ⟨⟩
    exact ⟨hlawful, hdepth⟩
  · rintro _ ⟨⟩
    exact hback

end Document

end DocumentStore
