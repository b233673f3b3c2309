import DocumentStore.Proofs.FittingRows
import DocumentStore.Proofs.RearrangedRows
import DocumentStore.Proofs.RearrangedSchemas
import DocumentStore.Proofs.StoredDocuments

/-!
# Storing in rearranged tables

The row of a document has its columns, its flags and the members of its structs in the order of the
schema. In a table that has been rearranged the row of a document is therefore a rearranged row, and a
document has a row there exactly if it has one in the table as it was built. Together with reading,
evaluating and building batches this makes the order of members irrelevant everywhere.
-/

set_option autoImplicit false

namespace DocumentStore

/-! ## Rearranged columns -/

/-- The types of columns have no structs but in structs, so only fields of structs can be rearranged
in them. -/
theorem DataType.Rearranged.fields_of_storable {type type' : DataType} (h : type.Rearranged type')
    (storable : type.Storable) : type'.Storable ∧ (type = type' ∨
      ∃ fields fields', type = .struct fields ∧ type' = .struct fields' ∧
        Field.Rearranged fields fields') := by
  induction h with
  | refl => exact ⟨storable, Or.inl rfl⟩
  | perm nodup h =>
    exact ⟨.struct fun field hfield => storable.members field (h.mem_iff.mpr hfield),
      Or.inr ⟨_, _, rfl, rfl, .perm h⟩⟩
  | within _ ih =>
    obtain ⟨storable', hfields⟩ :=
      ih (storable.members _ (List.mem_append_right _ (List.mem_cons_self ..)))
    refine ⟨.struct (Field.forall_mem_replaced storable.members storable'), ?_⟩
    rcases hfields with rfl | ⟨fields, fields', rfl, rfl, hfields⟩
    · exact Or.inl rfl
    · exact Or.inr ⟨_, _, rfl, rfl, .within hfields⟩
  | item =>
    cases storable with
    | leaf h => cases h
  | fixedSizeItem _ ih =>
    cases storable with
    | leaf h => cases h
    | vector hitem hsize =>
      cases hitem
      obtain ⟨-, rfl | ⟨_, _, heq, -, -⟩⟩ := ih (.leaf rfl)
      · exact ⟨.vector rfl hsize, Or.inl rfl⟩
      · cases heq
  | trans _ _ ih ih' =>
    obtain ⟨storable', hfirst⟩ := ih storable
    obtain ⟨storable'', hsecond⟩ := ih' storable'
    refine ⟨storable'', ?_⟩
    rcases hfirst with rfl | ⟨first, second, rfl, rfl, hfirst⟩
    · exact hsecond
    · rcases hsecond with rfl | ⟨_, third, ⟨⟩, rfl, hsecond⟩
      · exact Or.inr ⟨_, _, rfl, rfl, hfirst⟩
      · exact Or.inr ⟨_, _, rfl, rfl, hfirst.trans hsecond⟩

/-- Rearranged schemas have rearranged fields. -/
theorem Schema.Rearranged.fields {schema schema' : Schema} (h : schema.Rearranged schema')
    (storable : (DataType.struct schema.fields).Storable) :
    Field.Rearranged schema.fields schema'.fields := by
  rcases (DataType.Rearranged.fields_of_storable h storable).2 with heq | ⟨_, _, ⟨⟩, ⟨⟩, hfields⟩
  · rw [DataType.struct.inj heq]
    exact .perm (List.Perm.refl _)
  · exact hfields

/-! ## Records of slots -/

/-- Both slots are for something that is there, or neither is, and the values are rearranged. -/
structure Slot.Rearranged (slot slot' : Slot) : Prop where
  present_eq : slot.present = slot'.present
  value : slot.value.Rearranged slot'.value

namespace Row

/-- A record of slots of distinct names is the list of their values, headed by their flags. -/
theorem ofSlots_eq {slots : List (String × Slot)} (nodup : (slots.map Prod.fst).Nodup)
    (hflags : Column.flags ∉ slots.map Prod.fst) :
    Row.ofSlots slots =
      ⟨(Column.flags, .struct ⟨slots.map fun slot => (slot.1, Cell.boolean (!slot.2.present))⟩) ::
        slots.map fun slot => (slot.1, slot.2.value)⟩ := by
  unfold Row.ofSlots
  rw [Record.ofList_of_nodup, Record.ofList_of_nodup]
  · rw [List.map_map]
    exact nodup
  · rw [List.map_cons, List.map_map, List.nodup_cons]
    exact ⟨hflags, nodup⟩

/-- Slots in another order make a rearranged record. -/
theorem ofSlots_perm {slots slots' : List (String × Slot)} (nodup : (slots.map Prod.fst).Nodup)
    (hflags : Column.flags ∉ slots.map Prod.fst) (h : slots.Perm slots') :
    (Row.ofSlots slots).Rearranged (Row.ofSlots slots') := by
  have hnames := h.map Prod.fst
  rw [ofSlots_eq nodup hflags,
    ofSlots_eq (hnames.nodup_iff.mp nodup) (fun hmem => hflags (hnames.mem_iff.mpr hmem))]
  have hinner : Cell.Rearranged
      (.struct ⟨slots.map fun slot => (slot.1, Cell.boolean (!slot.2.present))⟩)
      (.struct ⟨slots'.map fun slot => (slot.1, Cell.boolean (!slot.2.present))⟩) := by
    refine .perm ?_ (h.map _)
    rw [List.map_map]
    exact nodup
  -- First the flags are put in the other order, then the members.
  refine .trans (@Cell.Rearranged.within [] _ Column.flags _ _ hinner) (.perm ?_ ((h.map _).cons _))
  rw [List.nil_append, List.map_cons, List.map_map, List.nodup_cons]
  exact ⟨hflags, nodup⟩

/-- A rearranged slot makes a rearranged record. -/
theorem ofSlots_replaced {front back : List (String × Slot)} {name : String} {slot slot' : Slot}
    (nodup : ((front ++ (name, slot) :: back).map Prod.fst).Nodup)
    (hflags : Column.flags ∉ (front ++ (name, slot) :: back).map Prod.fst)
    (h : slot.Rearranged slot') :
    (Row.ofSlots (front ++ (name, slot) :: back)).Rearranged
      (Row.ofSlots (front ++ (name, slot') :: back)) := by
  have hnames : (front ++ (name, slot) :: back).map Prod.fst =
      (front ++ (name, slot') :: back).map Prod.fst := by
    simp
  rw [ofSlots_eq nodup hflags, ofSlots_eq (hnames ▸ nodup) (hnames ▸ hflags)]
  simp only [List.map_append, List.map_cons, h.present_eq]
  exact @Cell.Rearranged.within (_ :: front.map fun slot => (slot.1, slot.2.value)) _ name _ _ h.value

end Row

/-! ## Levels of slots -/

/-- The slots make rearranged records. -/
def SlotsRearranged (slots slots' : List (String × Slot)) : Prop :=
  (Row.ofSlots slots).Rearranged (Row.ofSlots slots')

namespace Document

variable {make make' : Field → Except Error Slot}

/-- Slots are named as the fields that they are made for. -/
theorem names_of_slots {fields : List Field} {slots : List (String × Slot)}
    (nodup : (fields.map FieldOf.name).Nodup)
    (h : (Field.declared fields).mapM (fun field => do return (field.name, ← make field)) =
      .ok slots) : (slots.map Prod.fst).Nodup ∧ Column.flags ∉ slots.map Prod.fst := by
  have hfilled : Field.Filled (fun _ _ => True) fields slots :=
    filled_of_mapM nodup (fun _ _ _ _ => trivial) h
  exact ⟨hfilled.nodup nodup, hfilled.flags_not_mem⟩

/-- Fields in another order have slots that make a rearranged record. -/
theorem slots_perm {fields fields' : List Field} (nodup : (fields.map FieldOf.name).Nodup)
    (h : fields.Perm fields') (make : Field → Except Error Slot) : Alike SlotsRearranged
      ((Field.declared fields).mapM fun field => do return (field.name, ← make field))
      ((Field.declared fields').mapM fun field => do return (field.name, ← make field)) := by
  refine (Alike.mapM_perm (h.filter _)).imp fun slots slots' hslots _ hperm => ?_
  obtain ⟨hnames, hflags⟩ := names_of_slots nodup hslots
  exact Row.ofSlots_perm hnames hflags hperm

/-- A field with a rearranged slot makes a rearranged record. -/
theorem slots_replaced {before after : List Field} {field field' : Field}
    (nodup : ((before ++ field :: after).map FieldOf.name).Nodup)
    (hfield : field.name ≠ Column.flags) (hname : field'.name = field.name)
    (hslot : Alike Slot.Rearranged (make field) (make' field'))
    (hothers : ∀ other ∈ before ++ after, make other = make' other) : Alike SlotsRearranged
      ((Field.declared (before ++ field :: after)).mapM fun field => do
        return (field.name, ← make field))
      ((Field.declared (before ++ field' :: after)).mapM fun field => do
        return (field.name, ← make' field)) := by
  have hnamed : Alike (fun slot slot' : String × Slot => slot.1 = slot'.1 ∧ slot.2.Rearranged slot'.2)
      (do return (field.name, ← make field)) (do return (field'.name, ← make' field')) :=
    hslot.bind fun _ _ _ _ h => .ok ⟨hname.symm, h⟩
  have hsplit : Alike (fun slots slots' : List (String × Slot) => ∃ front slot slot' back,
      slots = front ++ slot :: back ∧ slots' = front ++ slot' :: back ∧
        slot.1 = slot'.1 ∧ slot.2.Rearranged slot'.2)
      ((Field.declared (before ++ field :: after)).mapM fun field => do
        return (field.name, ← make field))
      ((Field.declared (before ++ field' :: after)).mapM fun field => do
        return (field.name, ← make' field)) := by
    rw [Field.declared_append_cons hfield,
      Field.declared_append_cons (fun hflags => hfield (hname.symm.trans hflags))]
    refine Alike.mapM_replaced hnamed ?_ ?_
    · intro other hother
      rw [hothers other (List.mem_append_left _ (Field.mem_declared.mp hother).1)]
    · intro other hother
      rw [hothers other (List.mem_append_right _ (Field.mem_declared.mp hother).1)]
  refine hsplit.imp ?_
  rintro _ _ hslots - ⟨front, ⟨name, slot⟩, ⟨_, slot'⟩, back, rfl, rfl, rfl, h⟩
  obtain ⟨hnames, hflags⟩ := names_of_slots nodup hslots
  exact Row.ofSlots_replaced hnames hflags h

section Struct

variable {members members' : List Field} (h : ∀ entries path, Alike SlotsRearranged
  (fieldSlots entries path members) (fieldSlots entries path members'))

include h

/-- Levels with rearranged slots have rearranged values. -/
theorem storedValue_alike (path : String) (nullable : Bool) (value : MetaValue) :
    Alike Cell.Rearranged (storedValue path nullable value (.struct members))
      (storedValue path nullable value (.struct members')) := by
  cases value with
  | map entries =>
    rw [storedValue, storedValue]
    exact (h (some entries) path).bind fun _ _ _ _ hslots => .ok hslots
  | null =>
    rw [storedValue, storedValue]
    exact .refl .refl _
  | _ => exact .error _ _

/-- Levels with rearranged slots have rearranged placeholders. -/
theorem placeholder_alike (path : String) (nullable : Bool) :
    Alike Cell.Rearranged (placeholder path nullable (.struct members))
      (placeholder path nullable (.struct members')) := by
  rw [placeholder, placeholder]
  exact (h none path).bind fun _ _ _ _ hslots => .ok hslots

/-- Fields whose levels have rearranged slots have rearranged slots. -/
theorem fieldSlot_alike (entries : Option Metadata) (path name : String) (nullable : Bool)
    (annotations : Dict String) : Alike Slot.Rearranged
      (fieldSlot entries path ⟨name, .struct members, nullable, annotations⟩)
      (fieldSlot entries path ⟨name, .struct members', nullable, annotations⟩) := by
  have hentry : Metadata.valueIn entries ⟨name, .struct members, nullable, annotations⟩ =
    Metadata.valueIn entries ⟨name, .struct members', nullable, annotations⟩ := rfl
  unfold fieldSlot
  rw [hentry]
  cases Metadata.valueIn entries ⟨name, .struct members', nullable, annotations⟩ with
  | some value =>
    exact (storedValue_alike h _ nullable value).bind fun _ _ _ _ hcell => .ok ⟨rfl, hcell⟩
  | none => exact (placeholder_alike h _ nullable).bind fun _ _ _ _ hcell => .ok ⟨rfl, hcell⟩

end Struct

/-- The slots of a level and those of the rearranged level make rearranged records. -/
theorem fieldSlots_alike {fields fields' : List Field} (h : Field.Rearranged fields fields')
    (flagged : (DataType.struct fields).Flagged) : ∀ entries path, Alike SlotsRearranged
      (fieldSlots entries path fields) (fieldSlots entries path fields') := by
  induction h with
  | perm h =>
    intro entries path
    rw [fieldSlots_eq_mapM, fieldSlots_eq_mapM]
    exact slots_perm flagged.level_and_below.1.nodup h _
  | @within before after members members' name nullable annotations h ih =>
    intro entries path
    obtain ⟨level, below⟩ := flagged.level_and_below
    rw [fieldSlots_eq_mapM, fieldSlots_eq_mapM]
    -- A record has flags of its own, made of its slots, so those in the schema are not looked at.
    by_cases hname : name = Column.flags
    · rw [Field.declared_append_flags hname, Field.declared_append_flags hname]
      exact .refl (fun _ => .refl _) _
    · have hmembers := ih (below _ (List.mem_append_right _ (List.mem_cons_self ..)) hname)
      exact slots_replaced level.nodup hname rfl
        (fieldSlot_alike hmembers entries path name nullable annotations) fun _ _ => rfl
  | trans h h' ih ih' =>
    intro entries path
    exact (ih flagged entries path).trans (ih' (flagged.rearranged h) entries path)
      fun _ _ _ => .trans

/-! ## Rows -/

/-- Only the metadata column looks at the metadata fields. -/
theorem rootSlot_eq_of_ne (document : Document) (width : Nat) {metadata metadata' : List Field}
    {field : Field} (h : field.name ≠ Column.metadata) :
    document.rootSlot width metadata field = document.rootSlot width metadata' field := by
  unfold rootSlot
  rw [if_neg h, if_neg h]

/-- Rearranged metadata fields have rearranged slots. -/
theorem rootSlot_metadata_alike (document : Document) (width : Nat) {metadata metadata' : List Field}
    (h : Field.Rearranged metadata metadata') (flagged : (DataType.struct metadata).Flagged)
    {field field' : Field} (hname : field.name = Column.metadata)
    (hname' : field'.name = Column.metadata) : Alike Slot.Rearranged
      (document.rootSlot width metadata field) (document.rootSlot width metadata' field') := by
  have hslots := fieldSlots_alike h flagged (some document.metadata) Column.metadata
  unfold rootSlot
  rw [hname, hname']
  exact hslots.bind fun _ _ _ _ hslots => .ok ⟨rfl, hslots⟩

/-- A document that is stored in a rearranged table has a rearranged row. -/
theorem toRow_alike {fields fields' : List Field} (h : Field.Rearranged fields fields')
    {metadata : List Field} {size : Int32} (table : Schema.IsTable ⟨fields⟩ metadata size)
    (document : Document) :
    Alike Row.Rearranged (document.toRow ⟨fields⟩) (document.toRow ⟨fields'⟩) := by
  induction h generalizing metadata with
  | perm h =>
    rw [toRow_eq document table, toRow_eq document (table.perm h)]
    split
    · exact .error _ _
    · exact (slots_perm table.level.nodup h _).map fun _ _ _ _ hslots => hslots
  | @within before after members members' name nullable annotations h =>
    by_cases hname : name = Column.flags
    · rw [toRow_eq document table, toRow_eq document (table.within_flags hname h),
        Field.declared_append_flags hname, Field.declared_append_flags hname]
      exact .refl (fun _ => .refl _) _
    · -- The only other struct is the metadata column, and the rest do not look at its fields.
      obtain ⟨rfl, rfl, table'⟩ := table.within_metadata hname h
      have hothers : ∀ other ∈ before ++ after, other.name ≠ Column.metadata := by
        have hnames := table.level.nodup
        rw [List.map_append, List.map_cons, List.nodup_middle, List.nodup_cons,
          ← List.map_append] at hnames
        intro other hother heq
        have hmem := List.mem_map_of_mem (f := FieldOf.name) hother
        rw [heq] at hmem
        exact hnames.1 hmem
      rw [toRow_eq document table, toRow_eq document table']
      split
      · exact .error _ _
      · refine Alike.map (R := SlotsRearranged) ?_ fun _ _ _ _ hslots => hslots
        exact slots_replaced table.level.nodup hname rfl
          (rootSlot_metadata_alike document _ h table.flagged rfl rfl)
          fun other hother => rootSlot_eq_of_ne document _ (hothers other hother)
  | trans h h' ih ih' =>
    obtain ⟨metadata', table'⟩ := table.rearranged h
    exact (ih table).trans (ih' table') fun _ _ _ => .trans

end Document

/-! ## The order of members -/

/-- The order of members never matters: rearranged rows are read, filtered and put into batches with
the outcome of the rows themselves, a rearranged schema reads the same documents, and a table that has
been rearranged stores the same documents as the new table, in rearranged rows. -/
theorem member_order_irrelevant {row row' : Row} (hrow : row.Rearranged row') {rows rows' : List Row}
    (hrows : List.Forall₂ Row.Rearranged rows rows') {schema schema' : Schema}
    (hschema : schema.Rearranged schema') {fields : List Field} {width : Int64} {built arranged : Schema}
    (hbuilt : Schema.ofMetadata fields width = .ok built) (harranged : built.Rearranged arranged) :
    Document.ofRow row' schema = Document.ofRow row schema ∧
    (∀ predicate : Predicate, predicate.evaluate row' = predicate.evaluate row) ∧
    Batch.ofRows schema rows' = Batch.ofRows schema rows ∧
    (∀ document, Document.ofRow row schema' = .ok document ↔
      Document.ofRow row schema = .ok document) ∧
    ∀ document : Document,
      (∃ stored stored', document.toRow built = .ok stored ∧
        document.toRow arranged = .ok stored' ∧ stored.Rearranged stored') ∨
      ∃ e e', document.toRow built = .error e ∧ document.toRow arranged = .error e' := by
  refine ⟨(Document.ofRow_rearranged hrow schema).symm,
    fun predicate => (Predicate.evaluate_rearranged hrow predicate).symm,
    (Batch.ofRows_rearranged hrows schema).symm,
    fun document => ((Document.ofRow_alike hschema row).eq_ok_iff document).symm, ?_⟩
  intro document
  obtain ⟨canonical, -, table⟩ := Schema.isTable_ofMetadata hbuilt
  exact (Document.toRow_alike (harranged.fields table.storable) table document).cases

/-- The rows of one document in a new table and in the same table with its columns, and the members of
its metadata, in reverse order. -/
theorem member_order_irrelevant_reversed :
    ∃ (document : Document) (built arranged : Schema) (row row' : Row),
      Schema.ofMetadata [.plain "year" .int64 false,
        .plain "tags" (.struct [.plain "kind" .utf8 false]) true] 1 = .ok built ∧
      built.Rearranged arranged ∧
      arranged.fields.map FieldOf.name = (built.fields.map FieldOf.name).reverse ∧
      document.toRow built = .ok row ∧ document.toRow arranged = .ok row' ∧
      row.Rearranged row' ∧ row'.names.tail = row.names.tail.reverse ∧
      Document.ofRow row built = .ok document ∧ Document.ofRow row' built = .ok document ∧
      Document.ofRow row arranged = .ok document ∧
      (∀ predicate : Predicate, predicate.evaluate row' = predicate.evaluate row) ∧
      Batch.ofRows built [row', row] = Batch.ofRows built [row, row] := by
  obtain ⟨canonical, hcanonical⟩ : ∃ canonical, Schema.canonicalLevel
      [.plain "year" .int64 false,
        .plain "tags" (.struct (Schema.canonicalLevel [.plain "kind" .utf8 false])) true] =
          canonical := ⟨_, rfl⟩
  have hbuilt : Schema.ofMetadata [.plain "year" .int64 false,
      .plain "tags" (.struct [.plain "kind" .utf8 false]) true] 1 =
        .ok ⟨Schema.flagsField Column.flagged :: Schema.documentColumns canonical 1⟩ := by
    subst hcanonical
    rfl
  have harranged : Schema.Rearranged
      ⟨Schema.flagsField Column.flagged :: Schema.documentColumns canonical 1⟩
      ⟨(Schema.flagsField Column.flagged :: Schema.documentColumns canonical.reverse 1).reverse⟩ := by
    refine .trans (@DataType.Rearranged.within
      [Schema.flagsField Column.flagged, .plain Column.blob .binary true,
        .plain Column.content .utf8 true, .plain Column.dataframe .utf8 true,
        .plain Column.id .utf8 false]
      [.plain Column.vector (.fixedSizeList (.plain "item" .float32 true) 1) false]
      Column.metadata _ _ false Dict.empty
      (.perm ?_ (List.reverse_perm canonical).symm)) (.perm ?_ (List.reverse_perm _).symm)
    · subst hcanonical
      decide
    · subst hcanonical
      decide
  obtain ⟨document, hdocument⟩ : ∃ document : Document, document =
      ⟨"a", some "text", none, none, none,
        ⟨[("tags", .map ⟨[("kind", .string "x")]⟩), ("year", .int 4)]⟩, none⟩ := ⟨_, rfl⟩
  obtain ⟨row, hrow, hread, hnames⟩ : ∃ row : Row,
      document.toRow ⟨Schema.flagsField Column.flagged :: Schema.documentColumns canonical 1⟩ =
        .ok row ∧
      Document.ofRow row
        ⟨Schema.flagsField Column.flagged :: Schema.documentColumns canonical 1⟩ = .ok document ∧
      row.names.tail = Column.flagged := by
    subst hcanonical hdocument
    exact ⟨_, rfl, rfl, rfl⟩
  obtain ⟨row', hrow', hnames'⟩ : ∃ row' : Row,
      document.toRow
        ⟨(Schema.flagsField Column.flagged :: Schema.documentColumns canonical.reverse 1).reverse⟩ =
        .ok row' ∧ row'.names.tail = Column.flagged.reverse := by
    subst hcanonical hdocument
    exact ⟨_, rfl, rfl⟩
  have hrows : row.Rearranged row' := by
    obtain ⟨_, -, table⟩ := Schema.isTable_ofMetadata hbuilt
    have h := Document.toRow_alike (harranged.fields table.storable) table document
    rw [hrow, hrow'] at h
    cases h with
    | ok h => exact h
  obtain ⟨hsame, hpredicates, hbatch, hdocuments, -⟩ := @member_order_irrelevant _ _ hrows
    [row, row] [row', row] (.cons hrows (.cons (.refl _) .nil)) _ _ harranged _ _ _ _ hbuilt harranged
  exact ⟨document, _, _, row, row', hbuilt, harranged, rfl, hrow, hrow', hrows,
    by rw [hnames, hnames'], hread, hsame.trans hread, (hdocuments document).mpr hread, hpredicates,
    hbatch⟩

end DocumentStore
