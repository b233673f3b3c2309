import DocumentStore.Proofs.ReadingParts
import DocumentStore.Proofs.StoredSeconds
import DocumentStore.Proofs.StoredValues

/-!
# Normal forms of documents

A document does not come back from its row as it was written. Its score is gone, its metadata has
shrunk to the declared keys at every level, numbers have the width of their field, and timestamps
have become texts. `Document.normalized` says what comes back in terms of the declared fields alone;
rows, flags and placeholders do not occur in it. Something comes back exactly when every stored
second belongs to the calendar, as no other one has a text.
-/

set_option autoImplicit false

namespace DocumentStore

/-! ## Texts of instants -/

/-- The text of the second in which an instant lies. -/
def Instant.text (t : Instant) : String :=
  String.ofList (Time.secondText 'T' (t.nanos / Time.nanosPerSecond))

/-- The second of an instant of the calendar is written as the text of the instant, that of any other
one is refused. -/
theorem Instant.isoText_seconds (t : Instant) : Time.isoText t.seconds =
    if Time.InCalendar t.seconds.toInt then .ok t.text
    else .error (.validation (.timestampRange t.seconds)) := by
  rw [Time.isoText_eq, Instant.text, t.toInt_seconds]

/-! ## Normal forms of values -/

namespace MetaValue

/-- What comes back for a value that was stored in a leaf of the given type. -/
def normalizedLeaf (type : DataType) (value : MetaValue) : MetaValue :=
  match type, value with
  | .float32, .float x => .ofBinary32 (x.convert Floating.Format.binary32)
  | .float32, .int n => .ofBinary32 (Floating.ofInt n.toInt)
  | .float64, .int n => .float (Floating.ofInt n.toInt)
  | .timestamp _ _, .timestamp t => .string t.text
  | .timestamp _ _, .string s =>
    match Time.read s with
    | .instant t => .string t.text
    | _ => .string s
  | _, value => value

mutual

/-- What comes back for a value that was stored in a field of the given type. -/
def normalized (value : MetaValue) : DataType → MetaValue
  | .struct fields =>
    match value with
    | .map entries => .map (Dict.ofList (normalizedEntries entries fields))
    | value => value
  | type => normalizedLeaf type value

/-- The entries of the given fields, as they come back. -/
def normalizedEntries (entries : Metadata) :
    List (FieldOf DataType) → List (String × MetaValue)
  | [] => []
  | ⟨name, type, _, _⟩ :: rest =>
    if name = Column.flags then normalizedEntries entries rest
    else
      match entries.get? name with
      | some value => (name, value.normalized type) :: normalizedEntries entries rest
      | none => normalizedEntries entries rest

end

/-- In a leaf the normal form is that of the leaf. -/
theorem normalized_leaf {type : DataType} (leaf : type.members? = none) (value : MetaValue) :
    value.normalized type = value.normalizedLeaf type := by
  cases type <;> first | rfl | cases leaf

/-- The entry of one field, as it comes back. -/
def normalizedEntry (entries : Metadata) (field : Field) : Option (String × MetaValue) :=
  if field.name = Column.flags then none
  else (entries.get? field.name).map fun value => (field.name, value.normalized field.type)

/-- The entries that come back are those of the fields, one by one. -/
theorem normalizedEntries_eq_filterMap (entries : Metadata) (fields : List Field) :
    normalizedEntries entries fields = fields.filterMap (normalizedEntry entries) := by
  induction fields with
  | nil => rfl
  | cons field rest ih =>
    obtain ⟨name, type, nullable, annotations⟩ := field
    rw [normalizedEntries, List.filterMap_cons]
    unfold normalizedEntry at ih ⊢
    dsimp only
    split
    · exact ih
    · cases entries.get? name with
      | none => exact ih
      | some value => exact congrArg _ ih

end MetaValue

/-- What comes back of a document with the given declared fields. -/
def Document.normalized (document : Document) (fields : List Field) : Document :=
  { document with
    metadata := Dict.ofList (MetaValue.normalizedEntries document.metadata fields)
    score := none }

/-! ## Decoding gives normal forms -/

namespace Cell

/-- An integer that fits 32 bits is unchanged by going through them. -/
theorem toInt64_ofInt_toInt {n : Int64}
    (h : Int32.minValue.toInt ≤ n.toInt ∧ n.toInt ≤ Int32.maxValue.toInt) :
    (Int32.ofInt n.toInt).toInt64 = n := by
  have hmin : Int32.minValue.toInt = -2147483648 := by decide
  have hmax : Int32.maxValue.toInt = 2147483647 := by decide
  rw [hmin, hmax] at h
  rw [← Int64.toInt_inj, Int32.toInt_toInt64, Int32.toInt_ofInt_of_le] <;> omega

/-- The text of an instant is read of its stored second, provided that it belongs to the calendar. -/
theorem toMetaValue_timestamp_eq_ok_iff (t : Instant) (path : String) (result : MetaValue) :
    (Cell.timestamp t.seconds).toMetaValue path = .ok result ↔
      result = .string t.text ∧ Time.InCalendar t.seconds.toInt := by
  have hread : (Cell.timestamp t.seconds).toMetaValue path =
      (Time.isoText t.seconds).map MetaValue.string := bind_pure_eq_map _ _
  rw [hread, t.isoText_seconds]
  split
  · next h => simp [h, Except.map, eq_comm]
  · next h => simp [h, Except.map]

/-- What is stored in a leaf comes back in its normal form, provided that a stored second belongs to
the calendar. -/
theorem Encodes.toMetaValue_eq_ok_iff {type : DataType} {nullable : Bool} {value : MetaValue}
    {cell : Cell} (h : Encodes type nullable value cell) (path : String) (result : MetaValue) :
    cell.toMetaValue path = .ok result ↔
      result = value.normalizedLeaf type ∧ value.EverySecond Time.InCalendar type := by
  have untimed : cell.toMetaValue path = .ok (value.normalizedLeaf type) →
      value.EverySecond Time.InCalendar type → (cell.toMetaValue path = .ok result ↔
        result = value.normalizedLeaf type ∧ value.EverySecond Time.InCalendar type) := by
    intro hread hevery
    rw [hread, Except.ok.injEq, and_iff_left hevery]
    exact eq_comm
  cases h with
  | null => exact untimed (by cases type <;> rfl) (MetaValue.everySecond_null type)
  | int32 n range =>
    refine untimed ?_ (MetaValue.everySecond_of_leaf rfl (by simp) _)
    show Except.ok (MetaValue.int (Int32.ofInt n.toInt).toInt64) = .ok (.int n)
    rw [toInt64_ofInt_toInt range]
  | timestamp zone t =>
    rw [MetaValue.everySecond_instant_iff]
    exact toMetaValue_timestamp_eq_ok_iff t path result
  | @timestampText _ zone s t reads =>
    have hnormal : (MetaValue.string s).normalizedLeaf (.timestamp .second zone) =
        .string t.text := by
      simp only [MetaValue.normalizedLeaf, reads]
    rw [MetaValue.everySecond_text_iff _ _ reads, hnormal]
    exact toMetaValue_timestamp_eq_ok_iff t path result
  | _ => exact untimed rfl (MetaValue.everySecond_of_leaf rfl (by simp) _)

end Cell

namespace Document

/-- A leaf is read as its cell says. -/
theorem valueOf_leaf {type : DataType} (leaf : type.members? = none) (path : String)
    (cell : Cell) : valueOf path (some cell) type = cell.toMetaValue path := by
  cases type <;> first | rfl | cases leaf

/-- The entry of a field in normal form, if the document has it. -/
def normalEntry (entries : Option Metadata) (field : Field) : String × Option MetaValue :=
  (field.name, (Metadata.valueIn entries field).map fun value => value.normalized field.type)

/-- A field is read as its entry in normal form, under the condition under which its value is. -/
theorem entryOf_eq_ok_iff {field : Field} {record : Row} {entries : Option Metadata} {Q : Prop}
    (flag : record.flag? field.name = some (Metadata.valueIn entries field).isNone)
    (absent : Metadata.valueIn entries field = none → Q)
    (there : ∀ value, Metadata.valueIn entries field = some value → ∀ path result,
      valueOf path (record.get? field.name) field.type = .ok result ↔
        result = value.normalized field.type ∧ Q)
    (path : String) (found : String × Option MetaValue) :
    entryOf record path field = .ok found ↔ found = normalEntry entries field ∧ Q := by
  have hpresent : record.isPresent field.name path =
      .ok (Metadata.valueIn entries field).isSome := by
    unfold Row.isPresent
    rw [flag]
    dsimp only
    rw [Option.not_isNone]
  rw [entryOf, hpresent, ok_bind, normalEntry]
  cases hvalue : Metadata.valueIn entries field with
  | none => simp [absent hvalue, pure_eq_ok, eq_comm]
  | some value =>
    rw [if_pos Option.isSome_some, bind_eq_ok_iff]
    simp only [there value hvalue, pure_eq_ok, Except.ok.injEq, Option.map_some]
    constructor
    · rintro ⟨_, ⟨rfl, hq⟩, rfl⟩
      exact ⟨rfl, hq⟩
    · rintro ⟨rfl, hq⟩
      exact ⟨_, ⟨rfl, hq⟩, rfl⟩

/-- The entries that the document has are those of its normal form. -/
theorem presentEntries_normalEntry (entries : Option Metadata) (fields : List Field) :
    presentEntries ((Field.declared fields).map (normalEntry entries)) =
      MetaValue.normalizedEntries (entries.getD Dict.empty) fields := by
  rw [MetaValue.normalizedEntries_eq_filterMap]
  unfold presentEntries Field.declared
  rw [List.filterMap_map, List.filterMap_filter]
  refine List.filterMap_congr fun field _ => ?_
  unfold MetaValue.normalizedEntry
  by_cases hname : field.name = Column.flags
  · simp [hname]
  · have hvalue : Metadata.valueIn entries field =
        (entries.getD Dict.empty).get? field.name := by
      cases entries <;> rfl
    simp [hname, normalEntry, hvalue, Option.map_map, Function.comp_def]

/-- The entries of a level are read one by one, those that the document has. All of them come back
in normal form if each of them does. -/
theorem entriesOf_eq_ok_iff {fields : List Field} {record : Row} {entries : Option Metadata}
    {Q : Field → Prop}
    (flag : ∀ field ∈ Field.declared fields,
      record.flag? field.name = some (Metadata.valueIn entries field).isNone)
    (absent : ∀ field ∈ Field.declared fields, Metadata.valueIn entries field = none → Q field)
    (there : ∀ field ∈ Field.declared fields, ∀ value, Metadata.valueIn entries field = some value →
      ∀ path result, valueOf path (record.get? field.name) field.type = .ok result ↔
        result = value.normalized field.type ∧ Q field)
    (path : String) (found result : Metadata) :
    entriesOf record path fields found = .ok result ↔
      result = (MetaValue.normalizedEntries (entries.getD Dict.empty) fields).foldl
        (fun d e => d.insert e.1 e.2) found ∧ ∀ field ∈ Field.declared fields, Q field := by
  have hall : List.Forall₂ (fun field named => ∀ found, entryOf record path field = .ok found ↔
      found = named ∧ Q field) (Field.declared fields)
        ((Field.declared fields).map (normalEntry entries)) := by
    rw [List.forall₂_map_right_iff, List.forall₂_same]
    exact fun field hfield => entryOf_eq_ok_iff (flag field hfield) (absent field hfield)
      (there field hfield) path
  rw [entriesOf_eq_mapM, map_eq_ok_iff]
  simp only [mapM_eq_ok_iff_of_forall₂ hall]
  unfold collect
  constructor
  · rintro ⟨_, ⟨rfl, hq⟩, rfl⟩
    exact ⟨by rw [presentEntries_normalEntry], hq⟩
  · rintro ⟨rfl, hq⟩
    exact ⟨_, ⟨rfl, hq⟩, by rw [presentEntries_normalEntry]⟩

/-- A stored value comes back in its normal form, provided that every stored second belongs to the
calendar; otherwise it cannot be read. -/
theorem valueOf_stored_eq_ok_iff {type : DataType} {nullable : Bool} {value? : Option MetaValue}
    {cell : Cell} (h : Stored type nullable value? cell) :
    ∀ value, value? = some value → ∀ path result,
      valueOf path (some cell) type = .ok result ↔
        result = value.normalized type ∧ value.EverySecond Time.InCalendar type := by
  induction h with
  | leaf leaf h =>
    intro value hvalue path result
    cases hvalue
    rw [valueOf_leaf (members?_eq_none leaf), MetaValue.normalized_leaf (members?_eq_none leaf)]
    exact h.toMetaValue_eq_ok_iff path result
  | absentLeaf leaf h =>
    intro value hvalue
    cases hvalue
  | null =>
    intro value hvalue path result
    cases hvalue
    show Except.ok MetaValue.null = .ok result ↔ _
    rw [Except.ok.injEq, and_iff_left (MetaValue.everySecond_null _)]
    exact eq_comm
  | @struct fields nullable entries record level flag there below ih =>
    intro value hvalue path result
    cases entries with
    | none => cases hvalue
    | some entries =>
      cases hvalue
      have hmember : ∀ field ∈ Field.declared fields, ∀ value,
          Metadata.valueIn (some entries) field = some value → ∀ path result,
            valueOf path (record.get? field.name) field.type = .ok result ↔
              result = value.normalized field.type ∧
                ∀ value, entries.get? field.name = some value →
                  value.EverySecond Time.InCalendar field.type := by
        intro field hfield value hvalue path result
        have hheld : entries.get? field.name = some value := hvalue
        obtain ⟨cell, hcell⟩ := there field hfield
        rw [hcell, ih field hfield cell hcell value hvalue path result]
        simp [hheld]
      have habsent : ∀ field ∈ Field.declared fields,
          Metadata.valueIn (some entries) field = none → ∀ value,
            entries.get? field.name = some value →
              value.EverySecond Time.InCalendar field.type := by
        intro field _ hnone value hvalue
        have hheld : entries.get? field.name = none := hnone
        rw [hheld] at hvalue
        cases hvalue
      rw [valueOf, bind_pure_eq_map, map_eq_ok_iff, MetaValue.everySecond_struct_iff]
      simp only [entriesOf_eq_ok_iff flag habsent hmember]
      constructor
      · rintro ⟨_, ⟨rfl, hevery⟩, rfl⟩
        exact ⟨rfl, hevery⟩
      · rintro ⟨rfl, hevery⟩
        exact ⟨_, ⟨rfl, hevery⟩, rfl⟩

end Document

/-! ## Normal forms and canonical fields -/

namespace MetaValue

/-- The names of normalised entries are among those of the fields. -/
theorem names_normalizedEntries_sublist (entries : Metadata) (fields : List Field) :
    ((normalizedEntries entries fields).map Prod.fst).Sublist (fields.map FieldOf.name) := by
  induction fields with
  | nil => exact List.Sublist.slnil
  | cons field rest ih =>
    obtain ⟨name, type, nullable, annotations⟩ := field
    rw [normalizedEntries]
    split
    · exact ih.cons name
    · split
      · exact ih.cons_cons name
      · exact ih.cons name

/-- The normal form does not depend on the order of the fields of a level. -/
theorem ofList_normalizedEntries_perm {left right : List Field} (h : left.Perm right)
    (nodup : (left.map FieldOf.name).Nodup) (entries : Metadata) :
    Dict.ofList (normalizedEntries entries left) =
      Dict.ofList (normalizedEntries entries right) := by
  refine Dict.ofList_perm ?_ (nodup.sublist (names_normalizedEntries_sublist entries left))
  rw [normalizedEntries_eq_filterMap, normalizedEntries_eq_filterMap]
  exact h.filterMap _

/-- Flags at the head of a level, and the order of what follows, leave the normal form as it is. -/
theorem ofList_normalizedEntries_canonicalLevel {path : String} {fields children : List Field}
    (hall : List.Forall₂ (Schema.CanonicalOf path) fields children)
    (nodup : (fields.map FieldOf.name).Nodup)
    (hnormal : ∀ field ∈ fields, ∀ path type, Schema.canonicalType path field.type = .ok type →
      ∀ value : MetaValue, value.normalized type = value.normalized field.type)
    (entries : Metadata) :
    Dict.ofList (normalizedEntries entries (Schema.canonicalLevel children)) =
      Dict.ofList (normalizedEntries entries fields) := by
  have hhead : normalizedEntries entries (Schema.canonicalLevel children) =
      normalizedEntries entries (Schema.sortByName children) := by
    unfold Schema.canonicalLevel Schema.flagsField FieldOf.plain
    rw [normalizedEntries, if_pos rfl]
  have hsame : normalizedEntries entries children = normalizedEntries entries fields := by
    clear nodup hhead
    induction hall with
    | nil => rfl
    | @cons field child fields children hfield _ ih =>
      obtain ⟨name, type, nullable, annotations⟩ := field
      obtain ⟨name', type', nullable', annotations'⟩ := child
      have hname : name' = name := hfield.name_eq
      subst hname
      have htype : ∀ value : MetaValue, value.normalized type' = value.normalized type :=
        hnormal _ (List.mem_cons_self ..) _ _ hfield.type_eq
      rw [normalizedEntries, normalizedEntries,
        ih fun field hf => hnormal field (List.mem_cons_of_mem _ hf)]
      cases entries.get? name' with
      | none => rfl
      | some value =>
        dsimp only
        rw [htype value]
  have hperm := Schema.sortByName_perm children
  have hnodup : ((Schema.sortByName children).map FieldOf.name).Nodup := by
    rw [(hperm.map FieldOf.name).nodup_iff, Schema.names_eq_of_canonicalOf hall]
    exact nodup
  rw [hhead, ofList_normalizedEntries_perm hperm hnodup, hsame]

/-- A value has the same normal form in a declared type as in its canonical form. -/
theorem normalized_canonicalType (type : DataType) :
    ∀ (path : String) (canonical : DataType), Schema.canonicalType path type = .ok canonical →
      ∀ value : MetaValue, value.normalized canonical = value.normalized type := by
  induction type using DataType.struct_induction with
  | leaf type leaf =>
    intro path canonical h
    rw [Schema.canonicalType_leaf leaf] at h
    split at h
    · cases h
      exact fun _ => rfl
    · cases h
  | struct fields ih =>
    intro path canonical h value
    rw [Schema.canonicalType] at h
    obtain ⟨children, hchildren, h⟩ := (bind_eq_ok_iff _ _ _).mp h
    cases h
    obtain ⟨hall, hnodup, -⟩ := Schema.canonicalFields_eq_ok hchildren
    cases value with
    | map entries =>
      rw [normalized, normalized,
        ofList_normalizedEntries_canonicalLevel hall hnodup ih entries]
    | _ => rfl

/-- A level of normalised entries has the declared keys that the level had, and no others. -/
theorem get?_normalizedEntries {fields : List Field} (nodup : (fields.map FieldOf.name).Nodup)
    (entries : Metadata) {field : Field} (hfield : field ∈ fields)
    (hname : field.name ≠ Column.flags) :
    (Dict.ofList (normalizedEntries entries fields)).get? field.name =
      (entries.get? field.name).map fun value => value.normalized field.type := by
  have hnodup := nodup.sublist (names_normalizedEntries_sublist entries fields)
  rw [Dict.get?_ofList hnodup, normalizedEntries_eq_filterMap]
  rw [normalizedEntries_eq_filterMap] at hnodup
  cases hvalue : entries.get? field.name with
  | some value =>
    refine lookup_of_mem hnodup (List.mem_filterMap.mpr ⟨field, hfield, ?_⟩)
    unfold normalizedEntry
    rw [if_neg hname, hvalue]
    rfl
  | none =>
    rw [Option.map_none, lookup_eq_none_iff_not_mem]
    intro hmem
    obtain ⟨⟨name, value⟩, hentry, rfl⟩ := List.mem_map.mp hmem
    obtain ⟨other, hother, hnormal⟩ := List.mem_filterMap.mp hentry
    unfold normalizedEntry at hnormal
    split at hnormal
    · cases hnormal
    · obtain ⟨held, hheld, heq⟩ := Option.map_eq_some_iff.mp hnormal
      have hsame : other.name = field.name := congrArg Prod.fst heq
      rw [hsame, hvalue] at hheld
      cases hheld

end MetaValue

end DocumentStore
