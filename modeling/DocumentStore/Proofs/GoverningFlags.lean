import DocumentStore.Proofs.Agreement
import DocumentStore.Proofs.DeclaredPaths
import DocumentStore.Proofs.NormalForm
import DocumentStore.Proofs.ReadingParts

/-!
# Flags govern reading

Reading goes through a row by its flags: it comes to the columns of a document, and in the metadata
to the fields of every struct that is there and not null. A row is readable only if there is a flag
for each field that reading comes to. The document then has an entry for what is flagged present,
and nothing else in the row matters, whatever stands where a flag says that nothing is there. This
holds of any record with any schema that has metadata, not only of rows that were written for a
document.
-/

set_option autoImplicit false

namespace DocumentStore

/-! ## What reading comes to -/

/-- The columns whose flags are read. -/
def Column.read : List String :=
  [Column.content, Column.blob, Column.dataframe, Column.vector, Column.metadata]

/-- The field is the last of its name in the list. -/
inductive Field.Last : List Field → Field → Prop
  | head {field : Field} {rest : List Field} (h : ∀ other ∈ rest, other.name ≠ field.name) :
      Last (field :: rest) field
  | tail {first field : Field} {rest : List Field} (h : Last rest field) :
      Last (first :: rest) field

/-- The last field of its name in a longer list is that of the rest, or the first one if no other has
the name. -/
theorem Field.last_cons_iff (first field : Field) (rest : List Field) :
    Field.Last (first :: rest) field ↔
      Field.Last rest field ∨ (field = first ∧ ∀ other ∈ rest, other.name ≠ first.name) := by
  constructor
  · intro h
    cases h with
    | head h => exact .inr ⟨rfl, h⟩
    | tail h => exact .inl h
  · rintro (h | ⟨rfl, h⟩)
    · exact .tail h
    · exact .head h

/-- The last field of a name is one of the fields. -/
theorem Field.Last.mem {fields : List Field} {field : Field} (h : Field.Last fields field) :
    field ∈ fields := by
  induction h with
  | head => exact List.mem_cons_self ..
  | tail _ ih => exact List.mem_cons_of_mem _ ih

namespace Row

/-- The stored metadata, if the row has a struct there that is flagged present. -/
def metadata? (row : Row) : Option Row :=
  if row.flag? Column.metadata = some false then (row.get? Column.metadata).bind Cell.members?
  else none

/-- The names lead from a record at a level of fields to a field of it or of a level below, through
structs that are there and flagged present. `Picks` says which fields of a level are followed. -/
inductive Reaches (Picks : List Field → Field → Prop) :
    Row → List Field → List String → Row → Field → Prop
  | here {record : Row} {fields : List Field} {field : Field} (h : Picks fields field) :
      Reaches Picks record fields [field.name] record field
  | inside {record stored level : Row} {fields members : List Field} {field reached : Field}
      {names : List String} (h : Picks fields field) (type : field.type = .struct members)
      (present : record.flag? field.name = some false)
      (held : record.get? field.name = some (.struct stored))
      (rest : Reaches Picks stored members names level reached) :
      Reaches Picks record fields (field.name :: names) level reached

/-- The names lead to a declared field. -/
def ReachesField : Row → List Field → List String → Row → Field → Prop :=
  Reaches fun fields field => field ∈ Field.declared fields

/-- The name of a declared field leads to it. -/
theorem reachesField_here {record : Row} {fields : List Field} {field : Field}
    (h : field ∈ Field.declared fields) :
    record.ReachesField fields [field.name] record field :=
  Reaches.here h

/-- A name leads into a struct that is flagged present, and further names on from there. -/
theorem reachesField_inside {record stored level : Row} {fields members : List Field}
    {field reached : Field} {names : List String} (h : field ∈ Field.declared fields)
    (type : field.type = .struct members) (present : record.flag? field.name = some false)
    (held : record.get? field.name = some (.struct stored))
    (rest : stored.ReachesField members names level reached) :
    record.ReachesField fields (field.name :: names) level reached :=
  Reaches.inside h type present held rest

/-- The names lead to a declared field, each of them meaning the last field of that name. -/
def ReachesLast : Row → List Field → List String → Row → Field → Prop :=
  Reaches fun fields field => Field.Last (Field.declared fields) field

end Row

/-- No two declared fields of a struct in the type have one name. -/
inductive DataType.DistinctNames : DataType → Prop
  | leaf {type : DataType} (leaf : type.members? = none) : DistinctNames type
  | struct {fields : List Field} (nodup : ((Field.declared fields).map FieldOf.name).Nodup)
      (below : ∀ field ∈ Field.declared fields, DistinctNames field.type) :
      DistinctNames (.struct fields)

/-- What stands in two records for a field of the type is the same, or both are structs that agree
in the flags of their fields and in what stands in those that are present. -/
inductive Cell.ReadAlike : DataType → Option Cell → Option Cell → Prop
  | same {type : DataType} {cell : Option Cell} : ReadAlike type cell cell
  | struct {fields : List Field} {record record' : Row}
      (flags : ∀ field ∈ Field.declared fields,
        record.flag? field.name = record'.flag? field.name)
      (present : ∀ field ∈ Field.declared fields, record.flag? field.name = some false →
        ReadAlike field.type (record.get? field.name) (record'.get? field.name)) :
      ReadAlike (.struct fields) (some (.struct record)) (some (.struct record'))

/-- Two rows agree in what reading with the given metadata fields comes to. -/
structure Row.ReadAlike (row row' : Row) (fields : List Field) : Prop where
  id : row.get? Column.id = row'.get? Column.id
  score : row.get? Column.score = row'.get? Column.score
  distance : row.get? Column.distance = row'.get? Column.distance
  hasFlags : (row.get? Column.flags).isSome = (row'.get? Column.flags).isSome
  flag : ∀ name ∈ Column.read, row.flag? name = row'.flag? name
  column : ∀ name ∈ Column.read, name ≠ Column.metadata → row.flag? name = some false →
    row.get? name = row'.get? name
  metadata : row.flag? Column.metadata = some false →
    Cell.ReadAlike (.struct fields) (row.get? Column.metadata) (row'.get? Column.metadata)

/-! ## Fields of one name -/

/-- Among distinct names every field is the last of its name. -/
theorem Field.last_iff_mem {fields : List Field} (nodup : (fields.map FieldOf.name).Nodup)
    (field : Field) : Field.Last fields field ↔ field ∈ fields := by
  induction fields with
  | nil => exact iff_of_false (fun h => by cases h) List.not_mem_nil
  | cons first rest ih =>
    rw [List.map_cons, List.nodup_cons] at nodup
    rw [Field.last_cons_iff, ih nodup.2, List.mem_cons, or_comm]
    refine or_congr_left (and_iff_left_of_imp fun _ other hother hname => nodup.1 ?_)
    exact hname ▸ List.mem_map_of_mem hother

/-- Where names are distinct, the last field of a name is the only one. -/
theorem Row.reachesLast_iff {record level : Row} {fields : List Field} {names : List String}
    {field : Field} (distinct : (DataType.struct fields).DistinctNames) :
    record.ReachesLast fields names level field ↔ record.ReachesField fields names level field := by
  constructor
  · intro reaches
    induction reaches with
    | here hlast => exact .here hlast.mem
    | inside hlast htype hpresent hheld _ ih =>
      cases distinct with
      | leaf leaf => cases leaf
      | struct nodup below =>
        exact .inside hlast.mem htype hpresent hheld (ih (htype ▸ below _ hlast.mem))
  · intro reaches
    induction reaches with
    | here hfield =>
      cases distinct with
      | leaf leaf => cases leaf
      | struct nodup below => exact .here ((Field.last_iff_mem nodup _).mpr hfield)
    | inside hfield htype hpresent hheld _ ih =>
      cases distinct with
      | leaf leaf => cases leaf
      | struct nodup below =>
        exact .inside ((Field.last_iff_mem nodup _).mpr hfield) htype hpresent hheld
          (ih (htype ▸ below _ hfield))

/-! ## Flags of columns and fields -/

namespace Row

/-- A column that can be read is flagged, and its value is there when it is flagged present. -/
theorem presentColumn_eq_ok {row : Row} {name : String} {cell : Option Cell}
    (h : row.presentColumn name = .ok cell) :
    (row.flag? name = some false ∧ row.get? name = cell ∧ cell.isSome = true) ∨
      (row.flag? name = some true ∧ cell = none) := by
  unfold presentColumn at h
  split at h
  · cases h
  obtain ⟨there, hthere, h⟩ := (bind_eq_ok_iff _ _ _).mp h
  rw [isPresent_eq_ok_iff] at hthere
  cases there with
  | false =>
    cases h
    exact .inr ⟨hthere, rfl⟩
  | true =>
    rw [if_pos rfl] at h
    split at h
    · next value hvalue =>
      cases h
      exact .inl ⟨hthere, hvalue, rfl⟩
    · cases h

end Row

namespace Document

/-- A level that can be read has a flag for each of its fields, and the value of each field that is
flagged present can be read. -/
theorem flag_of_entryOf {record : Row} {path : String} {field : Field}
    {entry : String × Option MetaValue} (h : entryOf record path field = .ok entry) :
    (record.flag? field.name = some true ∧ entry = (field.name, none)) ∨
      (record.flag? field.name = some false ∧ ∃ value,
        valueOf (path ++ "." ++ field.name) (record.get? field.name) field.type = .ok value ∧
          entry = (field.name, some value)) := by
  obtain ⟨there, hthere, h⟩ := (bind_eq_ok_iff _ _ _).mp h
  rw [Row.isPresent_eq_ok_iff] at hthere
  cases there with
  | false =>
    cases h
    exact .inl ⟨hthere, rfl⟩
  | true =>
    obtain ⟨value, hvalue, h⟩ := (bind_eq_ok_iff _ _ _).mp h
    cases h
    exact .inr ⟨hthere, value, hvalue, rfl⟩

section Collecting

variable {record : Row} {path name : String} {value : MetaValue} {field : Field}
  {rest : List Field}

/-- The last field of the name is flagged present and read as the value. -/
def LastRead (record : Row) (path : String) (fields : List Field) (name : String)
    (value : MetaValue) : Prop :=
  ∃ field, Field.Last fields field ∧ field.name = name ∧ record.flag? name = some false ∧
    valueOf (path ++ "." ++ name) (record.get? name) field.type = .ok value

/-- No field of the name is read. -/
def NoneRead (record : Row) (fields : List Field) (name : String) : Prop :=
  record.flag? name = some false → ∀ field ∈ fields, field.name ≠ name

/-- A field of another name, or one that is flagged absent, is passed over. -/
theorem lastRead_cons (passed : record.flag? name = some false → field.name ≠ name) :
    LastRead record path (field :: rest) name value ↔ LastRead record path rest name value := by
  refine exists_congr fun other => ?_
  rw [Field.last_cons_iff]
  constructor
  · rintro ⟨hlast | ⟨rfl, -⟩, hname, hflag, hvalue⟩
    · exact ⟨hlast, hname, hflag, hvalue⟩
    · exact absurd hname (passed hflag)
  · exact fun h => ⟨.inl h.1, h.2⟩

/-- No field of a name is read after one that is passed over exactly when none is among the
others. -/
theorem noneRead_cons (passed : record.flag? name = some false → field.name ≠ name) :
    NoneRead record (field :: rest) name ↔ NoneRead record rest name := by
  refine forall_congr' fun hflag => ?_
  rw [List.forall_mem_cons]
  exact and_iff_right (passed hflag)

/-- A level is read into the values of the fields that are flagged present; of fields with one name
the last counts. -/
theorem get?_collect {fields : List Field} {entries : List (String × Option MetaValue)}
    (h : fields.mapM (entryOf record path) = .ok entries) (found : Metadata) :
    (collect found entries).get? name = some value ↔ LastRead record path fields name value ∨
      (NoneRead record fields name ∧ found.get? name = some value) := by
  induction fields generalizing entries found with
  | nil =>
    cases h
    refine (or_iff_right ?_).symm.trans (or_congr_right ?_)
    · rintro ⟨_, ⟨⟩, -⟩
    · simp [NoneRead, collect, presentEntries]
  | cons field rest ih =>
    rw [List.mapM_cons] at h
    obtain ⟨entry, hentry, h⟩ := (bind_eq_ok_iff _ _ _).mp h
    obtain ⟨others, hothers, h⟩ := (bind_eq_ok_iff _ _ _).mp h
    cases h
    rcases flag_of_entryOf hentry with ⟨hflag, rfl⟩ | ⟨hflag, held, hheld, rfl⟩
    · have passed : record.flag? name = some false → field.name ≠ name := by
        rintro hfalse rfl
        rw [hflag] at hfalse
        cases hfalse
      show (collect found others).get? name = some value ↔ _
      rw [ih hothers, lastRead_cons passed, noneRead_cons passed]
    · show (collect (found.insert field.name held) others).get? name = some value ↔ _
      rw [ih hothers, Dict.get?_insert]
      by_cases hname : name = field.name
      · subst hname
        rw [if_pos rfl]
        constructor
        · rintro (⟨other, hlast, hrest⟩ | ⟨hnone, ⟨⟩⟩)
          · exact .inl ⟨other, .tail hlast, hrest⟩
          · exact .inl ⟨field, .head (hnone hflag), rfl, hflag, hheld⟩
        · rintro (⟨other, hlast, hother, hfalse, hvalue⟩ | ⟨hnone, -⟩)
          · rcases (Field.last_cons_iff _ _ _).mp hlast with hlast | ⟨rfl, hlast⟩
            · exact .inl ⟨other, hlast, hother, hfalse, hvalue⟩
            · rw [hheld] at hvalue
              cases hvalue
              exact .inr ⟨fun _ => hlast, rfl⟩
          · exact absurd rfl (hnone hflag field (List.mem_cons_self ..))
      · have passed : record.flag? name = some false → field.name ≠ name := fun _ => Ne.symm hname
        rw [if_neg hname, lastRead_cons passed, noneRead_cons passed]

/-- The entries of a level are the values of those of its fields that are flagged present. -/
theorem get?_entriesOf {fields : List Field} {entries : Metadata}
    (h : entriesOf record path fields Dict.empty = .ok entries) :
    entries.get? name = some value ↔ LastRead record path (Field.declared fields) name value := by
  rw [entriesOf_eq_mapM, map_eq_ok_iff] at h
  obtain ⟨read, hread, rfl⟩ := h
  rw [get?_collect hread]
  exact or_iff_left fun h => by cases h.2

end Collecting

/-- The fields of a level that is read are read one by one. -/
theorem entryOf_of_entriesOf {record : Row} {path : String} {fields : List Field}
    {entries : Metadata} (h : entriesOf record path fields Dict.empty = .ok entries) {field : Field}
    (hfield : field ∈ Field.declared fields) :
    ∃ entry, entryOf record path field = .ok entry := by
  rw [entriesOf_eq_mapM, map_eq_ok_iff] at h
  obtain ⟨read, hread, -⟩ := h
  obtain ⟨entry, -, hentry⟩ := exists_related ((mapM_eq_ok_iff _ _ _).mp hread) hfield
  exact ⟨entry, hentry⟩

/-- Only a struct that is stored for a struct type is read as a map. -/
theorem valueOf_eq_map {path : String} {cell : Option Cell} {type : DataType} {entries : Metadata}
    (h : valueOf path cell type = .ok (.map entries)) :
    ∃ members stored, type = .struct members ∧ cell = some (.struct stored) ∧
      entriesOf stored path members Dict.empty = .ok entries := by
  cases hmembers : type.members? with
  | none =>
    cases cell with
    | none => cases type <;> cases h
    | some cell =>
      rw [valueOf_leaf hmembers] at h
      cases cell with
      | timestamp seconds =>
        obtain ⟨text, -, h⟩ := (bind_eq_ok_iff _ _ _).mp h
        cases h
      | _ => cases h
  | some members =>
    cases type with
    | struct members =>
      rcases cell with _ | cell
      · cases h
      cases cell with
      | struct stored =>
        obtain ⟨found, hfound, h⟩ := (bind_eq_ok_iff _ _ _).mp h
        cases h
        exact ⟨members, stored, rfl, rfl, hfound⟩
      | _ => cases h
    | _ => cases hmembers

/-! ## Reaching fields -/

/-- Where a level can be read, every field that reading comes to is flagged. -/
theorem flagged_of_reachesField {record level : Row} {fields : List Field} {names : List String}
    {field : Field} (reaches : record.ReachesField fields names level field) :
    ∀ {path entries}, entriesOf record path fields Dict.empty = .ok entries →
      ∃ flag, level.flag? field.name = some flag := by
  induction reaches with
  | here hfield =>
    intro path entries h
    obtain ⟨entry, hentry⟩ := entryOf_of_entriesOf h hfield
    rcases flag_of_entryOf hentry with ⟨hflag, -⟩ | ⟨hflag, -⟩
    · exact ⟨true, hflag⟩
    · exact ⟨false, hflag⟩
  | inside hfield htype hpresent hheld _ ih =>
    intro path entries h
    obtain ⟨entry, hentry⟩ := entryOf_of_entriesOf h hfield
    rcases flag_of_entryOf hentry with ⟨hflag, -⟩ | ⟨-, value, hvalue, -⟩
    · rw [hpresent] at hflag
      cases hflag
    · rw [hheld, htype, valueOf_struct, map_eq_ok_iff] at hvalue
      obtain ⟨inner, hinner, -⟩ := hvalue
      exact ih hinner

/-- The last field of its name is read into the entry of that name if it is flagged present. -/
theorem exists_value_of_last {record : Row} {path : String} {fields : List Field}
    {entries : Metadata} (h : entriesOf record path fields Dict.empty = .ok entries) {field : Field}
    (hlast : Field.Last (Field.declared fields) field)
    (hflag : record.flag? field.name = some false) :
    ∃ value, entries.get? field.name = some value ∧
      valueOf (path ++ "." ++ field.name) (record.get? field.name) field.type = .ok value := by
  obtain ⟨entry, hentry⟩ := entryOf_of_entriesOf h hlast.mem
  rcases flag_of_entryOf hentry with ⟨hflag', -⟩ | ⟨-, value, hvalue, -⟩
  · rw [hflag] at hflag'
    cases hflag'
  · exact ⟨value, (get?_entriesOf h).mpr ⟨field, hlast, rfl, hflag, hvalue⟩, hvalue⟩

/-- The keys that lead to an entry of a level that was read are those that lead to a field which is
flagged present. -/
theorem isSome_at?_iff {name : String} {names : List String} :
    ∀ {record : Row} {path : String} {fields : List Field} {entries : Metadata},
      entriesOf record path fields Dict.empty = .ok entries →
      (((MetaValue.map entries).at? (name :: names)).isSome = true ↔
        ∃ level field, record.ReachesLast fields (name :: names) level field ∧
          level.flag? field.name = some false) := by
  induction names generalizing name with
  | nil =>
    intro record path fields entries h
    have hat : (MetaValue.map entries).at? [name] = entries.get? name := by
      rw [MetaValue.at?]
      cases entries.get? name <;> rfl
    rw [hat, Option.isSome_iff_exists]
    constructor
    · rintro ⟨value, hvalue⟩
      obtain ⟨field, hlast, rfl, hflag, -⟩ := (get?_entriesOf h).mp hvalue
      exact ⟨record, field, .here hlast, hflag⟩
    · rintro ⟨level, field, reaches, hflag⟩
      cases reaches with
      | here hlast =>
        obtain ⟨value, hvalue, -⟩ := exists_value_of_last h hlast hflag
        exact ⟨value, hvalue⟩
      | inside _ _ _ _ rest => cases rest
  | cons next rest ih =>
    intro record path fields entries h
    rw [MetaValue.at?]
    constructor
    · intro hsome
      cases hget : entries.get? name with
      | none =>
        rw [hget] at hsome
        cases hsome
      | some value =>
        rw [hget] at hsome
        cases value with
        | map inner =>
          obtain ⟨field, hlast, rfl, hpresent, hvalue⟩ := (get?_entriesOf h).mp hget
          obtain ⟨members, stored, htype, hheld, hinner⟩ := valueOf_eq_map hvalue
          obtain ⟨level, reached, reaches, hflag⟩ := (ih hinner).mp hsome
          exact ⟨level, reached, .inside hlast htype hpresent hheld reaches, hflag⟩
        | _ => cases hsome
    · rintro ⟨level, reached, reaches, hflag⟩
      cases reaches with
      | @inside _ stored _ _ members field _ _ hlast htype hpresent hheld reaches =>
        obtain ⟨value, hget, hvalue⟩ := exists_value_of_last h hlast hpresent
        rw [hheld, htype, valueOf_struct, map_eq_ok_iff] at hvalue
        obtain ⟨inner, hinner, rfl⟩ := hvalue
        rw [hget]
        exact (ih hinner).mpr ⟨level, reached, reaches, hflag⟩

/-! ## Rows that are read alike -/

/-- What is read from two records in one place does not depend on what their flags hide. -/
theorem valueOf_readAlike {type : DataType} {cell cell' : Option Cell}
    (h : Cell.ReadAlike type cell cell') :
    ∀ path, valueOf path cell type = valueOf path cell' type := by
  induction h with
  | same => exact fun _ => rfl
  | struct flags _ ih =>
    intro path
    rw [valueOf_struct, valueOf_struct, entriesOf_readAlike flags ih]

/-- A column is read alike if its flags are and, where it is flagged present, what stands in it. -/
theorem presentColumn_agree {row row' : Row} {name : String}
    {R : Option Cell → Option Cell → Prop} (absent : R none none)
    (there : ∀ cell cell', R cell cell' → cell.isSome = cell'.isSome)
    (hasFlags : (row.get? Column.flags).isSome = (row'.get? Column.flags).isSome)
    (flag : row.flag? name = row'.flag? name)
    (stored : row.flag? name = some false → R (row.get? name) (row'.get? name)) :
    Agree R (row.presentColumn name) (row'.presentColumn name) := by
  have hpresent := Row.isPresent_congr flag "<root>"
  unfold Row.presentColumn
  rcases hflags : row.get? Column.flags with _ | flags <;>
    rcases hflags' : row'.get? Column.flags with _ | flags' <;>
    rw [hflags, hflags'] at hasFlags
  · exact .error _
  · cases hasFlags
  · cases hasFlags
  dsimp only
  rw [← hpresent]
  cases hthere : row.isPresent name "<root>" with
  | error e => exact .error e
  | ok present =>
    rw [ok_bind, ok_bind]
    cases present with
    | false => exact .ok absent
    | true =>
      rw [if_pos rfl, if_pos rfl]
      have hstored := stored ((Row.isPresent_eq_ok_iff _ _ _ _).mp hthere)
      have hsome := there _ _ hstored
      generalize row.get? name = cell at hstored hsome
      generalize row'.get? name = cell' at hstored hsome
      rcases cell with _ | cell <;> rcases cell' with _ | cell'
      · exact .error _
      · cases hsome
      · cases hsome
      · exact .ok hstored

/-- Metadata that is read alike is the same metadata, or fails with the same error. -/
theorem metadataOf_readAlike {fields : List Field} {cell cell' : Option Cell}
    (h : Cell.ReadAlike (.struct fields) cell cell') :
    metadataOf fields cell = metadataOf fields cell' := by
  cases h with
  | same => rfl
  | struct flags present =>
    exact entriesOf_readAlike flags
      (fun field hfield hflag => valueOf_readAlike (present field hfield hflag)) _ _

variable {row row' : Row} {schema : Schema} {fields : List Field}

/-- Rows that are read alike give the same document, or fail with the same error. -/
theorem ofRow_readAlike (hfields : schema.metadataFields = .ok fields)
    (h : row.ReadAlike row' fields) : ofRow row' schema = ofRow row schema := by
  have hid : idOf row = idOf row' := by
    unfold idOf
    rw [h.id]
  have hscore : scoreOf row = scoreOf row' := by
    unfold scoreOf
    rw [h.score, h.distance]
  have hcolumn : ∀ name ∈ Column.read, name ≠ Column.metadata →
      row.presentColumn name = row'.presentColumn name := by
    intro name hname hne
    exact (presentColumn_agree rfl (fun _ _ h => h ▸ rfl) h.hasFlags (h.flag name hname)
      (h.column name hname hne)).eq
  have hmetadata : (row.presentColumn Column.metadata >>= metadataOf fields) =
      (row'.presentColumn Column.metadata >>= metadataOf fields) := by
    refine Agree.bind_eq (presentColumn_agree .same ?_ h.hasFlags (h.flag _ (by decide)) h.metadata)
      fun _ _ => metadataOf_readAlike
    rintro _ _ (_ | _) <;> rfl
  have hcontent := hcolumn Column.content (by decide) (by decide)
  have hblob := hcolumn Column.blob (by decide) (by decide)
  have hframe := hcolumn Column.dataframe (by decide) (by decide)
  have hvector := hcolumn Column.vector (by decide) (by decide)
  rw [ofRow_eq, ofRow_eq, hfields, ok_bind, ok_bind, hid, hcontent, hblob, hframe, hvector,
    hmetadata, hscore]

/-! ## Reading a row -/

/-- A document is read from a row of which all columns can be read. -/
theorem parts_of_ofRow (hfields : schema.metadataFields = .ok fields) {document : Document}
    (h : ofRow row schema = .ok document) :
    (∀ name ∈ Column.read, ∃ cell, row.presentColumn name = .ok cell) ∧
      (row.presentColumn Column.metadata >>= metadataOf fields) = .ok document.metadata := by
  rw [ofRow_eq, hfields, ok_bind] at h
  obtain ⟨id, -, h⟩ := (bind_eq_ok_iff _ _ _).mp h
  obtain ⟨content, hcontent, h⟩ := (bind_eq_ok_iff _ _ _).mp h
  obtain ⟨blob, hblob, h⟩ := (bind_eq_ok_iff _ _ _).mp h
  obtain ⟨dataframe, hdataframe, h⟩ := (bind_eq_ok_iff _ _ _).mp h
  obtain ⟨embedding, hembedding, h⟩ := (bind_eq_ok_iff _ _ _).mp h
  obtain ⟨metadata, hmetadata, h⟩ := (bind_eq_ok_iff _ _ _).mp h
  cases h
  have hread : ∀ {name : String} {α : Type} {reader : Option Cell → Except Error α} {a : α},
      (row.presentColumn name >>= reader) = .ok a → ∃ cell, row.presentColumn name = .ok cell :=
    fun h => ((bind_eq_ok_iff _ _ _).mp h).imp fun _ => And.left
  refine ⟨?_, hmetadata⟩
  unfold Column.read
  simp only [List.forall_mem_cons]
  exact ⟨hread hcontent, hread hblob, hread hdataframe, hread hembedding, hread hmetadata, by simp⟩

/-- The metadata of a document is read from the stored metadata if that is there, and is empty
otherwise. -/
theorem metadata_of_ofRow (hfields : schema.metadataFields = .ok fields) {document : Document}
    (h : ofRow row schema = .ok document) :
    (∀ record, row.metadata? = some record →
      entriesOf record Column.metadata fields Dict.empty = .ok document.metadata) ∧
    (row.metadata? = none → document.metadata = Dict.empty) := by
  obtain ⟨cell, hcell, hmetadata⟩ :=
    (bind_eq_ok_iff _ _ _).mp (parts_of_ofRow hfields h).2
  have hstored : row.metadata? = cell.bind Cell.members? := by
    unfold Row.metadata?
    rcases Row.presentColumn_eq_ok hcell with ⟨hflag, hget, -⟩ | ⟨hflag, rfl⟩
    · rw [if_pos hflag, hget]
    · rw [if_neg (by simp [hflag])]
      rfl
  rw [hstored]
  rcases cell with _ | cell
  · exact ⟨by rintro _ ⟨⟩, fun _ => (Except.ok.inj hmetadata).symm⟩
  · cases cell with
    | struct record =>
      refine ⟨fun stored h => ?_, fun h => by cases h⟩
      cases h
      exact hmetadata
    | null => exact ⟨by rintro _ ⟨⟩, fun _ => (Except.ok.inj hmetadata).symm⟩
    | _ => cases hmetadata

/-- In a row that is read every flag is there, down to the fields that are reached. -/
theorem flagged_of_ofRow (hfields : schema.metadataFields = .ok fields) {document : Document}
    (h : ofRow row schema = .ok document) :
    (∀ name ∈ Column.read, ∃ flag, row.flag? name = some flag) ∧
      ∀ record names level field, row.metadata? = some record →
        record.ReachesField fields names level field →
        ∃ flag, level.flag? field.name = some flag := by
  constructor
  · intro name hname
    obtain ⟨cell, hcell⟩ := (parts_of_ofRow hfields h).1 name hname
    rcases Row.presentColumn_eq_ok hcell with ⟨hflag, -⟩ | ⟨hflag, -⟩
    · exact ⟨false, hflag⟩
    · exact ⟨true, hflag⟩
  · intro record names level field hrecord reaches
    exact flagged_of_reachesField reaches ((metadata_of_ofRow hfields h).1 record hrecord)

/-- The keys in the metadata of a document lead where reading the row comes to a field that is
flagged present. -/
theorem keys_of_ofRow (hfields : schema.metadataFields = .ok fields) {document : Document}
    (h : ofRow row schema = .ok document) {names : List String} (hnames : names ≠ []) :
    ((MetaValue.map document.metadata).at? names).isSome = true ↔
      ∃ record level field, row.metadata? = some record ∧
        record.ReachesLast fields names level field ∧ level.flag? field.name = some false := by
  obtain ⟨hthere, hmissing⟩ := metadata_of_ofRow hfields h
  obtain ⟨name, names, rfl⟩ := List.exists_cons_of_ne_nil hnames
  cases hrecord : row.metadata? with
  | none =>
    rw [hmissing hrecord]
    refine iff_of_false Bool.false_ne_true ?_
    rintro ⟨_, _, _, ⟨⟩, -⟩
  | some record =>
    rw [isSome_at?_iff (hthere record hrecord)]
    simp only [Option.some.injEq, exists_and_left, exists_eq_left']

/-- Reading a row goes by its flags. If the row can be read, there is a flag for every column and
field that reading comes to, and the metadata of the document has the keys that lead to a field
flagged present and no others; a name that several fields of a level have means the last of them.
If one of these flags is missing, the row cannot be read. A row that agrees with it in what reading
comes to is read as the same document or fails with the same error, whatever it has elsewhere. -/
theorem ofRow_governed_by_flags (row : Row) (schema : Schema) (fields : List Field)
    (hfields : schema.metadataFields = .ok fields) :
    (∀ document, ofRow row schema = .ok document →
      (∀ name ∈ Column.read, ∃ flag, row.flag? name = some flag) ∧
      (∀ record names level field, row.metadata? = some record →
        record.ReachesField fields names level field →
        ∃ flag, level.flag? field.name = some flag) ∧
      (∀ names, names ≠ [] → (((MetaValue.map document.metadata).at? names).isSome = true ↔
        ∃ record level field, row.metadata? = some record ∧
          record.ReachesLast fields names level field ∧ level.flag? field.name = some false)) ∧
      ((DataType.struct fields).DistinctNames → ∀ names, names ≠ [] →
        (((MetaValue.map document.metadata).at? names).isSome = true ↔
          ∃ record level field, row.metadata? = some record ∧
            record.ReachesField fields names level field ∧
            level.flag? field.name = some false))) ∧
    ((∃ name ∈ Column.read, row.flag? name = none) ∨
      (∃ record names level field, row.metadata? = some record ∧
        record.ReachesField fields names level field ∧ level.flag? field.name = none) →
      ∃ e, ofRow row schema = .error e) ∧
    (∀ row', row.ReadAlike row' fields → ofRow row' schema = ofRow row schema) := by
  refine ⟨fun document h => ?_, fun hmissing => ?_, fun row' => ofRow_readAlike hfields⟩
  · obtain ⟨hcolumns, hreached⟩ := flagged_of_ofRow hfields h
    refine ⟨hcolumns, hreached, fun names hnames => keys_of_ofRow hfields h hnames, ?_⟩
    intro distinct names hnames
    rw [keys_of_ofRow hfields h hnames]
    simp only [Row.reachesLast_iff distinct]
  · cases h : ofRow row schema with
    | error e => exact ⟨e, rfl⟩
    | ok document =>
      obtain ⟨hcolumns, hreached⟩ := flagged_of_ofRow hfields h
      rcases hmissing with
        ⟨name, hname, hnone⟩ | ⟨record, names, level, field, hrecord, reaches, hnone⟩
      · obtain ⟨flag, hflag⟩ := hcolumns name hname
        rw [hnone] at hflag
        cases hflag
      · obtain ⟨flag, hflag⟩ := hreached record names level field hrecord reaches
        rw [hnone] at hflag
        cases hflag

/-- A table whose metadata has two structs of one name. -/
def repeatedTable : Schema :=
  ⟨[.plain Column.metadata (.struct [.plain "x" (.struct [.plain "a" .int32 true]) true,
    .plain "x" (.struct [.plain "b" .int32 true]) true]) true]⟩

/-- A row of that table in which the members of both structs are flagged present. -/
def repeatedRow : Row :=
  ⟨[(Column.id, .utf8 "k"),
    (Column.flags, .struct ⟨[("blob", .boolean true), ("content", .boolean true),
      ("dataframe", .boolean true), ("id", .boolean false), ("meta", .boolean false),
      ("vector", .boolean true)]⟩),
    (Column.metadata, .struct ⟨[(Column.flags, .struct ⟨[("x", .boolean false)]⟩),
      ("x", .struct ⟨[(Column.flags, .struct ⟨[("a", .boolean false), ("b", .boolean false)]⟩),
        ("a", .int32 1), ("b", .int32 2)]⟩)]⟩)]⟩

/-- Of two structs of one name the first is read, but its members have no entry. -/
theorem ofRow_repeatedRow :
    ∃ document record level, ofRow repeatedRow repeatedTable = .ok document ∧
      repeatedTable.metadataFields = .ok [.plain "x" (.struct [.plain "a" .int32 true]) true,
        .plain "x" (.struct [.plain "b" .int32 true]) true] ∧
      repeatedRow.metadata? = some record ∧
      record.ReachesField [.plain "x" (.struct [.plain "a" .int32 true]) true,
        .plain "x" (.struct [.plain "b" .int32 true]) true] ["x", "a"] level
        (.plain "a" .int32 true) ∧
      level.flag? "a" = some false ∧
      (MetaValue.map document.metadata).at? ["x", "a"] = none := by
  have first : FieldOf.plain "x" (.struct [.plain "a" .int32 true]) true ∈ Field.declared
      [.plain "x" (.struct [.plain "a" .int32 true]) true,
        .plain "x" (.struct [.plain "b" .int32 true]) true] :=
    List.mem_cons_self ..
  have member : FieldOf.plain "a" .int32 true ∈ Field.declared [.plain "a" .int32 true] :=
    List.mem_cons_self ..
  refine ⟨_, _, ⟨[(Column.flags, .struct ⟨[("a", .boolean false), ("b", .boolean false)]⟩),
    ("a", .int32 1), ("b", .int32 2)]⟩, rfl, rfl, rfl, ?_, rfl, rfl⟩
  exact Row.reachesField_inside first rfl rfl rfl (Row.reachesField_here member)

/-- A table whose metadata has a number, and a text below a struct. -/
def nestedTable : Schema :=
  ⟨[.plain Column.metadata (.struct [.plain "a" .int32 true,
    .plain "m" (.struct [.plain "b" .utf8 true]) true]) false]⟩

/-- A row of that table with the given cells beside those that are flagged present. -/
def nestedRow (hidden hiddenMetadata : List (String × Cell)) : Row :=
  ⟨[(Column.id, .utf8 "k"),
    (Column.flags, .struct ⟨[("content", .boolean true), ("blob", .boolean true),
      ("dataframe", .boolean true), ("vector", .boolean true), ("meta", .boolean false)]⟩),
    (Column.metadata, .struct ⟨[(Column.flags, .struct ⟨[("a", .boolean true),
        ("m", .boolean false)]⟩),
      ("m", .struct ⟨[(Column.flags, .struct ⟨[("b", .boolean false)]⟩), ("b", .utf8 "x")]⟩)] ++
        hiddenMetadata⟩)] ++ hidden⟩

/-- Values that are flagged absent do not show, even if they could not be read. -/
theorem ofRow_governed_by_flags_hidden :
    nestedTable.metadataFields = .ok [.plain "a" .int32 true,
      .plain "m" (.struct [.plain "b" .utf8 true]) true] ∧
    ofRow (nestedRow [] []) nestedTable =
      .ok ⟨"k", none, none, none, none, ⟨[("m", .map ⟨[("b", .string "x")]⟩)]⟩, none⟩ ∧
    ofRow (nestedRow [("content", .int32 7)] [("a", .utf8 "seven")]) nestedTable =
      ofRow (nestedRow [] []) nestedTable := by
  have declared : Field.declared [.plain "a" .int32 true,
      .plain "m" (.struct [.plain "b" .utf8 true]) true] =
    [.plain "a" .int32 true, .plain "m" (.struct [.plain "b" .utf8 true]) true] := rfl
  refine ⟨rfl, rfl, ?_⟩
  refine (ofRow_governed_by_flags _ nestedTable _ rfl).2.2 _
    ⟨rfl, rfl, rfl, rfl, by decide, ?_, fun _ => .struct ?_ ?_⟩
  · intro name hname hne hflag
    simp only [Column.read, List.mem_cons, List.not_mem_nil, or_false] at hname
    rcases hname with rfl | rfl | rfl | rfl | rfl
    case inr.inr.inr.inr => exact absurd rfl hne
    all_goals cases hflag
  · rw [declared, List.forall_mem_cons, List.forall_mem_singleton]
    exact ⟨rfl, rfl⟩
  · rw [declared, List.forall_mem_cons, List.forall_mem_singleton]
    exact ⟨by rintro ⟨⟩, fun _ => .same⟩

end Document

end DocumentStore
