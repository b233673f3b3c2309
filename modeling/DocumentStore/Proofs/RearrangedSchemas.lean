import DocumentStore.Proofs.Agreement
import DocumentStore.Proofs.ReadingParts
import DocumentStore.Proofs.Rearrangement

/-!
# Reading with rearranged schemas

The fields of a schema, and of the structs in it, may come in another order at any level where their
names are distinct. A row is then read with the same result, or is not readable with either schema.
Which error it is may differ, because the first unreadable field is another one.
-/

set_option autoImplicit false

namespace DocumentStore

/-! ## Types and their fields -/

namespace DataType

/-- The fields of structs in the type come in another order, at any level; their names are distinct
where they do. -/
inductive Rearranged : DataType → DataType → Prop
  | refl (type : DataType) : Rearranged type type
  | perm {fields fields' : List Field} (nodup : (fields.map FieldOf.name).Nodup)
      (h : fields.Perm fields') : Rearranged (.struct fields) (.struct fields')
  | within {before after : List Field} {name : String} {type type' : DataType} {nullable : Bool}
      {annotations : Dict String} (h : Rearranged type type') :
    Rearranged (.struct (before ++ ⟨name, type, nullable, annotations⟩ :: after))
      (.struct (before ++ ⟨name, type', nullable, annotations⟩ :: after))
  | item {name : String} {type type' : DataType} {nullable : Bool} {annotations : Dict String}
      (h : Rearranged type type') :
    Rearranged (.list ⟨name, type, nullable, annotations⟩)
      (.list ⟨name, type', nullable, annotations⟩)
  | fixedSizeItem {name : String} {type type' : DataType} {nullable : Bool}
      {annotations : Dict String} {size : Int32} (h : Rearranged type type') :
    Rearranged (.fixedSizeList ⟨name, type, nullable, annotations⟩ size)
      (.fixedSizeList ⟨name, type', nullable, annotations⟩ size)
  | trans {first second third : DataType} (h : Rearranged first second)
      (h' : Rearranged second third) : Rearranged first third

end DataType

/-- The columns of the schema come in another order, or the fields of structs in it do. -/
def Schema.Rearranged (schema schema' : Schema) : Prop :=
  DataType.Rearranged (.struct schema.fields) (.struct schema'.fields)

namespace DataType.Rearranged

/-- The types of the fields are rearranged. -/
def OfFields (field field' : Field) : Prop := field.type.Rearranged field'.type

variable {type type' : DataType}

/-- Rearranged types are both leaves, or structs of which the fields of one name have rearranged
types. -/
theorem leaf_or_struct (h : type.Rearranged type') :
    (type.members? = none ∧ type'.members? = none) ∨
      ∃ fields fields', type = .struct fields ∧ type' = .struct fields' ∧
        ∀ name, Option.Rel OfFields ((Schema.mk fields).column? name)
          ((Schema.mk fields').column? name) := by
  induction h with
  | refl type =>
    cases type with
    | struct fields =>
      exact Or.inr ⟨fields, fields, rfl, rfl, fun name =>
        optionRel_refl (fun field => .refl field.type) _⟩
    | _ => exact Or.inl ⟨rfl, rfl⟩
  | perm nodup h =>
    refine Or.inr ⟨_, _, rfl, rfl, fun name => ?_⟩
    rw [Schema.column?_perm nodup h name]
    exact optionRel_refl (fun field => .refl field.type) _
  | @within before after name type type' nullable annotations h =>
    refine Or.inr ⟨_, _, rfl, rfl, fun key => ?_⟩
    unfold Schema.column?
    rw [List.find?_append, List.find?_append, List.find?_cons, List.find?_cons]
    cases before.find? fun field => field.name = key with
    | some field => exact .some (.refl field.type)
    | none =>
      by_cases hname : name = key
      · simp only [hname, decide_true, Option.none_or]
        exact .some h
      · simp only [hname, decide_false, Option.none_or]
        exact optionRel_refl (fun field => .refl field.type) _
  | item | fixedSizeItem => exact Or.inl ⟨rfl, rfl⟩
  | trans _ _ ih ih' =>
    rcases ih with ⟨hfirst, hsecond⟩ | ⟨first, second, rfl, rfl, hcolumns⟩
    · rcases ih' with ⟨-, hthird⟩ | ⟨_, _, rfl, -, -⟩
      · exact Or.inl ⟨hfirst, hthird⟩
      · cases hsecond
    · rcases ih' with ⟨hsecond, -⟩ | ⟨_, third, ⟨⟩, rfl, hcolumns'⟩
      · cases hsecond
      · exact Or.inr ⟨_, _, rfl, rfl, fun name =>
          optionRel_trans (fun _ _ _ => .trans) (hcolumns name) (hcolumns' name)⟩

end DataType.Rearranged

/-! ## Levels of metadata -/

namespace Document

/-- An entry has the name of its field. -/
theorem name_entryOf {record : Row} {path : String} {field : Field}
    {entry : String × Option MetaValue} (h : entryOf record path field = .ok entry) :
    entry.1 = field.name := by
  obtain ⟨there, -, h⟩ := (bind_eq_ok_iff _ _ _).mp h
  split at h
  · obtain ⟨value, -, h⟩ := (bind_eq_ok_iff _ _ _).mp h
    cases h
    rfl
  · cases h
    rfl

/-- The entries that are read from a level are named as its fields are. -/
theorem names_of_entries {record : Row} {path : String} {fields : List Field}
    {entries : List (String × Option MetaValue)}
    (h : fields.mapM (entryOf record path) = .ok entries) :
    entries.map Prod.fst = fields.map FieldOf.name := by
  induction (mapM_eq_ok_iff _ _ _).mp h with
  | nil => rfl
  | cons hentry hrest ih =>
    rw [List.map_cons, List.map_cons, name_entryOf hentry, ih ((mapM_eq_ok_iff _ _ _).mpr hrest)]

/-- The entries that are present keep the order of their names. -/
theorem names_presentEntries (entries : List (String × Option MetaValue)) :
    ((presentEntries entries).map Prod.fst).Sublist (entries.map Prod.fst) := by
  induction entries with
  | nil => exact List.Sublist.refl _
  | cons entry rest ih =>
    obtain ⟨name, value⟩ := entry
    cases value with
    | none => exact ih.cons name
    | some value => exact ih.cons_cons name

/-- The order in which entries of distinct names are read does not matter. -/
theorem collect_perm {entries entries' : List (String × Option MetaValue)}
    (nodup : (entries.map Prod.fst).Nodup) (h : entries.Perm entries') :
    collect Dict.empty entries = collect Dict.empty entries' :=
  Dict.ofList_perm (h.filterMap _) (nodup.sublist (names_presentEntries entries))

/-- Fields in another order have the same entries. -/
theorem entriesOf_perm {fields fields' : List Field} (nodup : (fields.map FieldOf.name).Nodup)
    (h : fields.Perm fields') (record : Row) (path : String) :
    Alike Eq (entriesOf record path fields Dict.empty) (entriesOf record path fields' Dict.empty) := by
  rw [entriesOf_eq_mapM, entriesOf_eq_mapM]
  refine (Alike.mapM_perm (h.filter _)).map fun entries entries' hentries _ hperm => ?_
  refine collect_perm ?_ hperm
  rw [names_of_entries hentries]
  exact Field.nodup_declared nodup

/-- The entries of a level do not depend on a field whose type is read alike. -/
theorem entriesOf_within {before after : List Field} {name : String} {type type' : DataType}
    {nullable : Bool} {annotations : Dict String}
    (values : ∀ path stored, Alike Eq (valueOf path stored type) (valueOf path stored type'))
    (record : Row) (path : String) (found : Metadata) :
    Alike Eq (entriesOf record path (before ++ ⟨name, type, nullable, annotations⟩ :: after) found)
      (entriesOf record path (before ++ ⟨name, type', nullable, annotations⟩ :: after) found) := by
  rw [entriesOf_eq_mapM, entriesOf_eq_mapM]
  by_cases hname : name = Column.flags
  · rw [Field.declared_append_flags hname, Field.declared_append_flags hname]
    exact .refl (fun _ => rfl) _
  · rw [Field.declared_append_cons hname, Field.declared_append_cons hname]
    have hentry : Alike Eq (entryOf record path ⟨name, type, nullable, annotations⟩)
        (entryOf record path ⟨name, type', nullable, annotations⟩) := by
      refine Alike.bind_right _ fun there => ?_
      cases there with
      | true => exact (values _ _).bind fun _ _ _ _ hvalue => .ok (by rw [hvalue])
      | false => exact .ok rfl
    refine (Alike.mapM_replaced hentry (fun _ _ => rfl) (fun _ _ => rfl)).map ?_
    rintro _ _ - - ⟨front, entry, _, back, rfl, rfl, rfl⟩
    rfl

/-- A value is read with rearranged types as before, or with neither. -/
theorem valueOf_alike {type type' : DataType} (h : type.Rearranged type') :
    ∀ path stored, Alike Eq (valueOf path stored type) (valueOf path stored type') := by
  have hlevel : ∀ {fields fields' : List Field},
      (∀ record path, Alike Eq (entriesOf record path fields Dict.empty)
        (entriesOf record path fields' Dict.empty)) → ∀ path stored,
      Alike Eq (valueOf path stored (.struct fields)) (valueOf path stored (.struct fields')) := by
    intro fields fields' hentries path stored
    rcases stored with _ | cell
    · exact .error _ _
    cases cell with
    | struct record =>
      rw [valueOf, valueOf]
      exact (hentries record path).bind fun _ _ _ _ hequal => .ok (by rw [hequal])
    | null => exact .ok rfl
    | _ => exact .error _ _
  induction h with
  | refl type => exact fun path stored => .refl (fun _ => rfl) _
  | perm nodup h => exact hlevel (entriesOf_perm nodup h)
  | within _ ih => exact hlevel fun record path => entriesOf_within ih record path Dict.empty
  | item | fixedSizeItem => exact fun path stored => .refl (fun _ => rfl) (valueOf path stored .null)
  | trans _ _ ih ih' =>
    exact fun path stored => (ih path stored).trans (ih' path stored) fun _ _ _ => Eq.trans

/-- Rearranged fields read a stored value as the same metadata. -/
theorem metadataOf_alike {fields fields' : List Field}
    (h : DataType.Rearranged (.struct fields) (.struct fields')) (stored : Option Cell) :
    Alike Eq (metadataOf fields stored) (metadataOf fields' stored) := by
  rcases stored with _ | cell
  · exact .ok rfl
  cases cell with
  | struct record =>
    have hvalue := valueOf_alike h Column.metadata (some (.struct record))
    rw [valueOf, valueOf, bind_pure_eq_map, bind_pure_eq_map] at hvalue
    exact hvalue.of_map fun _ _ hmap => by cases hmap; rfl
  | null => exact .ok rfl
  | _ => exact .error _ _

/-! ## Documents -/

/-- Rearranged schemas have rearranged metadata. -/
theorem metadataFields_alike {schema schema' : Schema} (h : schema.Rearranged schema') :
    Alike (fun fields fields' => DataType.Rearranged (.struct fields) (.struct fields'))
      schema.metadataFields schema'.metadataFields := by
  rcases h.leaf_or_struct with ⟨hleaf, -⟩ | ⟨_, _, ⟨⟩, ⟨⟩, hcolumns⟩
  · cases hleaf
  have hcolumn : Option.Rel DataType.Rearranged.OfFields (schema.column? Column.metadata)
      (schema'.column? Column.metadata) := hcolumns Column.metadata
  unfold Schema.metadataFields
  generalize schema.column? Column.metadata = column at hcolumn ⊢
  generalize schema'.column? Column.metadata = column' at hcolumn ⊢
  cases hcolumn with
  | none => exact .error _ _
  | @some field field' htype =>
    dsimp only
    have htype : field.type.Rearranged field'.type := htype
    rcases htype.leaf_or_struct with ⟨hleaf, hleaf'⟩ | ⟨fields, fields', heq, heq', -⟩
    · split
      · next heq =>
        rw [heq] at hleaf
        cases hleaf
      · split
        · next heq =>
          rw [heq] at hleaf'
          cases hleaf'
        · exact .error _ _
    · rw [heq, heq'] at htype ⊢
      exact .ok htype

/-- A document is read with rearranged schemas as before, or with neither. -/
theorem ofRow_alike {schema schema' : Schema} (h : schema.Rearranged schema') (row : Row) :
    Alike Eq (ofRow row schema) (ofRow row schema') := by
  rw [ofRow_eq, ofRow_eq]
  refine (metadataFields_alike h).bind fun fields fields' _ _ hfields => ?_
  refine Alike.bind_right _ fun id => Alike.bind_right _ fun content => Alike.bind_right _ fun blob =>
    Alike.bind_right _ fun dataframe => Alike.bind_right _ fun embedding => ?_
  refine Alike.bind (Alike.bind_right _ (metadataOf_alike hfields)) fun _ _ _ _ hmetadata => ?_
  exact .ok (by rw [hmetadata])

end Document

end DocumentStore
