import DocumentStore.Proofs.ByteOrder
import DocumentStore.Proofs.Rearrangement

/-!
# Canonical forms

Which metadata may be declared, and what its canonical form is, can be said without an order of
work: names are proper at every level and leaves are of the eight types that are stored; the
canonical form of a level is its fields in ascending order behind their flags. Canonicalisation
decides the one and computes the other, and because a level in ascending order is determined by its
members, the order in which fields were declared leaves no trace.
-/

set_option autoImplicit false

namespace DocumentStore

/-! ## What may be declared, and what comes of it -/

/-- The types of metadata leaves. -/
def DataType.metadataLeaves : List DataType :=
  [.utf8, .int32, .int64, .float32, .float64, .boolean, .binary, .timestamp .second none]

/-- The names of a level are distinct, none is empty, and none is that of the flags. -/
structure Field.ProperNames (fields : List Field) : Prop where
  nodup : (fields.map FieldOf.name).Nodup
  nonempty : ∀ field ∈ fields, field.name ≠ ""
  unreserved : ∀ field ∈ fields, field.name ≠ Column.flags

/-- A type that metadata may be declared with: names are proper at every level, and every leaf has
one of the types that are stored. -/
inductive DataType.Declarable : DataType → Prop
  | leaf {type : DataType} (h : type ∈ metadataLeaves) : Declarable type
  | struct {fields : List Field} (names : Field.ProperNames fields)
      (below : ∀ field ∈ fields, Declarable field.type) : Declarable (.struct fields)

/-- The fields come in strictly ascending order of the bytes of their names. -/
def Field.Ascending (fields : List Field) : Prop :=
  fields.Pairwise fun field next => Text.bytes field.name < Text.bytes next.name

/-- The flags of a level: a boolean for each of the given members, in their order. -/
def Field.flagsFor (members : List Field) : Field :=
  .plain Column.flags (.struct (Field.flagsOf members)) false

/-- The second type is the canonical form of the first. A leaf is its own. In the form of a struct
the flags come first and list what follows; then come the fields of the struct in ascending order,
each with its name, nullability and annotations, and with the canonical form of its type. -/
inductive DataType.HasCanonical : DataType → DataType → Prop
  | leaf {type : DataType} (h : type ∈ metadataLeaves) : HasCanonical type type
  | struct {fields members : List Field} (ascending : Field.Ascending members)
      (names : (members.map FieldOf.name).Perm (fields.map FieldOf.name))
      (kept : ∀ field ∈ fields, ∀ member ∈ members, member.name = field.name →
        member.nullable = field.nullable ∧ member.annotations = field.annotations)
      (types : ∀ field ∈ fields, ∀ member ∈ members, member.name = field.name →
        HasCanonical field.type member.type) :
      HasCanonical (.struct fields) (.struct (Field.flagsFor members :: members))

namespace DataType

/-- The leaves of metadata are the types of a list. -/
theorem isMetadataLeaf_iff (type : DataType) :
    type.isMetadataLeaf = true ↔ type ∈ metadataLeaves := by
  cases type with
  | timestamp unit zone => cases unit <;> cases zone <;> simp [isMetadataLeaf, metadataLeaves]
  | _ => simp [isMetadataLeaf, metadataLeaves]

/-- A struct is no leaf. -/
theorem struct_not_mem_metadataLeaves (fields : List Field) :
    DataType.struct fields ∉ metadataLeaves := by
  rw [← isMetadataLeaf_iff]
  exact Bool.false_ne_true

/-- A declarable struct has proper names and declarable members. -/
theorem Declarable.names_and_below {fields : List Field} (h : (DataType.struct fields).Declarable) :
    Field.ProperNames fields ∧ ∀ field ∈ fields, field.type.Declarable := by
  cases h with
  | leaf h => exact absurd h (struct_not_mem_metadataLeaves fields)
  | struct names below => exact ⟨names, below⟩

end DataType

/-! ## Fields by their names -/

namespace Field

/-- Levels with the same names have a field of each name. -/
theorem exists_named {fields fields' : List Field}
    (names : (fields.map FieldOf.name).Perm (fields'.map FieldOf.name)) {field : Field}
    (h : field ∈ fields) : ∃ field' ∈ fields', field'.name = field.name :=
  List.mem_map.mp (names.mem_iff.mp (List.mem_map_of_mem h))

/-- Whether names are proper does not depend on their order. -/
theorem ProperNames.perm {fields fields' : List Field} (proper : ProperNames fields)
    (names : (fields.map FieldOf.name).Perm (fields'.map FieldOf.name)) : ProperNames fields' := by
  refine ⟨names.nodup_iff.mp proper.nodup, fun field' h' => ?_, fun field' h' => ?_⟩
  · obtain ⟨field, hfield, hname⟩ := exists_named names.symm h'
    exact hname ▸ proper.nonempty field hfield
  · obtain ⟨field, hfield, hname⟩ := exists_named names.symm h'
    exact hname ▸ proper.unreserved field hfield

/-- What is declared does not include the flags in front. -/
theorem declared_flagsFor_cons (members : List Field) :
    declared (flagsFor members :: members) = declared members :=
  List.filter_cons_of_neg (by simp [flagsFor, FieldOf.plain])

/-! ## Ascending order -/

/-- Fields ascend when each name is below all that follow. -/
theorem ascending_iff (fields : List Field) :
    Ascending fields ↔ fields.Pairwise fun field next => field.name < next.name := by
  unfold Ascending
  simp only [← Text.lt_iff_bytes_lt]

/-- Ascending fields are distinct. -/
theorem Ascending.nodup {fields : List Field} (h : Ascending fields) : fields.Nodup := by
  refine List.Pairwise.imp ?_ ((ascending_iff fields).mp h)
  rintro field _ hlt rfl
  exact lt_irrefl _ hlt

/-- Levels in ascending order that have the same fields are the same. -/
theorem Ascending.eq_of_mem_iff {fields fields' : List Field} (h : Ascending fields)
    (h' : Ascending fields') (hmem : ∀ field, field ∈ fields ↔ field ∈ fields') :
    fields = fields' := by
  have hperm : fields.Perm fields' := (List.perm_ext_iff_of_nodup h.nodup h'.nodup).mpr hmem
  refine List.Perm.eq_of_pairwise ?_ ((ascending_iff _).mp h) ((ascending_iff _).mp h') hperm
  intro left right _ _ hlt hgt
  exact absurd hgt (lt_asymm hlt)

end Field

namespace Schema

/-- An insertion by name keeps the order of names. -/
theorem ascending_insertByName {field : Field} {fields : List Field} (h : Field.Ascending fields)
    (hnew : ∀ other ∈ fields, other.name ≠ field.name) :
    Field.Ascending (insertByName field fields) := by
  rw [Field.ascending_iff] at h ⊢
  induction fields with
  | nil => exact List.pairwise_singleton _ _
  | cons next rest ih =>
    obtain ⟨hnext, hrest⟩ := List.pairwise_cons.mp h
    obtain ⟨hne, hnew⟩ := List.forall_mem_cons.mp hnew
    rw [insertByName]
    split
    · next hlt =>
      refine List.pairwise_cons.mpr ⟨?_, h⟩
      rw [List.forall_mem_cons]
      exact ⟨hlt, fun other hother => lt_trans hlt (hnext other hother)⟩
    · next hge =>
      refine List.pairwise_cons.mpr ⟨fun other hother => ?_, ih hrest hnew⟩
      rcases List.mem_cons.mp ((insertByName_perm field rest).mem_iff.mp hother) with rfl | hother
      · exact lt_of_le_of_ne (not_lt.mp hge) hne
      · exact hnext other hother

/-- Sorting by name puts distinct names in order. -/
theorem ascending_sortByName {fields : List Field} (nodup : (fields.map FieldOf.name).Nodup) :
    Field.Ascending (sortByName fields) := by
  induction fields with
  | nil => exact List.Pairwise.nil
  | cons field rest ih =>
    rw [List.map_cons, List.nodup_cons] at nodup
    refine ascending_insertByName (ih nodup.2) fun other hother hname => nodup.1 ?_
    rw [← hname]
    exact List.mem_map_of_mem ((sortByName_perm rest).mem_iff.mp hother)

/-- A canonical level is the sorted members after their flags. -/
theorem canonicalLevel_eq (fields : List Field) :
    canonicalLevel fields = Field.flagsFor (sortByName fields) :: sortByName fields := by
  unfold canonicalLevel flagsField Field.flagsFor Field.flagsOf
  dsimp only
  rw [List.map_map]
  rfl

end Schema

/-! ## The canonical form is unique -/

namespace DataType

/-- Members of two canonical forms of one level are the same if their types are, wherever both are
the form of one type. -/
theorem mem_of_mem_canonical {fields members members' : List Field}
    (names : (members.map FieldOf.name).Perm (fields.map FieldOf.name))
    (names' : (members'.map FieldOf.name).Perm (fields.map FieldOf.name))
    (same : ∀ field ∈ fields, ∀ member ∈ members, ∀ member' ∈ members',
      member.name = field.name → member'.name = field.name → member = member') {member : Field}
    (h : member ∈ members) : member ∈ members' := by
  obtain ⟨field, hfield, hname⟩ := Field.exists_named names h
  obtain ⟨member', h', hname'⟩ := Field.exists_named names'.symm hfield
  rw [same field hfield member h member' h' hname.symm hname']
  exact h'

/-- A type has one canonical form. -/
theorem HasCanonical.unique {type : DataType} :
    ∀ {canonical canonical' : DataType}, type.HasCanonical canonical →
      type.HasCanonical canonical' → canonical = canonical' := by
  induction type using DataType.struct_induction with
  | leaf type leaf =>
    intro canonical canonical' h h'
    cases h with
    | struct => cases leaf
    | leaf =>
      cases h' with
      | struct => cases leaf
      | leaf => rfl
  | struct fields ih =>
    intro canonical canonical' h h'
    cases h with
    | leaf h => exact absurd h (struct_not_mem_metadataLeaves fields)
    | @struct _ members ascending names kept types =>
      cases h' with
      | leaf h => exact absurd h (struct_not_mem_metadataLeaves fields)
      | @struct _ members' ascending' names' kept' types' =>
        have same : ∀ field ∈ fields, ∀ member ∈ members, ∀ member' ∈ members',
            member.name = field.name → member'.name = field.name → member = member' := by
          intro field hfield member h member' h' hname hname'
          have htype : member.type = member'.type :=
            ih field hfield (types field hfield member h hname)
              (types' field hfield member' h' hname')
          obtain ⟨hnull, hann⟩ := kept field hfield member h hname
          obtain ⟨hnull', hann'⟩ := kept' field hfield member' h' hname'
          obtain ⟨name, type, nullable, annotations⟩ := member
          obtain ⟨name', type', nullable', annotations'⟩ := member'
          simp_all only
        have hmembers : members = members' := ascending.eq_of_mem_iff ascending' fun member =>
          ⟨mem_of_mem_canonical names names' same, mem_of_mem_canonical names' names
            fun field hfield member' h' member h hname' hname =>
              (same field hfield member h member' h' hname hname').symm⟩
        rw [hmembers]

end DataType

/-! ## What canonicalisation accepts -/

namespace Schema

/-- Fields have canonical types together when their names are proper, none was seen before, and each
of them has one. -/
theorem canonicalFields_isOk {path : String} {fields : List Field} {seen : List String}
    (names : Field.ProperNames fields) (unseen : ∀ field ∈ fields, field.name ∉ seen)
    (types : ∀ field ∈ fields, ∀ path, ∃ canonical, canonicalType path field.type = .ok canonical) :
    ∃ canonical, canonicalFields path seen fields = .ok canonical := by
  induction fields generalizing seen with
  | nil => exact ⟨[], rfl⟩
  | cons field rest ih =>
    obtain ⟨nodup, nonempty, unreserved⟩ := names
    rw [List.forall_mem_cons] at nonempty unreserved unseen types
    rw [List.map_cons, List.nodup_cons] at nodup
    obtain ⟨canonical, hcanonical⟩ := types.1 (path ++ "." ++ field.name)
    obtain ⟨others, hothers⟩ := @ih (field.name :: seen)
      ⟨nodup.2, nonempty.2, unreserved.2⟩ (fun other hother hmem => by
        rcases List.mem_cons.mp hmem with hname | hmem
        · exact nodup.1 (hname ▸ List.mem_map_of_mem hother)
        · exact unseen.2 other hother hmem) types.2
    obtain ⟨name, type, nullable, annotations⟩ := field
    rw [canonicalFields, if_neg unreserved.1, if_neg nonempty.1, if_neg unseen.1, hcanonical,
      ok_bind, hothers]
    exact ⟨_, rfl⟩

/-- A declarable type has a canonical form. -/
theorem canonicalType_isOk {type : DataType} (h : type.Declarable) :
    ∀ path, ∃ canonical, canonicalType path type = .ok canonical := by
  induction type using DataType.struct_induction with
  | leaf type leaf =>
    intro path
    rw [canonicalType_leaf leaf]
    cases h with
    | struct => cases leaf
    | leaf h => exact ⟨type, if_pos ((DataType.isMetadataLeaf_iff type).mpr h)⟩
  | struct fields ih =>
    intro path
    obtain ⟨names, below⟩ := h.names_and_below
    obtain ⟨children, hchildren⟩ := @canonicalFields_isOk path fields [] names
      (fun _ _ => List.not_mem_nil) fun field hfield => ih field hfield (below field hfield)
    rw [canonicalType, hchildren]
    exact ⟨_, rfl⟩

/-- A level is put together from the canonical forms of its fields. -/
theorem hasCanonical_canonicalLevel {path : String} {fields children : List Field}
    (h : List.Forall₂ (CanonicalOf path) fields children)
    (nodup : (fields.map FieldOf.name).Nodup)
    (types : ∀ field ∈ fields, ∀ path canonical, canonicalType path field.type = .ok canonical →
      field.type.HasCanonical canonical) :
    (DataType.struct fields).HasCanonical (.struct (canonicalLevel children)) := by
  have hnames := names_eq_of_canonicalOf h
  have hmembers : ∀ field ∈ fields, ∀ member ∈ sortByName children, member.name = field.name →
      CanonicalOf path field member := by
    intro field hfield member hmember hname
    obtain ⟨child, hchild, hcanonical⟩ := exists_related h hfield
    have hsame : member = child := by
      apply Field.eq_of_name_eq (hnames ▸ nodup)
      · exact (sortByName_perm children).mem_iff.mp hmember
      · exact hchild
      · rw [hname, hcanonical.name_eq]
    rw [hsame]
    exact hcanonical
  rw [canonicalLevel_eq]
  refine .struct (ascending_sortByName (hnames ▸ nodup)) ?_ ?_ ?_
  · rw [← hnames]
    exact (sortByName_perm children).map _
  · intro field hfield member hmember hname
    have hcanonical := hmembers field hfield member hmember hname
    exact ⟨hcanonical.nullable_eq, hcanonical.annotations_eq⟩
  · intro field hfield member hmember hname
    exact types field hfield _ _ (hmembers field hfield member hmember hname).type_eq

/-- What canonicalisation gives is the canonical form of something that may be declared. -/
theorem hasCanonical_of_canonicalType {type : DataType} :
    ∀ path canonical, canonicalType path type = .ok canonical →
      type.Declarable ∧ type.HasCanonical canonical := by
  induction type using DataType.struct_induction with
  | leaf type leaf =>
    intro path canonical h
    rw [canonicalType_leaf leaf] at h
    split at h
    · next htype =>
      cases h
      rw [DataType.isMetadataLeaf_iff] at htype
      exact ⟨.leaf htype, .leaf htype⟩
    · cases h
  | struct fields ih =>
    intro path canonical h
    rw [canonicalType] at h
    obtain ⟨children, hchildren, h⟩ := (bind_eq_ok_iff _ _ _).mp h
    cases h
    obtain ⟨hall, nodup, hnames⟩ := canonicalFields_eq_ok hchildren
    refine ⟨.struct ⟨nodup, fun field hfield => (hnames field hfield).2.1,
      fun field hfield => (hnames field hfield).1⟩ ?_, ?_⟩
    · intro field hfield
      obtain ⟨child, -, hcanonical⟩ := exists_related hall hfield
      exact (ih field hfield _ _ hcanonical.type_eq).1
    · exact hasCanonical_canonicalLevel hall nodup fun field hfield path canonical h =>
        (ih field hfield path canonical h).2

/-- Canonicalisation computes the canonical form of what may be declared, and of nothing else. -/
theorem canonicalType_eq_ok_iff (path : String) (type canonical : DataType) :
    canonicalType path type = .ok canonical ↔ type.Declarable ∧ type.HasCanonical canonical := by
  constructor
  · exact hasCanonical_of_canonicalType path canonical
  · rintro ⟨declarable, h⟩
    obtain ⟨computed, hcomputed⟩ := canonicalType_isOk declarable path
    rw [hcomputed, (hasCanonical_of_canonicalType path computed hcomputed).2.unique h]

/-- Fields that have no canonical level are refused as a configuration. -/
theorem canonicalFields_error {path : String} {fields : List Field} {seen : List String} {e : Error}
    (types : ∀ field ∈ fields, ∀ path e, canonicalType path field.type = .error e →
      ∃ cause, e = .configuration cause)
    (h : canonicalFields path seen fields = .error e) : ∃ cause, e = .configuration cause := by
  induction fields generalizing seen with
  | nil => cases h
  | cons field rest ih =>
    rw [List.forall_mem_cons] at types
    obtain ⟨name, type, nullable, annotations⟩ := field
    rw [canonicalFields] at h
    split at h
    · cases h
      exact ⟨_, rfl⟩
    split at h
    · cases h
      exact ⟨_, rfl⟩
    split at h
    · cases h
      exact ⟨_, rfl⟩
    rcases (bind_eq_error_iff _ _ _).mp h with h | ⟨canonical, -, h⟩
    · exact types.1 _ _ h
    · rcases (bind_eq_error_iff _ _ _).mp h with h | ⟨others, -, h⟩
      · exact ih types.2 h
      · cases h

/-- A type without a canonical form is an error of configuration. -/
theorem canonicalType_error {type : DataType} :
    ∀ path e, canonicalType path type = .error e → ∃ cause, e = .configuration cause := by
  induction type using DataType.struct_induction with
  | leaf type leaf =>
    intro path e h
    rw [canonicalType_leaf leaf] at h
    split at h
    · cases h
    · cases h
      exact ⟨_, rfl⟩
  | struct fields ih =>
    intro path e h
    rw [canonicalType] at h
    rcases (bind_eq_error_iff _ _ _).mp h with h | ⟨children, -, h⟩
    · exact canonicalFields_error ih h
    · cases h

/-- The fields of a table's metadata are canonical as those of any struct are. -/
theorem canonicalType_struct (fields : List Field) :
    canonicalType Column.metadata (.struct fields) =
      (canonicalMetadata fields).map DataType.struct := by
  rw [canonicalType, canonicalMetadata]
  cases canonicalFields Column.metadata [] fields <;> rfl

/-- Metadata has the canonical form of the struct of its fields, if that can be declared. -/
theorem canonicalMetadata_eq_ok_iff (fields canonical : List Field) :
    canonicalMetadata fields = .ok canonical ↔ (DataType.struct fields).Declarable ∧
      (DataType.struct fields).HasCanonical (.struct canonical) := by
  rw [← canonicalType_eq_ok_iff Column.metadata, canonicalType_struct, map_eq_ok_iff]
  simp only [DataType.struct.injEq, exists_eq_right]

end Schema

/-! ## The order of declaration -/

/-- Rearrangements can be undone. -/
theorem Field.Rearranged.symm {fields fields' : List Field} (h : Field.Rearranged fields fields') :
    Field.Rearranged fields' fields := by
  induction h with
  | perm h => exact .perm h.symm
  | within _ ih => exact .within ih
  | trans _ _ ih ih' => exact .trans ih' ih

namespace DataType

/-- What may be declared may be declared in any order. -/
theorem Declarable.rearranged {fields fields' : List Field} (h : Field.Rearranged fields fields')
    (declarable : (DataType.struct fields).Declarable) :
    (DataType.struct fields').Declarable := by
  induction h with
  | perm h =>
    obtain ⟨names, below⟩ := declarable.names_and_below
    exact .struct (names.perm (h.map _)) fun field hfield =>
      below field (h.mem_iff.mpr hfield)
  | @within before after members members' name nullable annotations h ih =>
    obtain ⟨names, below⟩ := declarable.names_and_below
    refine .struct (names.perm (by rw [Field.map_name_within])) ?_
    refine Field.forall_mem_replaced below (ih ?_)
    exact below _ (List.mem_append_right _ (List.mem_cons_self ..))
  | trans _ _ ih ih' => exact ih' (ih declarable)

/-- The canonical form does not depend on the order of declaration. -/
theorem HasCanonical.rearranged {fields fields' : List Field}
    (h : Field.Rearranged fields fields') :
    ∀ {canonical : DataType}, (DataType.struct fields).HasCanonical canonical →
      (DataType.struct fields').HasCanonical canonical := by
  induction h with
  | @perm fields _ h =>
    intro canonical hcanonical
    cases hcanonical with
    | leaf h => exact absurd h (struct_not_mem_metadataLeaves fields)
    | struct ascending names kept types =>
      exact .struct ascending (names.trans (h.map _))
        (fun field hfield => kept field (h.mem_iff.mpr hfield))
        fun field hfield => types field (h.mem_iff.mpr hfield)
  | @within before after members members' name nullable annotations h ih =>
    intro canonical hcanonical
    cases hcanonical with
    | leaf h => exact absurd h (struct_not_mem_metadataLeaves _)
    | struct ascending names kept types =>
      have hmem : (⟨name, .struct members, nullable, annotations⟩ : Field) ∈
          before ++ ⟨name, .struct members, nullable, annotations⟩ :: after :=
        List.mem_append_right _ (List.mem_cons_self ..)
      refine .struct ascending ?_ ?_ ?_
      · rw [Field.map_name_within]
        exact names
      · exact Field.forall_mem_replaced kept fun member hmember hname =>
          kept _ hmem member hmember hname
      · exact Field.forall_mem_replaced types fun member hmember hname =>
          ih (types _ hmem member hmember hname)
  | trans _ _ ih ih' => exact fun hcanonical => ih' (ih hcanonical)

end DataType

namespace Schema

/-- Rearranged metadata has the same canonical form. -/
theorem canonicalMetadata_rearranged {fields fields' : List Field}
    (h : Field.Rearranged fields fields') {canonical : List Field}
    (hcanonical : canonicalMetadata fields = .ok canonical) :
    canonicalMetadata fields' = .ok canonical := by
  rw [canonicalMetadata_eq_ok_iff] at hcanonical ⊢
  exact ⟨hcanonical.1.rearranged h, hcanonical.2.rearranged h⟩

/-! ## New tables -/

/-- A new table has metadata that can be declared and a width that a vector column can have. -/
theorem ofMetadata_isOk_iff (fields : List Field) (width : Int64) :
    (∃ schema, ofMetadata fields width = .ok schema) ↔
      (∃ canonical, canonicalMetadata fields = .ok canonical) ∧
        1 ≤ width.toInt ∧ width.toInt ≤ 2147483647 := by
  have hmax : Int32.maxValue.toInt = 2147483647 := by decide
  unfold ofMetadata
  rw [hmax]
  split
  · next h => exact iff_of_false (by rintro ⟨_, ⟨⟩⟩) (by omega)
  split
  · next h => exact iff_of_false (by rintro ⟨_, ⟨⟩⟩) (by omega)
  · next hpos hle =>
    refine (bind_isOk_iff (canonicalMetadata fields) _ fun _ => ⟨_, rfl⟩).trans ?_
    exact ⟨fun h => ⟨h, by omega, by omega⟩, And.left⟩

/-- Whatever the order of its columns, a new table has its width and its canonical metadata. -/
theorem reads_of_ofMetadata {fields : List Field} {width : Int64} {schema : Schema}
    (h : ofMetadata fields width = .ok schema) {columns : List Field}
    (hperm : schema.fields.Perm columns) :
    (∃ size : Nat, (Schema.mk columns).width = .ok size ∧ (size : Int) = width.toInt) ∧
      (Schema.mk columns).metadataFields = canonicalMetadata fields ∧
      (Schema.mk columns).check = .ok () := by
  obtain ⟨canonical, hcanonical, table⟩ := isTable_ofMetadata h
  obtain ⟨hpos, hsize⟩ := toInt_size_of_ofMetadata h
  rw [canonicalType_struct, map_eq_ok_iff] at hcanonical
  obtain ⟨_, hcanonical, ⟨⟩⟩ := hcanonical
  have arranged : IsTable ⟨columns⟩ canonical (Int32.ofInt width.toInt) := table.perm hperm
  refine ⟨⟨_, arranged.width_eq, by omega⟩, ?_, ?_⟩
  · rw [arranged.metadataFields_eq, hcanonical]
  · rw [check, arranged.width_eq, arranged.metadataFields_eq]
    rfl

/-- Canonicalisation succeeds exactly on metadata that may be declared, and gives its canonical
form; other metadata is an error of configuration. The order of declaration does not matter, at any
level.
A new table needs a width that a vector column can have besides, and then it has that width and the
canonical metadata in whatever order its columns come. -/
theorem canonicalMetadata_exact (fields : List Field) (width : Int64) :
    ((∃ canonical, canonicalMetadata fields = .ok canonical) ↔
      (DataType.struct fields).Declarable) ∧
    (¬(DataType.struct fields).Declarable →
      ∃ cause, canonicalMetadata fields = .error (.configuration cause)) ∧
    (∀ canonical, canonicalMetadata fields = .ok canonical →
      (DataType.struct fields).HasCanonical (.struct canonical)) ∧
    (∀ fields', Field.Rearranged fields fields' → ∀ canonical,
      canonicalMetadata fields' = .ok canonical ↔ canonicalMetadata fields = .ok canonical) ∧
    ((∃ schema, ofMetadata fields width = .ok schema) ↔
      (DataType.struct fields).Declarable ∧ 1 ≤ width.toInt ∧ width.toInt ≤ 2147483647) ∧
    (∀ schema, ofMetadata fields width = .ok schema →
      ∀ columns, schema.fields.Perm columns →
        (∃ size : Nat, (Schema.mk columns).width = .ok size ∧ (size : Int) = width.toInt) ∧
        (Schema.mk columns).metadataFields = canonicalMetadata fields ∧
        (Schema.mk columns).check = .ok ()) := by
  have accepted : (∃ canonical, canonicalMetadata fields = .ok canonical) ↔
      (DataType.struct fields).Declarable := by
    constructor
    · rintro ⟨canonical, h⟩
      exact ((canonicalMetadata_eq_ok_iff fields canonical).mp h).1
    · intro h
      rw [← map_isOk_iff _ DataType.struct, ← canonicalType_struct]
      exact canonicalType_isOk h Column.metadata
  refine ⟨accepted, ?_, ?_, ?_, ?_, ?_⟩
  · intro h
    cases hcanonical : canonicalMetadata fields with
    | ok canonical => exact absurd (accepted.mp ⟨canonical, hcanonical⟩) h
    | error e =>
      obtain ⟨cause, rfl⟩ := @canonicalType_error (.struct fields) Column.metadata e <| by
        rw [canonicalType_struct, hcanonical]
        rfl
      exact ⟨cause, rfl⟩
  · exact fun canonical h => ((canonicalMetadata_eq_ok_iff fields canonical).mp h).2
  · exact fun fields' h canonical =>
      ⟨canonicalMetadata_rearranged h.symm, canonicalMetadata_rearranged h⟩
  · rw [ofMetadata_isOk_iff, accepted]
  · exact fun schema h columns => reads_of_ofMetadata h

/-- Two levels, both declared in descending order, that come out in ascending order as the other
declaration of the same fields does; the columns of the table are read in reverse. -/
theorem canonicalMetadata_exact_two_levels :
    (DataType.struct [.plain "b" .utf8 true,
      .plain "a" (.struct [.plain "y" .int32 false, .plain "x" .boolean true]) true]).Declarable ∧
    canonicalMetadata [.plain "b" .utf8 true,
        .plain "a" (.struct [.plain "y" .int32 false, .plain "x" .boolean true]) true] =
      .ok [flagsField ["a", "b"],
        .plain "a" (.struct [flagsField ["x", "y"], .plain "x" .boolean true,
          .plain "y" .int32 false]) true,
        .plain "b" .utf8 true] ∧
    (∃ schema columns, ofMetadata [.plain "b" .utf8 true,
        .plain "a" (.struct [.plain "y" .int32 false, .plain "x" .boolean true]) true] 3 =
          .ok schema ∧
      schema.fields.Perm columns ∧ columns.head? = some (.plain Column.vector
        (.fixedSizeList (.plain "item" .float32 true) 3) false) ∧
      (Schema.mk columns).width = .ok 3 ∧ (Schema.mk columns).check = .ok ()) := by
  obtain ⟨accepted, -, -, rearranged, built, reads⟩ := canonicalMetadata_exact
    [.plain "b" .utf8 true,
      .plain "a" (.struct [.plain "y" .int32 false, .plain "x" .boolean true]) true] 3
  have arranged : Field.Rearranged [.plain "b" .utf8 true,
      .plain "a" (.struct [.plain "y" .int32 false, .plain "x" .boolean true]) true]
      [.plain "a" (.struct [.plain "x" .boolean true, .plain "y" .int32 false]) true,
        .plain "b" .utf8 true] :=
    .trans (.perm (List.Perm.swap ..))
      (@Field.Rearranged.within [] _ _ _ _ _ _ (.perm (List.Perm.swap ..)))
  have hcanonical := (rearranged _ arranged _).mp (by rfl)
  have declarable := accepted.mp ⟨_, hcanonical⟩
  obtain ⟨schema, hschema⟩ := built.mpr ⟨declarable, by decide, by decide⟩
  have hperm := (List.reverse_perm schema.fields).symm
  obtain ⟨⟨size, hsize, hwidth⟩, -, hcheck⟩ := reads schema hschema schema.fields.reverse hperm
  have hthree : size = 3 := by
    have htoInt : (3 : Int64).toInt = 3 := rfl
    omega
  refine ⟨declarable, hcanonical, schema, _, hschema, hperm, ?_, hthree ▸ hsize, hcheck⟩
  cases hschema
  rfl

end Schema

end DocumentStore
