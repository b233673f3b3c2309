import DocumentStore.Proofs.CanonicalForms
import DocumentStore.Proofs.DescribedFields

/-!
# Tables rebuilt from their descriptions

The description of canonical metadata leaves out the flags and keeps the order, so what it gives
back is the declared metadata in ascending order at every level. That has the same canonical form,
and with the width of the table it makes the same schema again: a store can be made anew from what
is known about it.
-/

set_option autoImplicit false

namespace DocumentStore

/-- The fields of every struct in a type come in ascending order. -/
inductive DataType.Ordered : DataType → Prop
  | leaf {type : DataType} (leaf : type.members? = none) : Ordered type
  | struct {fields : List Field} (ascending : Field.Ascending fields)
      (below : ∀ field ∈ fields, Ordered field.type) : Ordered (.struct fields)

/-- A type is the same as another, or both are structs and the fields come in another order. -/
inductive DataType.Reordered : DataType → DataType → Prop
  | same (type : DataType) : Reordered type type
  | struct {fields fields' : List Field} (h : Field.Rearranged fields fields') :
      Reordered (.struct fields) (.struct fields')

/-- A field as it is but for the order of the fields below it. -/
structure Field.Reordered (field field' : Field) : Prop where
  name_eq : field'.name = field.name
  nullable_eq : field'.nullable = field.nullable
  annotations_eq : field'.annotations = field.annotations
  type : field.type.Reordered field'.type

namespace Field

/-- Fields may be rearranged behind another one. -/
theorem Rearranged.cons {fields fields' : List Field} (h : Rearranged fields fields')
    (field : Field) : Rearranged (field :: fields) (field :: fields') := by
  induction h with
  | perm h => exact .perm (h.cons field)
  | @within before _ _ _ _ _ _ h => exact @Rearranged.within (field :: before) _ _ _ _ _ _ h
  | trans _ _ ih ih' => exact .trans ih ih'

/-- Fields may be replaced, one after the other, by fields with another order below them. -/
theorem rearranged_of_forall₂ {fields fields' : List Field}
    (h : List.Forall₂ Reordered fields fields') : Rearranged fields fields' := by
  induction h with
  | nil => exact .perm (List.Perm.refl _)
  | @cons field field' rest rest' hfield _ ih =>
    refine (ih.cons field).trans ?_
    obtain ⟨name, type, nullable, annotations⟩ := field
    obtain ⟨name', type', nullable', annotations'⟩ := field'
    obtain ⟨rfl, rfl, rfl, htype⟩ := hfield
    cases htype with
    | same => exact .perm (List.Perm.refl _)
    | struct h => exact @Rearranged.within [] _ _ _ _ _ _ h

end Field

/-! ## Canonical metadata without its flags -/

namespace Schema

/-- The canonical fields of a level, without flags, are the declared ones in another order. -/
theorem rearranged_canonicalLevel {path : String} {fields children : List Field}
    (h : List.Forall₂ (CanonicalOf path) fields children)
    (unreserved : ∀ field ∈ fields, field.name ≠ Column.flags)
    (types : ∀ field ∈ fields, ∀ path canonical, canonicalType path field.type = .ok canonical →
      field.type.Reordered canonical.withoutFlags) :
    Field.Rearranged fields (Field.withoutFlags (canonicalLevel children)) := by
  have hchildren : ∀ child ∈ children, child.name ≠ Column.flags := by
    intro child hchild
    obtain ⟨field, hfield, hcanonical⟩ := exists_related h.flip hchild
    rw [hcanonical.name_eq]
    exact unreserved field hfield
  rw [Field.withoutFlags_eq_map, declared_canonicalLevel hchildren]
  obtain ⟨ordered, hordered, hperm⟩ := List.perm_comp_forall₂ (sortByName_perm children) h.flip
  refine .trans (.perm hperm.symm) (Field.rearranged_of_forall₂ ?_)
  rw [List.forall₂_map_right_iff]
  have htypes := (List.forall₂_and_left _ _).mpr
    ⟨fun field hfield => types field (hperm.mem_iff.mp hfield), hordered.flip⟩
  exact htypes.imp fun field child hfield =>
    ⟨hfield.2.name_eq, hfield.2.nullable_eq, hfield.2.annotations_eq,
      hfield.1 _ _ hfield.2.type_eq⟩

/-- A canonical type without its flags is a reordering of the type. -/
theorem reordered_canonicalType {type : DataType} :
    ∀ path canonical, canonicalType path type = .ok canonical →
      type.Reordered canonical.withoutFlags := by
  induction type using DataType.struct_induction with
  | leaf type leaf =>
    intro path canonical h
    rw [canonicalType_leaf leaf] at h
    split at h
    · cases h
      rw [DataType.withoutFlags_leaf leaf]
      exact .same type
    · cases h
  | struct fields ih =>
    intro path canonical h
    rw [canonicalType] at h
    obtain ⟨children, hchildren, h⟩ := (bind_eq_ok_iff _ _ _).mp h
    cases h
    obtain ⟨hall, -, hnames⟩ := canonicalFields_eq_ok hchildren
    rw [DataType.withoutFlags]
    exact .struct (rearranged_canonicalLevel hall (fun field hfield => (hnames field hfield).1) ih)

end Schema

/-- Without their flags the levels of a canonical form are in ascending order. -/
theorem DataType.HasCanonical.ordered {type canonical : DataType}
    (h : type.HasCanonical canonical) : canonical.withoutFlags.Ordered := by
  induction h with
  | @leaf type h =>
    have leaf : type.members? = none := by
      cases type <;> first | rfl | exact absurd h (struct_not_mem_metadataLeaves _)
    rw [DataType.withoutFlags_leaf leaf]
    exact .leaf leaf
  | @struct fields members ascending names _ _ ih =>
    rw [DataType.withoutFlags, Field.withoutFlags_eq_map, Field.declared_flagsFor_cons]
    refine .struct ?_ ?_
    · exact List.pairwise_map.mpr (List.Pairwise.filter _ ascending)
    · intro field hfield
      obtain ⟨member, hmember, rfl⟩ := List.mem_map.mp hfield
      have hmember := (Field.mem_declared.mp hmember).1
      obtain ⟨declared, hdeclared, hname⟩ := Field.exists_named names hmember
      exact ih declared hdeclared member hmember hname.symm

/-! ## Descriptions of canonical metadata -/

/-- The leaf types of metadata are those that have a name. -/
theorem DataType.isMetadataLeaf_iff_name? (type : DataType) :
    type.isMetadataLeaf = true ↔ ∃ name, type.name? = some name := by
  cases type with
  | timestamp unit zone =>
    cases unit <;> cases zone <;> simp [isMetadataLeaf, name?]
  | _ => simp [isMetadataLeaf, name?]

namespace FieldDescription

/-- A field can be described if its type can be. -/
theorem ofField_isOk {field : Field}
    (h : ∃ described, ofType field.name field.type = .ok described) :
    ∃ description, ofField field = .ok description := by
  obtain ⟨⟨typeName, children⟩, hdescribed⟩ := h
  rw [ofField, hdescribed]
  exact ⟨_, rfl⟩

/-- Fields can be described if the types of all but the flags can be. -/
theorem ofFields_isOk {fields : List Field} (h : ∀ field ∈ fields, field.name ≠ Column.flags →
      ∃ described, ofType field.name field.type = .ok described) :
    ∃ descriptions, ofFields fields = .ok descriptions := by
  rw [ofFields_eq_mapM, mapM_isOk_iff]
  intro field hfield
  obtain ⟨hfield, hname⟩ := Field.mem_declared.mp hfield
  exact ofField_isOk (h field hfield hname)

/-- Types with flags at every level can be described. -/
theorem ofType_isOk {type : DataType} (flagged : type.Flagged) :
    ∀ name, ∃ described, ofType name type = .ok described := by
  induction type using DataType.struct_induction with
  | leaf type leaf =>
    intro name
    cases flagged with
    | struct => cases leaf
    | leaf h =>
      obtain ⟨typeName, hname⟩ := type.isMetadataLeaf_iff_name?.mp h
      rw [ofType_leaf leaf, hname]
      exact ⟨_, rfl⟩
  | struct fields ih =>
    intro name
    obtain ⟨-, below⟩ := flagged.level_and_below
    obtain ⟨descriptions, h⟩ := ofFields_isOk fun field hfield hne =>
      ih field hfield (below field hfield hne) field.name
    rw [ofType, h]
    exact ⟨_, rfl⟩

/-- Flags do not show in a description. -/
theorem ofFields_withoutFlags {fields : List Field}
    (h : ∀ field ∈ fields, ∀ name, ofType name field.type.withoutFlags = ofType name field.type) :
    ofFields (Field.withoutFlags fields) = ofFields fields := by
  have hdeclared : Field.declared (Field.withoutFlags fields) = Field.withoutFlags fields := by
    apply Field.declared_eq_self
    rw [Field.withoutFlags_eq_map, List.forall_mem_map]
    exact fun field hfield => (Field.mem_declared.mp hfield).2
  rw [ofFields_eq_mapM, ofFields_eq_mapM, hdeclared, Field.withoutFlags_eq_map, List.mapM_map]
  apply mapM_congr_mem
  intro field hfield
  show ofField ⟨field.name, field.type.withoutFlags, field.nullable, field.annotations⟩ = _
  rw [ofField, h field (Field.mem_declared.mp hfield).1, ofField]

/-- The description of a type leaves its flags out. -/
theorem ofType_withoutFlags (type : DataType) :
    ∀ name, ofType name type.withoutFlags = ofType name type := by
  induction type using DataType.struct_induction with
  | leaf type leaf =>
    intro name
    rw [DataType.withoutFlags_leaf leaf]
  | struct fields ih =>
    intro name
    rw [DataType.withoutFlags, ofType, ofType, ofFields_withoutFlags ih]

/-- The descriptions of fields have no flags at any level if those of their types have none. -/
theorem unflagged_ofFields {fields : List Field} {descriptions : List FieldDescription}
    (types : ∀ field ∈ fields, ∀ name typeName children,
      ofType name field.type = .ok (typeName, some children) → ∀ child ∈ children, child.Unflagged)
    (h : ofFields fields = .ok descriptions) :
    ∀ description ∈ descriptions, description.Unflagged := by
  rw [ofFields_eq_mapM, mapM_eq_ok_iff] at h
  intro description hdescription
  obtain ⟨field, hfield, hof⟩ := exists_related h.flip hdescription
  obtain ⟨hmem, hname⟩ := Field.mem_declared.mp hfield
  rw [ofField] at hof
  obtain ⟨⟨typeName, children⟩, hdescribed, hof⟩ := (bind_eq_ok_iff _ _ _).mp hof
  cases hof
  cases children with
  | none => exact .leaf hname
  | some children => exact .struct hname (types field hmem _ _ _ hdescribed)

/-- No flags are described. -/
theorem unflagged_ofType (type : DataType) : ∀ name typeName children,
    ofType name type = .ok (typeName, some children) → ∀ child ∈ children, child.Unflagged := by
  induction type using DataType.struct_induction with
  | leaf type leaf =>
    intro name typeName children h
    rw [ofType_leaf leaf] at h
    split at h <;> cases h
  | struct fields ih =>
    intro name typeName children h
    rw [ofType] at h
    obtain ⟨descriptions, hdescriptions, h⟩ := (bind_eq_ok_iff _ _ _).mp h
    cases h
    exact unflagged_ofFields ih hdescriptions

end FieldDescription

/-! ## Rebuilding -/

namespace SchemaDescription

variable {fields : List Field} {description : SchemaDescription}

/-- The description of a schema has no flags. -/
theorem unflagged_of_ofFields (h : ofFields fields = .ok description) : description.Unflagged := by
  obtain ⟨descriptions, hdescriptions, h⟩ := (bind_eq_ok_iff _ _ _).mp h
  cases h
  exact FieldDescription.unflagged_ofFields
    (fun field _ => FieldDescription.unflagged_ofType field.type) hdescriptions

/-- The description of a schema leaves its flags out. -/
theorem ofFields_withoutFlags (fields : List Field) :
    ofFields (Field.withoutFlags fields) = ofFields fields := by
  unfold ofFields
  rw [FieldDescription.ofFields_withoutFlags fun field _ =>
    FieldDescription.ofType_withoutFlags field.type]

/-- The description of a schema becomes its fields, without flags. -/
theorem toFields_of_ofFields (h : ofFields fields = .ok description) :
    description.toFields = .ok (Field.withoutFlags fields) := by
  obtain ⟨descriptions, hdescriptions, h⟩ := (bind_eq_ok_iff _ _ _).mp h
  cases h
  exact FieldDescription.toFields_of_ofFields
    (fun field _ => FieldDescription.typeGivenBack field.type) hdescriptions

end SchemaDescription

namespace Schema

variable {fields canonical : List Field}

/-- Canonical metadata without its flags is a reordering of the fields. -/
theorem reordered_canonicalMetadata (h : canonicalMetadata fields = .ok canonical) :
    Field.Rearranged fields (Field.withoutFlags canonical) := by
  have htype : canonicalType Column.metadata (.struct fields) = .ok (.struct canonical) := by
    rw [canonicalType_struct, h]
    rfl
  have hreordered := reordered_canonicalType _ _ htype
  rw [DataType.withoutFlags] at hreordered
  cases hreordered with
  | same => exact .perm (List.Perm.refl _)
  | struct h => exact h

/-- Canonical metadata without its flags is in order at every level. -/
theorem ordered_canonicalMetadata (h : canonicalMetadata fields = .ok canonical) :
    (DataType.struct (Field.withoutFlags canonical)).Ordered := by
  have hordered := ((canonicalMetadata_eq_ok_iff fields canonical).mp h).2.ordered
  rw [DataType.withoutFlags] at hordered
  exact hordered

/-- Canonical metadata can be described. -/
theorem described_canonicalMetadata (h : canonicalMetadata fields = .ok canonical) :
    ∃ description, SchemaDescription.ofFields canonical = .ok description := by
  have flagged : (DataType.struct canonical).Flagged := by
    apply flagged_canonicalType (.struct fields) Column.metadata
    rw [canonicalType_struct, h]
    rfl
  obtain ⟨-, below⟩ := flagged.level_and_below
  obtain ⟨descriptions, hdescriptions⟩ := FieldDescription.ofFields_isOk fun field hfield hname =>
    FieldDescription.ofType_isOk (below field hfield hname) field.name
  rw [SchemaDescription.ofFields, hdescriptions]
  exact ⟨_, rfl⟩

/-- Canonical metadata is its own canonical form, once the flags are left out. -/
theorem canonicalMetadata_withoutFlags (h : canonicalMetadata fields = .ok canonical) :
    canonicalMetadata (Field.withoutFlags canonical) = .ok canonical :=
  canonicalMetadata_rearranged (reordered_canonicalMetadata h) h

/-- A new table depends on its metadata by the canonical form only. -/
theorem ofMetadata_congr {fields fields' : List Field} (width : Int64)
    (h : canonicalMetadata fields = canonicalMetadata fields') :
    ofMetadata fields width = ofMetadata fields' width := by
  unfold ofMetadata
  rw [h]

/-- Canonical metadata has a description, that of the declared fields in ascending order at every
level, and no flags are described. The fields that it gives back have the same canonical form, and
so a table is built again from the description of its metadata and its width. -/
theorem rebuilt_of_description (fields canonical : List Field)
    (h : canonicalMetadata fields = .ok canonical) :
    (∃ description ordered, SchemaDescription.ofFields canonical = .ok description ∧
      description.Unflagged ∧
      Field.Rearranged fields ordered ∧ (DataType.struct ordered).Ordered ∧
      SchemaDescription.ofFields ordered = .ok description ∧
      description.toFields = .ok ordered ∧
      canonicalMetadata ordered = .ok canonical) ∧
    (∀ width schema, ofMetadata fields width = .ok schema →
      ∃ metadata description declared size, schema.metadataFields = .ok metadata ∧
        SchemaDescription.ofFields metadata = .ok description ∧
        description.toFields = .ok declared ∧
        schema.width = .ok size ∧
        ofMetadata declared (Int64.ofNat size) = .ok schema) := by
  obtain ⟨description, hdescription⟩ := described_canonicalMetadata h
  have hfields := SchemaDescription.toFields_of_ofFields hdescription
  have hcanonical := canonicalMetadata_withoutFlags h
  refine ⟨⟨description, Field.withoutFlags canonical, hdescription,
    SchemaDescription.unflagged_of_ofFields hdescription, reordered_canonicalMetadata h,
    ordered_canonicalMetadata h,
    (SchemaDescription.ofFields_withoutFlags canonical).trans hdescription, hfields,
    hcanonical⟩, ?_⟩
  intro width schema hschema
  obtain ⟨⟨size, hsize, hwidth⟩, hmetadata, -⟩ := reads_of_ofMetadata hschema (List.Perm.refl _)
  have hsame : Int64.ofNat size = width := by
    rw [← Int64.ofInt_eq_ofNat, hwidth, Int64.ofInt_toInt]
  refine ⟨canonical, description, Field.withoutFlags canonical, size, hmetadata.trans h,
    hdescription, hfields, hsize, ?_⟩
  rw [hsame, ofMetadata_congr width (hcanonical.trans h.symm), hschema]

/-- A struct with members declared in descending order, beside a leaf, in a table of width 3. -/
theorem rebuilt_of_description_two_levels :
    canonicalMetadata [.plain "b" .utf8 true,
        .plain "a" (.struct [.plain "y" .int32 false, .plain "x" .boolean true]) true] =
      .ok [flagsField ["a", "b"],
        .plain "a" (.struct [flagsField ["x", "y"], .plain "x" .boolean true,
          .plain "y" .int32 false]) true,
        .plain "b" .utf8 true] ∧
    ∃ schema metadata description declared size,
      ofMetadata [.plain "b" .utf8 true,
        .plain "a" (.struct [.plain "y" .int32 false, .plain "x" .boolean true]) true] 3 =
          .ok schema ∧
      schema.metadataFields = .ok metadata ∧ SchemaDescription.ofFields metadata = .ok description ∧
      description.toFields = .ok declared ∧ schema.width = .ok size ∧
      ofMetadata declared (Int64.ofNat size) = .ok schema := by
  have h : canonicalMetadata [.plain "b" .utf8 true,
        .plain "a" (.struct [.plain "y" .int32 false, .plain "x" .boolean true]) true] =
      .ok [flagsField ["a", "b"],
        .plain "a" (.struct [flagsField ["x", "y"], .plain "x" .boolean true,
          .plain "y" .int32 false]) true,
        .plain "b" .utf8 true] := rfl
  obtain ⟨schema, hschema⟩ := (ofMetadata_isOk_iff _ 3).mpr ⟨⟨_, h⟩, by decide, by decide⟩
  obtain ⟨metadata, description, declared, size, hrebuilt⟩ :=
    (rebuilt_of_description _ _ h).2 3 schema hschema
  exact ⟨h, schema, metadata, description, declared, size, hschema, hrebuilt⟩

end Schema

end DocumentStore
