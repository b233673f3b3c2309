import DocumentStore.Proofs.FlaggedLevels
import DocumentStore.Schema.Description

/-!
# Fields and their descriptions

Fields that have a description are described without their flags, and the description gives the
fields back without them. A description of fields none of which bears the name of the flags is
described by its fields again, save that annotations without an entry are left out. So descriptions
and fields without flags are two forms of the same thing.
-/

set_option autoImplicit false

namespace DocumentStore

/-! ## What is left out -/

mutual

/-- The description with annotations only where there are some. -/
def FieldDescription.withoutEmptyAnnotations : FieldDescription → FieldDescription
  | .mk name type nullable annotations children =>
    .mk name type nullable (annotations.filter fun entries => !entries.isEmpty)
      (FieldDescription.childrenWithoutEmptyAnnotations children)

/-- The children with annotations only where there are some. -/
def FieldDescription.childrenWithoutEmptyAnnotations :
    Option (List FieldDescription) → Option (List FieldDescription)
  | none => none
  | some children => some (FieldDescription.allWithoutEmptyAnnotations children)

/-- The descriptions with annotations only where there are some. -/
def FieldDescription.allWithoutEmptyAnnotations : List FieldDescription → List FieldDescription
  | [] => []
  | description :: rest =>
    description.withoutEmptyAnnotations :: FieldDescription.allWithoutEmptyAnnotations rest

end

/-- The description with annotations only where there are some. -/
def SchemaDescription.withoutEmptyAnnotations (description : SchemaDescription) :
    SchemaDescription :=
  ⟨description.kind, FieldDescription.allWithoutEmptyAnnotations description.children⟩

/-- Neither the field nor one below it bears the name of the flags. -/
inductive FieldDescription.Unflagged : FieldDescription → Prop
  | leaf {name type : String} {nullable : Bool} {annotations : Option (Dict String)}
      (h : name ≠ Column.flags) : Unflagged (.mk name type nullable annotations none)
  | struct {name type : String} {nullable : Bool} {annotations : Option (Dict String)}
      {children : List FieldDescription} (h : name ≠ Column.flags)
      (below : ∀ child ∈ children, Unflagged child) :
      Unflagged (.mk name type nullable annotations (some children))

/-- No field at any depth bears the name of the flags. -/
def SchemaDescription.Unflagged (description : SchemaDescription) : Prop :=
  ∀ child ∈ description.children, child.Unflagged

mutual

/-- The type with the flags of its levels left out. Lists, which have no description, stay as they
are. -/
def DataType.withoutFlags : DataType → DataType
  | .struct fields => .struct (Field.withoutFlags fields)
  | type => type

/-- The fields of a level, and of the levels below it, without their flags. -/
def Field.withoutFlags : List (FieldOf DataType) → List (FieldOf DataType)
  | [] => []
  | ⟨name, type, nullable, annotations⟩ :: rest =>
    if name = Column.flags then Field.withoutFlags rest
    else ⟨name, type.withoutFlags, nullable, annotations⟩ :: Field.withoutFlags rest

end

/-! ## Names of types -/

namespace DataType

/-- The two tables are inverse to each other: a type has a name exactly when the name has the type. -/
theorem name?_eq_some_iff (type : DataType) (name : String) :
    type.name? = some name ↔ ofName? name = some type := by
  constructor
  · intro h
    unfold name? at h
    split at h <;> cases h <;> rfl
  · intro h
    unfold ofName? at h
    split at h <;> cases h <;> rfl

/-- The name of structs is not among those of leaf types. -/
theorem ofName?_structName : ofName? structName = none := rfl

/-- Only leaves have a name of their own. -/
theorem members?_of_ofName? {name : String} {type : DataType} (h : ofName? name = some type) :
    type.members? = none := by
  unfold ofName? at h
  split at h <;> cases h <;> rfl

/-- Leaving out flags leaves a leaf as it is. -/
theorem withoutFlags_leaf {type : DataType} (leaf : type.members? = none) :
    type.withoutFlags = type := by
  cases type <;> first | rfl | cases leaf

end DataType

/-- Dropping the flags at all levels goes through the declared fields. -/
theorem Field.withoutFlags_eq_map (fields : List Field) :
    withoutFlags fields = (declared fields).map fun field =>
      ⟨field.name, field.type.withoutFlags, field.nullable, field.annotations⟩ := by
  induction fields with
  | nil => rfl
  | cons field rest ih =>
    unfold declared at ih ⊢
    rw [withoutFlags, ih]
    by_cases hname : field.name = Column.flags <;> simp [hname]

namespace FieldDescription

/-! ## Levels of descriptions -/

/-- Empty annotations are dropped description by description. -/
theorem allWithoutEmptyAnnotations_eq_map (descriptions : List FieldDescription) :
    allWithoutEmptyAnnotations descriptions = descriptions.map withoutEmptyAnnotations := by
  induction descriptions with
  | nil => rfl
  | cons description rest ih => rw [allWithoutEmptyAnnotations, ih, List.map_cons]

/-- Descriptions become fields one by one. -/
theorem toFields_eq_mapM (descriptions : List FieldDescription) :
    toFields descriptions = descriptions.mapM toField := by
  induction descriptions with
  | nil => rfl
  | cons description rest ih => rw [toFields, List.mapM_cons, ih]

/-- Declared fields are described one by one. -/
theorem ofFields_eq_mapM (fields : List Field) :
    ofFields fields = (Field.declared fields).mapM ofField := by
  induction fields with
  | nil => rfl
  | cons field rest ih =>
    unfold Field.declared at ih ⊢
    rw [ofFields, ih]
    by_cases hname : field.name = Column.flags <;> simp [hname]

/-- A leaf is described by the name of its type. -/
theorem ofType_leaf {type : DataType} (leaf : type.members? = none) (name : String) :
    ofType name type =
      match type.name? with
      | some typeName => .ok (typeName, none)
      | none => .error (.configuration (.undescribedType name type)) := by
  cases type <;> first | rfl | cases leaf

section Induction

variable {P : FieldDescription → Prop}

mutual

/-- A property of descriptions holds of all of them when it holds of each one whose children have
it. -/
theorem children_induction
    (leaf : ∀ name type nullable annotations, P (.mk name type nullable annotations none))
    (struct : ∀ name type nullable annotations children, (∀ child ∈ children, P child) →
      P (.mk name type nullable annotations (some children))) : ∀ description, P description
  | .mk name type nullable annotations none => leaf name type nullable annotations
  | .mk name type nullable annotations (some children) =>
    struct name type nullable annotations children (all_children_induction leaf struct children)

/-- The induction over descriptions, for a list of children. -/
theorem all_children_induction
    (leaf : ∀ name type nullable annotations, P (.mk name type nullable annotations none))
    (struct : ∀ name type nullable annotations children, (∀ child ∈ children, P child) →
      P (.mk name type nullable annotations (some children))) :
    ∀ children : List FieldDescription, ∀ child ∈ children, P child
  | [], _, h => absurd h List.not_mem_nil
  | description :: rest, child, h => by
    rcases List.mem_cons.mp h with h | h
    · rw [h]
      exact children_induction leaf struct description
    · exact all_children_induction leaf struct rest child h

end

end Induction

variable {description : FieldDescription} {field : Field}

/-! ## From descriptions to fields and back -/

/-- Annotations that are described again have lost only an empty dictionary. -/
theorem annotations_of_getD (annotations : Option (Dict String)) :
    (if (annotations.getD Dict.empty).isEmpty then none
      else some (annotations.getD Dict.empty)) =
      annotations.filter fun entries => !entries.isEmpty := by
  cases annotations with
  | none => rfl
  | some entries =>
    rw [Option.getD_some, Option.filter_some]
    cases entries.isEmpty <;> rfl

/-- Annotations are the ones that their description gives back. -/
theorem getD_of_annotations (annotations : Dict String) :
    (if annotations.isEmpty then none else some annotations).getD Dict.empty = annotations := by
  obtain ⟨entries⟩ := annotations
  cases entries <;> rfl

/-- The fields of a level are described as before when each of them is. -/
theorem ofFields_of_toFields {children : List FieldDescription} {fields : List Field}
    (hfields : toFields children = .ok fields)
    (h : ∀ child ∈ children, ∀ field, child.toField = .ok field →
      field.name ≠ Column.flags ∧ ofField field = .ok child.withoutEmptyAnnotations) :
    ofFields fields = .ok (allWithoutEmptyAnnotations children) := by
  rw [toFields_eq_mapM, mapM_eq_ok_iff] at hfields
  have hdeclared : Field.declared fields = fields := by
    apply Field.declared_eq_self
    intro field hfield
    obtain ⟨child, hchild, hto⟩ := exists_related hfields.flip hfield
    exact (h child hchild field hto).1
  rw [ofFields_eq_mapM, hdeclared, allWithoutEmptyAnnotations_eq_map, mapM_eq_ok_iff,
    List.forall₂_map_right_iff]
  have hboth := (List.forall₂_and_left children fields).mpr ⟨h, hfields⟩
  exact hboth.flip.imp fun field child hchild => (hchild.1 field hchild.2).2

/-- A field that was made of a description without flags is described as before. -/
theorem ofField_of_toField (description : FieldDescription) :
    ∀ field, description.Unflagged → description.toField = .ok field →
      field.name ≠ Column.flags ∧ ofField field = .ok description.withoutEmptyAnnotations := by
  induction description using children_induction with
  | leaf name type nullable annotations =>
    rintro field ⟨hname⟩ h
    rw [toField, bind_eq_ok_iff] at h
    obtain ⟨found, hfound, h⟩ := h
    cases h
    refine ⟨hname, ?_⟩
    rw [toType] at hfound
    split at hfound
    · cases hfound
    split at hfound
    · next named hnamed =>
      cases hfound
      have leaf := DataType.members?_of_ofName? hnamed
      rw [ofField, ofType_leaf leaf, (DataType.name?_eq_some_iff _ _).mpr hnamed, ok_bind,
        annotations_of_getD]
      rfl
    · cases hfound
  | struct name type nullable annotations children ih =>
    rintro field (_ | ⟨hname, below⟩) h
    rw [toField, bind_eq_ok_iff] at h
    obtain ⟨found, hfound, h⟩ := h
    cases h
    refine ⟨hname, ?_⟩
    rw [toType] at hfound
    split at hfound
    · next htype =>
      obtain ⟨fields, hfields, hfound⟩ := (bind_eq_ok_iff _ _ _).mp hfound
      cases hfound
      have hchildren := ofFields_of_toFields hfields fun child hchild field =>
        ih child hchild field (below child hchild)
      rw [ofField, ofType, hchildren, ok_bind, pure_eq_ok, ok_bind, annotations_of_getD, htype]
      rfl
    · cases hfound

/-- A type is given back by its name and children, its flags left out. -/
def TypeGivenBack (type : DataType) : Prop :=
  ∀ name typeName children, ofType name type = .ok (typeName, children) →
    toType name typeName children = .ok type.withoutFlags

/-- A description becomes the field that it describes, without flags, if its type is given back. -/
theorem toField_of_ofField (htype : TypeGivenBack field.type) (h : ofField field = .ok description) :
    toField description =
      .ok ⟨field.name, field.type.withoutFlags, field.nullable, field.annotations⟩ := by
  rw [ofField, bind_eq_ok_iff] at h
  obtain ⟨⟨typeName, children⟩, hdescribed, h⟩ := h
  cases h
  rw [toField, htype _ _ _ hdescribed, ok_bind, getD_of_annotations]
  rfl

/-- The described fields of a level are its fields, the flags left out. -/
theorem toFields_of_ofFields {fields : List Field} {descriptions : List FieldDescription}
    (htypes : ∀ field ∈ fields, TypeGivenBack field.type)
    (h : ofFields fields = .ok descriptions) :
    toFields descriptions = .ok (Field.withoutFlags fields) := by
  rw [ofFields_eq_mapM, mapM_eq_ok_iff] at h
  rw [toFields_eq_mapM, mapM_eq_ok_iff, Field.withoutFlags_eq_map, List.forall₂_map_right_iff]
  have hdeclared : ∀ field ∈ Field.declared fields, TypeGivenBack field.type :=
    fun field hfield => htypes field (Field.mem_declared.mp hfield).1
  have hboth := (List.forall₂_and_left _ _).mpr ⟨hdeclared, h⟩
  exact hboth.flip.imp fun description field hfield => toField_of_ofField hfield.1 hfield.2

/-- A described type is the type with its flags left out. -/
theorem typeGivenBack (type : DataType) : TypeGivenBack type := by
  induction type using DataType.struct_induction with
  | leaf type leaf =>
    intro name typeName children h
    rw [ofType_leaf leaf] at h
    split at h
    · next hnamed =>
      cases h
      rw [DataType.name?_eq_some_iff] at hnamed
      have hstruct : typeName ≠ structName := by
        rintro rfl
        rw [DataType.ofName?_structName] at hnamed
        cases hnamed
      rw [toType, if_neg hstruct, hnamed, DataType.withoutFlags_leaf leaf]
    · cases h
  | struct fields ih =>
    intro name typeName children h
    rw [ofType] at h
    obtain ⟨descriptions, hdescriptions, h⟩ := (bind_eq_ok_iff _ _ _).mp h
    cases h
    rw [toType, if_pos rfl, toFields_of_ofFields ih hdescriptions]
    rfl

end FieldDescription

/-! ## Schemas -/

namespace SchemaDescription

/-- Descriptions and fields without flags are inverse to each other. -/
theorem ofFields_inverse_toFields (description : SchemaDescription) (fields : List Field) :
    (description.Unflagged → description.toFields = .ok fields →
      ofFields fields = .ok description.withoutEmptyAnnotations) ∧
    (ofFields fields = .ok description →
      description.toFields = .ok (Field.withoutFlags fields)) := by
  constructor
  · intro unflagged h
    unfold toFields at h
    split at h
    · next hkind =>
      have hchildren := FieldDescription.ofFields_of_toFields h fun child hchild field =>
        FieldDescription.ofField_of_toField child field (unflagged child hchild)
      unfold ofFields withoutEmptyAnnotations
      rw [hchildren, hkind]
      rfl
    · cases h
  · intro h
    obtain ⟨children, hchildren, h⟩ := (bind_eq_ok_iff _ _ _).mp h
    cases h
    exact FieldDescription.toFields_of_ofFields
      (fun field _ => FieldDescription.typeGivenBack field.type) hchildren

/-- A struct that is described with empty annotations, and the same struct with flags beside it and
another member in the place of flags below it. -/
theorem ofFields_inverse_toFields_nested :
    (⟨structName, [.mk "tags" structName true (some Dict.empty)
        (some [.mk "kind" "string" false none none])]⟩ : SchemaDescription).Unflagged ∧
    toFields ⟨structName, [.mk "tags" structName true (some Dict.empty)
        (some [.mk "kind" "string" false none none])]⟩ =
      .ok [.plain "tags" (.struct [.plain "kind" .utf8 false]) true] ∧
    ofFields [.plain "tags" (.struct [.plain "kind" .utf8 false]) true] =
      .ok ⟨structName, [.mk "tags" structName true none
        (some [.mk "kind" "string" false none none])]⟩ ∧
    ofFields [Schema.flagsField ["tags"], .plain "tags"
        (.struct [.plain "kind" .utf8 false, .plain Column.flags .date32 true]) true] =
      .ok ⟨structName, [.mk "tags" structName true none
        (some [.mk "kind" "string" false none none])]⟩ ∧
    toFields ⟨structName, [.mk "tags" structName true none
        (some [.mk "kind" "string" false none none])]⟩ =
      .ok [.plain "tags" (.struct [.plain "kind" .utf8 false]) true] := by
  have hkind : (.mk "kind" "string" false none none : FieldDescription).Unflagged :=
    .leaf (by decide)
  have unflagged : (⟨structName, [.mk "tags" structName true (some Dict.empty)
      (some [.mk "kind" "string" false none none])]⟩ : SchemaDescription).Unflagged := by
    simpa [Unflagged] using FieldDescription.Unflagged.struct (by decide) (by simpa using hkind)
  exact ⟨unflagged, rfl, (ofFields_inverse_toFields _ _).1 unflagged rfl, rfl,
    (ofFields_inverse_toFields _ [Schema.flagsField ["tags"], .plain "tags"
      (.struct [.plain "kind" .utf8 false, .plain Column.flags .date32 true]) true]).2 rfl⟩

end SchemaDescription

end DocumentStore
