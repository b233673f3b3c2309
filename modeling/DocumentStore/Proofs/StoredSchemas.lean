import DocumentStore.Proofs.DescribedFields
import DocumentStore.Store.Table

/-!
# Opening stored tables

The schema of a stored table is checked and used as it is: neither the metadata nor the width that
a store declares has a part in it. What is declared is needed for a new table only. But a declared
description is made into fields before it is known whether a table is stored, so one that is no
description of fields keeps every table of the store from being opened.
-/

set_option autoImplicit false

namespace DocumentStore

/-! ## Descriptions of fields -/

/-- A leaf with the name of a leaf type, or a struct of such fields. -/
inductive FieldDescription.Describes : FieldDescription → Prop
  | leaf {name typeName : String} {nullable : Bool} {annotations : Option (Dict String)}
      {type : DataType} (h : type.name? = some typeName) :
      Describes (.mk name typeName nullable annotations none)
  | struct {name : String} {nullable : Bool} {annotations : Option (Dict String)}
      {children : List FieldDescription} (below : ∀ child ∈ children, Describes child) :
      Describes (.mk name structName nullable annotations (some children))

/-- A struct of described fields. -/
def SchemaDescription.Describes (description : SchemaDescription) : Prop :=
  description.kind = structName ∧ ∀ child ∈ description.children, child.Describes

/-- What the store declares as metadata, if anything, is a struct of described fields. -/
def StoreConfig.Describes (config : StoreConfig) : Prop :=
  ∀ description, config.metadataSchema = some description → description.Describes

namespace FieldDescription

/-- A field without children is described by the name of a type. -/
theorem describes_leaf_iff {name typeName : String} {nullable : Bool}
    {annotations : Option (Dict String)} :
    (mk name typeName nullable annotations none).Describes ↔
      ∃ type, DataType.ofName? typeName = some type := by
  constructor
  · rintro (⟨h⟩ | _)
    exact ⟨_, (DataType.name?_eq_some_iff _ _).mp h⟩
  · rintro ⟨type, h⟩
    exact .leaf ((DataType.name?_eq_some_iff _ _).mpr h)

/-- A field with children is described as a struct of described children. -/
theorem describes_struct_iff {name typeName : String} {nullable : Bool}
    {annotations : Option (Dict String)} {children : List FieldDescription} :
    (mk name typeName nullable annotations (some children)).Describes ↔
      typeName = structName ∧ ∀ child ∈ children, child.Describes := by
  constructor
  · rintro (_ | ⟨below⟩)
    exact ⟨rfl, below⟩
  · rintro ⟨rfl, below⟩
    exact .struct below

/-- Children become fields when each of them does. -/
theorem toFields_isOk_iff (children : List FieldDescription) :
    (∃ fields, toFields children = .ok fields) ↔
      ∀ child ∈ children, ∃ field, child.toField = .ok field := by
  rw [toFields_eq_mapM, mapM_isOk_iff]

/-- A field is made of a description of one and of nothing else. -/
theorem toField_isOk_iff (description : FieldDescription) :
    (∃ field, description.toField = .ok field) ↔ description.Describes := by
  induction description using children_induction with
  | leaf name typeName nullable annotations =>
    rw [describes_leaf_iff, toField, bind_pure_eq_map, map_isOk_iff, toType]
    by_cases hname : typeName = structName
    · subst hname
      rw [if_pos rfl, DataType.ofName?_structName]
      simp
    · rw [if_neg hname]
      cases DataType.ofName? typeName <;> simp
  | struct name typeName nullable annotations children ih =>
    rw [describes_struct_iff, toField, bind_pure_eq_map, map_isOk_iff, toType]
    by_cases hname : typeName = structName
    · rw [if_pos hname, bind_pure_eq_map, map_isOk_iff, toFields_isOk_iff, and_iff_right hname]
      exact forall₂_congr ih
    · rw [if_neg hname]
      simp [hname]

/-- What is wrong with a description lies in the declaration of the store. -/
theorem toField_error (description : FieldDescription) :
    ∀ e, description.toField = .error e → ∃ cause, e = .configuration cause := by
  induction description using children_induction with
  | leaf name typeName nullable annotations =>
    intro e h
    rw [toField, bind_eq_error_iff, toType] at h
    rcases h with h | ⟨_, -, h⟩
    · split at h
      · cases h
        exact ⟨_, rfl⟩
      · split at h
        · cases h
        · cases h
          exact ⟨_, rfl⟩
    · cases h
  | struct name typeName nullable annotations children ih =>
    intro e h
    rw [toField, bind_eq_error_iff, toType] at h
    rcases h with h | ⟨_, -, h⟩
    · split at h
      · rw [bind_eq_error_iff, toFields_eq_mapM, mapM_eq_error_iff] at h
        rcases h with ⟨before, child, after, rfl, -, hchild⟩ | ⟨_, -, h⟩
        · exact ih child (by simp) e hchild
        · cases h
      · cases h
        exact ⟨_, rfl⟩
    · cases h

end FieldDescription

namespace SchemaDescription

/-- A schema becomes fields when it is described. -/
theorem toFields_isOk_iff (description : SchemaDescription) :
    (∃ fields, description.toFields = .ok fields) ↔ description.Describes := by
  unfold toFields Describes
  by_cases hkind : description.kind = structName
  · rw [if_pos hkind, FieldDescription.toFields_isOk_iff, and_iff_right hkind]
    exact forall₂_congr fun child _ => FieldDescription.toField_isOk_iff child
  · rw [if_neg hkind]
    simp [hkind]

/-- A schema that does not become fields is refused as a configuration. -/
theorem toFields_error {description : SchemaDescription} {e : Error}
    (h : description.toFields = .error e) : ∃ cause, e = .configuration cause := by
  unfold toFields at h
  split at h
  · rw [FieldDescription.toFields_eq_mapM, mapM_eq_error_iff] at h
    obtain ⟨_, child, _, -, -, hchild⟩ := h
    exact child.toField_error e hchild
  · cases h
    exact ⟨_, rfl⟩

end SchemaDescription

/-! ## Schemas of tables -/

/-- A schema with a width and metadata passes the check. -/
theorem Schema.check_of_ok {schema : Schema} {width : Nat} {fields : List Field}
    (hwidth : schema.width = .ok width) (hfields : schema.metadataFields = .ok fields) :
    schema.check = .ok () := by
  unfold check
  rw [hwidth, hfields]
  rfl

/-- A schema without a width fails the check as the width does. -/
theorem Schema.check_of_width_error {schema : Schema} {e : Error} (h : schema.width = .error e) :
    schema.check = .error e := by
  unfold check
  rw [h]
  rfl

/-- A schema without metadata fails the check as the metadata does. -/
theorem Schema.check_of_metadataFields_error {schema : Schema} {width : Nat} {e : Error}
    (hwidth : schema.width = .ok width) (h : schema.metadataFields = .error e) :
    schema.check = .error e := by
  unfold check
  rw [hwidth, h]
  rfl

namespace StoreConfig

variable {config : StoreConfig}

/-- A store has a plan for its table when what it declares are fields. -/
theorem exists_plan (h : config.Describes) : ∃ plan, config.plan = .ok plan := by
  unfold plan
  cases hschema : config.metadataSchema with
  | none => exact ⟨_, rfl⟩
  | some description =>
    obtain ⟨fields, hfields⟩ := description.toFields_isOk_iff.mpr (h description hschema)
    rw [Option.mapM_some, hfields]
    exact ⟨_, rfl⟩

/-- A store that declares what are no fields has none. -/
theorem exists_plan_error (h : ¬config.Describes) :
    ∃ cause, config.plan = .error (.configuration cause) := by
  unfold Describes at h
  push Not at h
  obtain ⟨description, hschema, hdescription⟩ := h
  cases hfields : description.toFields with
  | ok fields => exact absurd (description.toFields_isOk_iff.mp ⟨fields, hfields⟩) hdescription
  | error e =>
    obtain ⟨cause, rfl⟩ := SchemaDescription.toFields_error hfields
    refine ⟨cause, ?_⟩
    unfold plan
    rw [hschema, Option.mapM_some, hfields]
    rfl

/-- With a plan, the schema of a stored table is checked, and nothing else matters. -/
theorem rootSchema_of_describes (h : config.Describes) (schema : Schema) :
    config.rootSchema (some schema) = schema.check.map fun _ => schema := by
  obtain ⟨plan, hplan⟩ := exists_plan h
  unfold rootSchema
  rw [hplan, ok_bind]
  exact bind_pure_eq_map schema.check fun _ => schema

/-- What a store declares has no part in the schema of a stored table, as long as the declared
metadata are fields, whether or not a table can be made of them and the declared width. If they are
none, no table of the store can be opened or made. -/
theorem storedSchema_authoritative (config : StoreConfig) (schema : Schema) :
    (config.Describes →
      (∀ width fields, schema.width = .ok width → schema.metadataFields = .ok fields →
        config.rootSchema (some schema) = .ok schema ∧
          Table.ofConfig config (some schema) = .ok ⟨schema, config.policy, []⟩) ∧
      (∀ e, schema.width = .error e → config.rootSchema (some schema) = .error e) ∧
      (∀ width e, schema.width = .ok width → schema.metadataFields = .error e →
        config.rootSchema (some schema) = .error e) ∧
      ∀ other : StoreConfig, other.Describes →
        other.rootSchema (some schema) = config.rootSchema (some schema)) ∧
    (¬config.Describes → ∃ cause, ∀ stored : Option Schema,
      config.rootSchema stored = .error (.configuration cause) ∧
        Table.ofConfig config stored = .error (.configuration cause)) := by
  constructor
  · intro h
    have hroot := rootSchema_of_describes h schema
    refine ⟨fun width fields hwidth hfields => ?_, fun e hwidth => ?_,
      fun width e hwidth hfields => ?_, fun other hother => ?_⟩
    · have hcheck := Schema.check_of_ok hwidth hfields
      rw [hcheck] at hroot
      refine ⟨hroot, ?_⟩
      unfold Table.ofConfig
      rw [hroot, Except.map, ok_bind, hcheck]
      rfl
    · rw [hroot, Schema.check_of_width_error hwidth]
      rfl
    · rw [hroot, Schema.check_of_metadataFields_error hwidth hfields]
      rfl
    · rw [hroot, rootSchema_of_describes hother schema]
  · intro h
    obtain ⟨cause, hplan⟩ := exists_plan_error h
    have hroot : ∀ stored, config.rootSchema stored = .error (.configuration cause) := by
      intro stored
      unfold rootSchema
      rw [hplan]
      rfl
    refine ⟨cause, fun stored => ⟨hroot stored, ?_⟩⟩
    unfold Table.ofConfig
    rw [hroot]
    rfl

/-- A stored table of two columns, opened by a store that declares a negative width, a name twice
and the name of the flags, and by one that declares nothing. -/
theorem storedSchema_authoritative_unusable :
    let schema : Schema := ⟨[
      .plain Column.vector (.fixedSizeList (.plain "item" .float32 true) 3) false,
      .plain Column.metadata (.struct []) false]⟩
    let unusable : StoreConfig := ⟨"data", "docs", some ⟨structName, [
      .mk "a" "string" true none none,
      .mk "a" structName true none (some [.mk Column.flags "int32" false none none])]⟩,
      some (-1), .skip⟩
    (∃ e, unusable.rootSchema none = .error e) ∧
      unusable.rootSchema (some schema) = .ok schema ∧
      Table.ofConfig unusable (some schema) = .ok ⟨schema, .skip, []⟩ ∧
      (⟨"data", "docs", none, none, .unset⟩ : StoreConfig).rootSchema (some schema) =
        unusable.rootSchema (some schema) := by
  intro schema unusable
  have describes : unusable.Describes := by
    rintro description ⟨⟩
    refine ⟨rfl, ?_⟩
    simp only [List.forall_mem_cons, List.not_mem_nil, false_implies, implies_true, and_true]
    refine ⟨@FieldDescription.Describes.leaf _ _ _ _ .utf8 rfl, .struct ?_⟩
    simp only [List.forall_mem_cons, List.not_mem_nil, false_implies, implies_true, and_true]
    exact @FieldDescription.Describes.leaf _ _ _ _ .int32 rfl
  obtain ⟨hstored, -, -, hother⟩ := (storedSchema_authoritative unusable schema).1 describes
  obtain ⟨hroot, htable⟩ := hstored 3 [] rfl rfl
  refine ⟨⟨_, rfl⟩, hroot, htable, hother _ ?_⟩
  rintro description ⟨⟩

/-- A description that is none of a struct keeps a stored table, which another store opens, from
being opened. -/
theorem storedSchema_overridden :
    ∃ schema, Schema.ofMetadata [] 2 = .ok schema ∧
      (∃ width, schema.width = .ok width) ∧ (∃ fields, schema.metadataFields = .ok fields) ∧
      (⟨"data", "docs", some ⟨"list", []⟩, none, .unset⟩ : StoreConfig).rootSchema (some schema) =
        .error (.configuration (.descriptionNotStruct "list")) ∧
      (⟨"data", "docs", none, none, .unset⟩ : StoreConfig).rootSchema (some schema) =
        .ok schema :=
  ⟨_, rfl, ⟨_, rfl⟩, ⟨_, rfl⟩, rfl, rfl⟩

end StoreConfig

end DocumentStore
