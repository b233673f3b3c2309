import DocumentStore.Proofs.DescribedFields
import DocumentStore.Proofs.ReadingStructures
import DocumentStore.Store.Config

/-!
# Store descriptions read back

The text of a store description is read as the description, save that annotations without an entry
are left out at every depth; whatever is missing stays missing and whatever is empty stays empty
otherwise. The annotations have to ascend, as those of every map do, and the text must not be nested
too deep for the reader, which goes one level down for each struct, list and map.
-/

set_option autoImplicit false

namespace DocumentStore

/-- The annotations of the field and of the ones below it ascend, as they do in every map. -/
inductive FieldDescription.SortedAnnotations : FieldDescription → Prop
  | leaf {name type : String} {nullable : Bool} {annotations : Option (Dict String)}
      (h : ∀ entries ∈ annotations, entries.Sorted) :
      SortedAnnotations (.mk name type nullable annotations none)
  | struct {name type : String} {nullable : Bool} {annotations : Option (Dict String)}
      {children : List FieldDescription} (h : ∀ entries ∈ annotations, entries.Sorted)
      (below : ∀ child ∈ children, SortedAnnotations child) :
      SortedAnnotations (.mk name type nullable annotations (some children))

/-- The annotations ascend at every depth. -/
def SchemaDescription.SortedAnnotations (description : SchemaDescription) : Prop :=
  ∀ child ∈ description.children, child.SortedAnnotations

namespace StoreConfig

/-- The annotations in the metadata schema ascend at every depth. -/
def SortedAnnotations (config : StoreConfig) : Prop :=
  ∀ description ∈ config.metadataSchema, description.SortedAnnotations

/-- The store description with annotations only where there are some. -/
def withoutEmptyAnnotations (config : StoreConfig) : StoreConfig :=
  { config with
    metadataSchema := config.metadataSchema.map SchemaDescription.withoutEmptyAnnotations }

end StoreConfig

namespace FieldDescription

/-- The children of a description are written one by one. -/
theorem listJson_eq_map (descriptions : List FieldDescription) :
    listJson descriptions = descriptions.map toJson := by
  induction descriptions with
  | nil => rfl
  | cons description rest ih => rw [listJson, ih, List.map_cons]

/-! ## Reading fields -/

/-- Without room no list is read, whatever its items would be read with. -/
theorem readList_zero {α : Type} (read other : Json.Tree → Except Json.Failure α) :
    Json.Tree.readList 0 read = Json.Tree.readList 0 other := by
  funext tree
  cases tree <;> rfl

/-- With room for it, a description is read as an object whose children have one level less. -/
theorem ofTree_succ (room : Nat) (tree : Json.Tree) :
    ofTree (room + 1) tree =
      ((shape room (Json.Tree.readList room (ofTree (room - 1)))).read (room + 1)
        ⟨"", "", false, none, none⟩ tree).map Partial.complete := by
  cases room with
  | zero =>
    rw [readList_zero (ofTree (0 - 1)) fun _ => .error .malformed, ← bind_pure_eq_map]
    rfl
  | succ room =>
    rw [← bind_pure_eq_map]
    rfl

/-- Annotations need room for their map. -/
theorem finds_annotations {annotations : Option (Dict String)}
    (sorted : ∀ entries ∈ annotations, entries.Sorted) {room : Nat}
    (depth : ((annotations.map Json.ofStrings).getD .null).depth ≤ room) :
    Json.Finds (Json.Tree.readOptional (Json.Tree.readStrings room))
      ((annotations.map Json.ofStrings).getD .null) annotations := by
  have hroom : ∀ entries ∈ annotations, room ≠ 0 := by
    rintro entries rfl
    have hpos : 0 < (Json.ofStrings entries).depth := Nat.succ_pos _
    exact Nat.ne_of_gt (Nat.lt_of_lt_of_le hpos depth)
  have h := Json.finds_optional annotations (fun entries _ => Json.noConfusion)
    fun entries hentries => Json.finds_strings (hroom entries hentries) (sorted entries hentries)
  rwa [Option.map_id'] at h

/-- Children are found one by one, in a list that needs room of its own. -/
theorem finds_children {children : List FieldDescription} {room : Nat}
    (h : ∀ child ∈ children, child.toJson.depth ≤ room - 1 →
      Json.Finds (ofTree (room - 1)) child.toJson child.withoutEmptyAnnotations)
    (depth : (Json.array (listJson children)).depth ≤ room) :
    Json.Finds (Json.Tree.readList room (ofTree (room - 1))) (.array (listJson children))
      (allWithoutEmptyAnnotations children) := by
  have hdepths := (Json.itemDepth_le_iff _ _).mp (Nat.le_sub_one_of_lt depth)
  refine Json.finds_list (Nat.ne_zero_of_lt depth) ?_
  rw [listJson_eq_map] at hdepths ⊢
  rw [allWithoutEmptyAnnotations_eq_map, List.forall₂_map_left_iff, List.forall₂_map_right_iff,
    List.forall₂_same]
  exact fun child hchild => h child hchild (hdepths _ (List.mem_map_of_mem hchild))

section Members

variable {name type : String} {nullable : Bool} {annotations : Option (Dict String)} {room : Nat}
  {read : Json.Tree → Except Json.Failure (List FieldDescription)}

/-- The members that every field has are put into it before its children. -/
theorem puts_members
    (hannotations : Json.Finds (Json.Tree.readOptional (Json.Tree.readStrings room))
      ((annotations.map Json.ofStrings).getD .null) annotations)
    {members : List (String × Json)} {last : Partial}
    (h : (shape room read).Puts members
      ⟨name, type, nullable, annotations.filter fun entries => !entries.isEmpty, none⟩ last) :
    (shape room read).Puts
      ([("name", .string name), ("type", .string type), ("nullable", .bool nullable),
        ("metadata", (annotations.map Json.ofStrings).getD .null)] ++ members)
      ⟨"", "", false, none, none⟩ last :=
  .cons ((Json.finds_string name).map _) <|
  .cons ((Json.finds_string type).map _) <|
  .cons ((Json.finds_bool nullable).map _) <|
  .cons (hannotations.map _) h

/-- Children are put into a field as its last member. -/
theorem puts_children {items : List Json} {children : List FieldDescription}
    (h : Json.Finds read (.array items) children) (p : Partial) :
    (shape room read).Puts [("children", .array items)] p { p with children := some children } :=
  .cons ((h.optional Json.noConfusion).map _) .nil

/-- A field without children has the members that are wanted. -/
theorem fits_leaf : (shape room read).Fits ["name", "type", "nullable", "metadata"] :=
  ⟨by decide, by simp [shape], by simp [shape]⟩

/-- A field with children has the members that are wanted. -/
theorem fits_struct :
    (shape room read).Fits ["name", "type", "nullable", "metadata", "children"] :=
  ⟨by decide, by simp [shape], by simp [shape]⟩

/-- A field is found when its members are put together to it. -/
theorem finds_of_puts {members : List (String × Json)} {last : Partial}
    (h : (shape room (Json.Tree.readList room (ofTree (room - 1)))).Puts members
      ⟨"", "", false, none, none⟩ last)
    (fits : (shape room (Json.Tree.readList room (ofTree (room - 1)))).Fits
      (members.map Prod.fst)) :
    Json.Finds (ofTree (room + 1)) (.object members) last.complete := by
  intro tree hspells
  rw [ofTree_succ, Json.Shape.finds h fits (Nat.succ_ne_zero room) tree hspells]
  rfl

/-- A field without children is found in its JSON form if its annotations are. -/
theorem finds_leaf
    (hannotations : Json.Finds (Json.Tree.readOptional (Json.Tree.readStrings room))
      ((annotations.map Json.ofStrings).getD .null) annotations) :
    Json.Finds (ofTree (room + 1)) (toJson (.mk name type nullable annotations none))
      (.mk name type nullable (annotations.filter fun entries => !entries.isEmpty) none) :=
  finds_of_puts (puts_members hannotations .nil) fits_leaf

/-- A field with children is found in its JSON form if its annotations and its children are. -/
theorem finds_struct {children result : List FieldDescription}
    (hannotations : Json.Finds (Json.Tree.readOptional (Json.Tree.readStrings room))
      ((annotations.map Json.ofStrings).getD .null) annotations)
    (hchildren : Json.Finds (Json.Tree.readList room (ofTree (room - 1)))
      (.array (listJson children)) result) :
    Json.Finds (ofTree (room + 1)) (toJson (.mk name type nullable annotations (some children)))
      (.mk name type nullable (annotations.filter fun entries => !entries.isEmpty)
        (some result)) :=
  finds_of_puts (puts_members hannotations (puts_children hchildren _)) fits_struct

end Members

/-- The JSON form of a field that is not nested too deep is read as the field, save for empty
annotations. -/
theorem finds_toJson (description : FieldDescription) :
    ∀ room, description.SortedAnnotations → description.toJson.depth ≤ room →
      Json.Finds (ofTree room) description.toJson description.withoutEmptyAnnotations := by
  induction description using children_induction with
  | leaf name type nullable annotations =>
    rintro (_ | room) ⟨sorted⟩ depth
    · exact absurd depth (Nat.not_succ_le_zero _)
    have hdepths := (Json.memberDepth_le_iff _ _).mp (Nat.le_of_succ_le_succ depth)
    exact finds_leaf <| finds_annotations sorted <|
      hdepths ("metadata", (annotations.map Json.ofStrings).getD .null) (by simp)
  | struct name type nullable annotations children ih =>
    rintro (_ | room) (_ | ⟨sorted, below⟩) depth
    · exact absurd depth (Nat.not_succ_le_zero _)
    have hdepths := (Json.memberDepth_le_iff _ _).mp (Nat.le_of_succ_le_succ depth)
    have hannotations := finds_annotations sorted
      (hdepths ("metadata", (annotations.map Json.ofStrings).getD .null) (by simp))
    have hlist := hdepths ("children", .array (listJson children)) (by simp [childrenJson])
    have hchildren := finds_children
      (fun child hchild => ih child hchild (room - 1) (below child hchild)) hlist
    exact finds_struct hannotations hchildren

end FieldDescription

/-! ## Reading schemas and stores -/

/-- A schema has the members that are wanted. -/
theorem SchemaDescription.fits_shape (room : Nat) : (shape room).Fits ["type", "children"] :=
  ⟨by decide, by simp [shape], by simp [shape]⟩

/-- A schema description is found when its children are. -/
theorem SchemaDescription.finds_of_children {room : Nat} (hroom : room ≠ 0) {kind : String}
    {children result : List FieldDescription}
    (h : Json.Finds (Json.Tree.readList (room - 1) (FieldDescription.ofTree (room - 1 - 1)))
      (.array (FieldDescription.listJson children)) result) :
    Json.Finds (ofTree room) (toJson ⟨kind, children⟩) ⟨kind, result⟩ := by
  have hputs : (shape (room - 1)).Puts
      [("type", .string kind), ("children", .array (FieldDescription.listJson children))]
      ⟨"", []⟩ ⟨kind, result⟩ :=
    .cons ((Json.finds_string _).map _) (.cons (h.map _) .nil)
  exact Json.Shape.finds hputs (fits_shape _) hroom

/-- The JSON form of a schema description that is not nested too deep is read as the description,
save for empty annotations. -/
theorem SchemaDescription.finds_toJson {description : SchemaDescription} {room : Nat}
    (sorted : description.SortedAnnotations) (depth : description.toJson.depth ≤ room) :
    Json.Finds (ofTree room) description.toJson description.withoutEmptyAnnotations := by
  have hdepths := (Json.memberDepth_le_iff _ (room - 1)).mp (Nat.le_sub_one_of_lt depth)
  exact finds_of_children (Nat.ne_zero_of_lt depth) <| FieldDescription.finds_children
    (fun child hchild => FieldDescription.finds_toJson child _ (sorted child hchild))
    (hdepths ("children", .array (FieldDescription.listJson description.children)) (by simp))

/-- A policy is found in its name. -/
theorem DuplicatePolicy.finds_text (policy : DuplicatePolicy) (room : Nat) :
    Json.Finds (ofTree room) (.string policy.text) policy := by
  rintro tree ⟨⟩
  next token h =>
  rw [ofTree, ofName, h, ok_bind, ofText?_text]
  rfl

namespace StoreConfig

/-- A store has the members that are wanted. -/
theorem fits_shape (room : Nat) : (shape room).Fits
    ["database", "table_name", "metadata_schema", "embedding_dims", "duplicate_policy"] :=
  ⟨by decide, by simp [shape], by simp [shape]⟩

/-- A store description is found when its metadata schema is. -/
theorem finds_of_metadataSchema {config : StoreConfig} {room : Nat} (hroom : room ≠ 0)
    {result : Option SchemaDescription}
    (h : Json.Finds (Json.Tree.readOptional (SchemaDescription.ofTree (room - 1)))
      ((config.metadataSchema.map SchemaDescription.toJson).getD .null) result) :
    Json.Finds (ofTree room) config.toJson { config with metadataSchema := result } := by
  have hwidth := Json.finds_optional config.width (fun width _ => Json.noConfusion)
    fun width _ => Json.finds_int64 width
  rw [Option.map_id'] at hwidth
  have hputs : (shape (room - 1)).Puts
      [("database", .string config.database), ("table_name", .string config.tableName),
        ("metadata_schema", (config.metadataSchema.map SchemaDescription.toJson).getD .null),
        ("embedding_dims", (config.width.map Json.ofInt64).getD .null),
        ("duplicate_policy", .string config.policy.text)]
      ⟨"", "", none, none, .unset⟩ { config with metadataSchema := result } :=
    .cons ((Json.finds_string _).map _) <|
    .cons ((Json.finds_string _).map _) <|
    .cons (h.map _) <|
    .cons (hwidth.map _) <|
    .cons ((DuplicatePolicy.finds_text _ _).map _) .nil
  exact Json.Shape.finds hputs (fits_shape _) hroom

/-- The JSON form of a store description that is not nested too deep is read as the description,
save for empty annotations. -/
theorem finds_toJson {config : StoreConfig} {room : Nat} (sorted : config.SortedAnnotations)
    (depth : config.toJson.depth ≤ room) :
    Json.Finds (ofTree room) config.toJson config.withoutEmptyAnnotations := by
  have hdepths := (Json.memberDepth_le_iff _ (room - 1)).mp (Nat.le_sub_one_of_lt depth)
  have hdepth := hdepths ("metadata_schema",
    (config.metadataSchema.map SchemaDescription.toJson).getD .null) (by simp)
  refine finds_of_metadataSchema (Nat.ne_zero_of_lt depth) <| Json.finds_optional _
    (fun description _ => Json.noConfusion) fun description hdescription => ?_
  rw [hdescription] at hdepth
  exact SchemaDescription.finds_toJson (sorted description hdescription) hdepth

/-- What the text of a store description that is not nested too deep is read as. -/
theorem parse_text_eq {config : StoreConfig} (sorted : config.SortedAnnotations)
    (depth : config.toJson.depth ≤ Json.depthLimit) :
    parse config.text =
      if config.tableName = "" then .error (.configuration .emptyTableName)
      else .ok config.withoutEmptyAnnotations := by
  unfold parse text
  rw [Json.readText_of_finds (finds_toJson sorted depth)]
  rfl

end StoreConfig

end DocumentStore
