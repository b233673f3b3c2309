import DocumentStore.Proofs.NamedValues
import DocumentStore.Proofs.Outcome
import DocumentStore.Schema.Table

/-!
# Levels with flags

A level of fields is flagged when its names are distinct and one of its fields is a struct with a
boolean for each of the others. Canonical metadata is flagged at every level, and so it stays when
the columns of a table and the members of its structs are put in another order; whatever is proved
of flagged levels therefore holds of new tables and of tables that an engine has rearranged.
-/

set_option autoImplicit false

namespace DocumentStore

/-! ## Induction over types -/

section Induction

variable {P : DataType → Prop}

mutual

/-- A property of types holds of all of them when it holds of the leaves, and of a struct whenever
it holds of the types of its fields. -/
theorem DataType.struct_induction (leaf : ∀ type : DataType, type.members? = none → P type)
    (struct : ∀ fields : List Field, (∀ field ∈ fields, P field.type) → P (.struct fields)) :
    ∀ type : DataType, P type
  | .struct fields => struct fields (Field.struct_induction leaf struct fields)
  | .null | .boolean | .int16 | .int32 | .int64 | .uint32 | .float32 | .float64 | .utf8
  | .largeUtf8 | .binary | .largeBinary | .date32 | .timestamp _ _ | .list _
  | .fixedSizeList _ _ => leaf _ rfl

/-- The induction over types, for a list of fields. -/
theorem Field.struct_induction (leaf : ∀ type : DataType, type.members? = none → P type)
    (struct : ∀ fields : List Field, (∀ field ∈ fields, P field.type) → P (.struct fields)) :
    ∀ fields : List (FieldOf DataType), ∀ field ∈ fields, P field.type
  | [], _, h => absurd h List.not_mem_nil
  | ⟨_, type, _, _⟩ :: rest, field, h => by
    rcases List.mem_cons.mp h with rfl | h
    · exact DataType.struct_induction leaf struct type
    · exact Field.struct_induction leaf struct rest field h

end

end Induction

/-! ## Flagged levels -/

/-- The fields of a level besides its flags. -/
def Field.declared (fields : List Field) : List Field :=
  fields.filter fun field => field.name ≠ Column.flags

/-- A flag for each of the given fields. -/
def Field.flagsOf (fields : List Field) : List Field :=
  fields.map fun field => .plain field.name .boolean false

/-- A level of fields with distinct names, one of which is a struct of flags for the others. -/
structure Field.HasFlags (fields : List Field) : Prop where
  nodup : (fields.map FieldOf.name).Nodup
  flags : ∃ flags annotations,
    (⟨Column.flags, .struct flags, false, annotations⟩ : Field) ∈ fields ∧
      flags.Perm (Field.flagsOf (Field.declared fields))

/-- A type whose levels are all flagged, the flags themselves apart, and whose leaves are such as
metadata may have. -/
inductive DataType.Flagged : DataType → Prop
  | leaf {type : DataType} (h : type.isMetadataLeaf = true) : Flagged type
  | struct {fields : List Field} (level : Field.HasFlags fields)
      (below : ∀ field ∈ fields, field.name ≠ Column.flags → Flagged field.type) :
      Flagged (.struct fields)

namespace Field

/-- What is declared are the fields besides the flags. -/
theorem mem_declared {fields : List Field} {field : Field} :
    field ∈ declared fields ↔ field ∈ fields ∧ field.name ≠ Column.flags := by
  unfold declared
  rw [List.mem_filter, decide_eq_true_eq]

/-- Declared fields have distinct names if all fields have. -/
theorem nodup_declared {fields : List Field} (nodup : (fields.map FieldOf.name).Nodup) :
    ((declared fields).map FieldOf.name).Nodup :=
  nodup.sublist (List.filter_sublist.map FieldOf.name)

/-- The flags are not declared. -/
theorem flags_not_mem_declared (fields : List Field) :
    Column.flags ∉ (declared fields).map FieldOf.name := by
  intro h
  obtain ⟨field, hfield, hname⟩ := List.mem_map.mp h
  exact (mem_declared.mp hfield).2 hname

/-- Where there are no flags, everything is declared. -/
theorem declared_eq_self {fields : List Field} (h : ∀ field ∈ fields, field.name ≠ Column.flags) :
    declared fields = fields := by
  unfold declared
  rw [List.filter_eq_self]
  intro field hfield
  exact decide_eq_true (h field hfield)

/-- Where names are distinct, a name tells its field. -/
theorem eq_of_name_eq {fields : List Field} (nodup : (fields.map FieldOf.name).Nodup)
    {left right : Field} (hl : left ∈ fields) (hr : right ∈ fields)
    (h : left.name = right.name) : left = right :=
  List.inj_on_of_nodup_map nodup hl hr h

end Field

/-! ## Canonical metadata is flagged -/

namespace Schema

/-- An insertion by name only moves the field. -/
theorem insertByName_perm (field : Field) (fields : List Field) :
    (insertByName field fields).Perm (field :: fields) := by
  induction fields with
  | nil => exact List.Perm.refl _
  | cons next rest ih =>
    rw [insertByName]
    split
    · exact List.Perm.refl _
    · exact (ih.cons next).trans (List.Perm.swap field next rest)

/-- Sorting by name only moves the fields. -/
theorem sortByName_perm (fields : List Field) : (sortByName fields).Perm fields := by
  induction fields with
  | nil => exact List.Perm.refl _
  | cons field rest ih =>
    exact (insertByName_perm field (sortByName rest)).trans (ih.cons field)

/-- What canonicalisation keeps of a field, and what becomes of its type. -/
structure CanonicalOf (path : String) (field canonical : Field) : Prop where
  name_eq : canonical.name = field.name
  nullable_eq : canonical.nullable = field.nullable
  annotations_eq : canonical.annotations = field.annotations
  type_eq : canonicalType (path ++ "." ++ field.name) field.type = .ok canonical.type

/-- Fields that have a canonical form keep their order in it; their names are distinct, not
reserved and not empty. -/
theorem canonicalFields_eq_ok {path : String} {fields canonical : List Field} {seen : List String}
    (h : canonicalFields path seen fields = .ok canonical) :
    List.Forall₂ (CanonicalOf path) fields canonical ∧ (fields.map FieldOf.name).Nodup ∧
      ∀ field ∈ fields, field.name ≠ Column.flags ∧ field.name ≠ "" ∧ field.name ∉ seen := by
  induction fields generalizing seen canonical with
  | nil =>
    cases h
    exact ⟨.nil, List.nodup_nil, fun field hf => absurd hf List.not_mem_nil⟩
  | cons field rest ih =>
    obtain ⟨name, type, nullable, annotations⟩ := field
    rw [canonicalFields] at h
    split at h
    · cases h
    next hflags =>
    split at h
    · cases h
    next hempty =>
    split at h
    · cases h
    next hseen =>
    obtain ⟨type', htype, h⟩ := (bind_eq_ok_iff _ _ _).mp h
    obtain ⟨others, hothers, h⟩ := (bind_eq_ok_iff _ _ _).mp h
    cases h
    obtain ⟨hrest, hnodup, hnames⟩ := ih hothers
    refine ⟨.cons ⟨rfl, rfl, rfl, htype⟩ hrest, ?_, ?_⟩
    · rw [List.map_cons, List.nodup_cons]
      refine ⟨?_, hnodup⟩
      intro hmem
      obtain ⟨other, hother, hname⟩ := List.mem_map.mp hmem
      exact (hnames other hother).2.2 (hname ▸ List.mem_cons_self ..)
    · intro other hother
      rcases List.mem_cons.mp hother with rfl | hother
      · exact ⟨hflags, hempty, hseen⟩
      · obtain ⟨h₁, h₂, h₃⟩ := hnames other hother
        exact ⟨h₁, h₂, fun h => h₃ (List.mem_cons_of_mem _ h)⟩

/-- Canonical forms keep the names of their fields. -/
theorem names_eq_of_canonicalOf {path : String} {fields canonical : List Field}
    (h : List.Forall₂ (CanonicalOf path) fields canonical) :
    canonical.map FieldOf.name = fields.map FieldOf.name := by
  induction h with
  | nil => rfl
  | cons hfield _ ih => rw [List.map_cons, List.map_cons, hfield.name_eq, ih]

/-- The fields of a canonical level, its flags apart, are those it was made of in some order. -/
theorem declared_canonicalLevel {fields : List Field}
    (h : ∀ field ∈ fields, field.name ≠ Column.flags) :
    Field.declared (canonicalLevel fields) = sortByName fields := by
  have hsorted : ∀ field ∈ sortByName fields, field.name ≠ Column.flags :=
    fun field hf => h field ((sortByName_perm fields).mem_iff.mp hf)
  unfold canonicalLevel
  rw [Field.declared, List.filter_cons_of_neg (by simp [flagsField, FieldOf.plain])]
  exact Field.declared_eq_self hsorted

/-- A canonical level has its flags. -/
theorem hasFlags_canonicalLevel {fields : List Field}
    (h : ∀ field ∈ fields, field.name ≠ Column.flags) (nodup : (fields.map FieldOf.name).Nodup) :
    Field.HasFlags (canonicalLevel fields) := by
  have hperm := sortByName_perm fields
  constructor
  · unfold canonicalLevel
    rw [List.map_cons, List.nodup_cons]
    refine ⟨?_, (hperm.map FieldOf.name).nodup_iff.mpr nodup⟩
    intro hmem
    obtain ⟨field, hfield, hname⟩ := List.mem_map.mp hmem
    exact h field (hperm.mem_iff.mp hfield) hname
  · rw [declared_canonicalLevel h]
    refine ⟨_, Dict.empty, List.mem_cons_self .., ?_⟩
    unfold Field.flagsOf
    rw [List.map_map]
    exact List.Perm.refl _

/-- A leaf has a canonical type when metadata may be declared with it, and then it is its own. -/
theorem canonicalType_leaf {type : DataType} (leaf : type.members? = none) (path : String) :
    canonicalType path type =
      if type.isMetadataLeaf then .ok type
      else .error (.configuration (.unsupportedMetadataType type path)) := by
  cases type <;> first | rfl | cases leaf

/-- Canonical types are flagged at every level. -/
theorem flagged_canonicalType (type : DataType) :
    ∀ (path : String) (canonical : DataType), canonicalType path type = .ok canonical →
      canonical.Flagged := by
  induction type using DataType.struct_induction with
  | leaf type leaf =>
    intro path canonical h
    rw [canonicalType_leaf leaf] at h
    split at h
    · next htype =>
      cases h
      exact .leaf htype
    · cases h
  | struct fields ih =>
    intro path canonical h
    rw [canonicalType] at h
    obtain ⟨children, hchildren, h⟩ := (bind_eq_ok_iff _ _ _).mp h
    cases h
    obtain ⟨hall, hnodup, hnames⟩ := canonicalFields_eq_ok hchildren
    have hsame := names_eq_of_canonicalOf hall
    have hchild : ∀ child ∈ children, ∃ field ∈ fields, CanonicalOf path field child := by
      intro child hc
      obtain ⟨field, hfield, hcan⟩ := exists_related hall.flip hc
      exact ⟨field, hfield, hcan⟩
    have hflags : ∀ child ∈ children, child.name ≠ Column.flags := by
      intro child hc
      obtain ⟨field, hfield, hcan⟩ := hchild child hc
      rw [hcan.name_eq]
      exact (hnames field hfield).1
    refine .struct (hasFlags_canonicalLevel hflags (hsame ▸ hnodup)) ?_
    intro child hc hne
    have hc' : child ∈ Field.declared (canonicalLevel children) := Field.mem_declared.mpr ⟨hc, hne⟩
    rw [declared_canonicalLevel hflags] at hc'
    obtain ⟨field, hfield, hcan⟩ := hchild child ((sortByName_perm children).mem_iff.mp hc')
    exact ih field hfield _ _ hcan.type_eq

end Schema

end DocumentStore
