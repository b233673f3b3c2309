import DocumentStore.Proofs.StoredValues

/-!
# Paths of declared fields

A declared field is reached by the names of the structs around it and its own. On the side of the
document the path is walked through maps, on the side of the row through structs, where the flag of
the field stands beside it. What is found there tells whether the document has a value that is not
null: the flag when the field is absent, the null when it is declared to be null, and a null in
place of both when the null stands further up.
-/

set_option autoImplicit false

namespace DocumentStore

/-- The names lead to a declared field of the type, at any depth. -/
inductive DataType.Declares : DataType → List String → Prop
  | here {fields : List Field} {field : Field} (h : field ∈ Field.declared fields) :
      Declares (.struct fields) [field.name]
  | inside {fields : List Field} {field : Field} {names : List String}
      (h : field ∈ Field.declared fields) (inner : Declares field.type names) :
      Declares (.struct fields) (field.name :: names)

/-- The first name is that of a declared field of a struct, and the others lead on inside it. -/
theorem DataType.Declares.exists_field {type : DataType} {name : String} {names : List String}
    (h : type.Declares (name :: names)) :
    ∃ fields field, type = .struct fields ∧ field ∈ Field.declared fields ∧ field.name = name ∧
      (names = [] ∨ field.type.Declares names) := by
  cases h with
  | here h => exact ⟨_, _, rfl, h, rfl, Or.inl rfl⟩
  | inside h inner => exact ⟨_, _, rfl, h, rfl, Or.inr inner⟩

/-- The empty path declares nothing. -/
theorem DataType.not_declares_nil (type : DataType) : ¬ type.Declares [] := by
  intro h
  cases h

/-- Only structs declare paths. -/
theorem DataType.Declares.exists_fields {type : DataType} {names : List String}
    (h : type.Declares names) : ∃ fields, type = .struct fields := by
  cases h with
  | here => exact ⟨_, rfl⟩
  | inside => exact ⟨_, rfl⟩

namespace MetaValue

/-- Whether a value is null. -/
def isNull : MetaValue → Bool
  | .null => true
  | _ => false

/-- The value that some keys lead to. -/
def at? : MetaValue → List String → Option MetaValue
  | value, [] => some value
  | .map entries, name :: rest =>
    match entries.get? name with
    | some value => value.at? rest
    | none => none
  | _, _ :: _ => none

/-- Whether some keys lead to a value that is not null. -/
def hasAt (value : Option MetaValue) (names : List String) : Bool :=
  match value.bind fun held => held.at? names with
  | some found => !found.isNull
  | none => false

/-- A level is walked through by the value of the first key. -/
theorem bind_at?_cons (entries : Option Metadata) (field : Field) (names : List String) :
    ((entries.map .map).bind fun value => at? value (field.name :: names)) =
      (Metadata.valueIn entries field).bind fun value => value.at? names := by
  cases entries with
  | none => rfl
  | some entries =>
    simp only [Metadata.valueIn, Option.map_some, Option.bind_some, at?]
    cases entries.get? field.name <;> rfl

/-- There is a value at a path when there is one at the rest of it, below the first field. -/
theorem hasAt_cons (entries : Option Metadata) (field : Field) (names : List String) :
    hasAt (entries.map .map) (field.name :: names) =
      hasAt (Metadata.valueIn entries field) names := by
  simp only [hasAt, bind_at?_cons]

/-- Keys that lead on from where others lead to. -/
theorem at?_append (value : MetaValue) (names rest : List String) :
    value.at? (names ++ rest) = (value.at? names).bind fun held => held.at? rest := by
  induction names generalizing value with
  | nil => cases rest <;> rfl
  | cons name names ih =>
    cases value with
    | map entries =>
      simp only [List.cons_append, at?]
      cases entries.get? name with
      | none => rfl
      | some held => exact ih held
    | _ => rfl

end MetaValue

/-! ## Nulls -/

/-- Only null is stored as null. -/
theorem Cell.Encodes.isNull_eq {type : DataType} {nullable : Bool} {value : MetaValue} {cell : Cell}
    (h : Cell.Encodes type nullable value cell) : cell.isNull = value.isNull := by
  cases h <;> rfl

/-- A stored value is null when the value is. -/
theorem Stored.isNull_eq {type : DataType} {nullable : Bool} {value? : Option MetaValue}
    {cell : Cell} (h : Stored type nullable value? cell) {value : MetaValue}
    (hvalue : value? = some value) : cell.isNull = value.isNull := by
  cases h with
  | leaf _ h =>
    cases hvalue
    exact h.isNull_eq
  | absentLeaf => cases hvalue
  | null =>
    cases hvalue
    rfl
  | @struct _ _ entries =>
    cases entries with
    | none => cases hvalue
    | some entries =>
      cases hvalue
      rfl

/-! ## Flags beside values -/

/-- A flag and the value beside it, for a field in which the document has a value or not. -/
inductive Marked : Cell → Cell → Bool → Prop
  | there {stored : Cell} (h : stored.isNull = false) : Marked (.boolean false) stored true
  | declaredNull {stored : Cell} (h : stored.isNull = true) : Marked (.boolean false) stored false
  | absent {stored : Cell} : Marked (.boolean true) stored false
  | belowNull : Marked .null .null false

/-- Within a struct, a path is looked up in its record. -/
theorem Cell.path?_struct (record : Row) (names : List String) (h : names ≠ []) :
    (Cell.struct record).path? names = Row.path? record names := by
  cases names with
  | nil => exact absurd rfl h
  | cons name rest => rfl

/-- A path goes on in the cell under its first name. -/
theorem Row.path?_cons {record : Row} {name : String} {cell : Cell}
    (h : record.get? name = some cell) (names : List String) :
    Row.path? record (name :: names) = cell.path? names := by
  rw [Row.path?, h]

/-- A flag is the cell at the path of its name below the flags. -/
theorem Row.path?_flag {record : Row} {name : String} {b : Bool} (h : record.flag? name = some b) :
    Row.path? record [Column.flags, name] = some (.boolean b) := by
  unfold Row.flag? at h
  simp only [Option.bind_eq_bind, Option.bind_eq_some_iff] at h
  obtain ⟨flags, hflags, members, hmembers, flag, hflag, hb⟩ := h
  rw [Row.path?_cons hflags]
  cases flags with
  | struct held =>
    cases hmembers
    cases flag with
    | boolean b' =>
      cases hb
      rw [Cell.path?_struct _ _ (List.cons_ne_nil _ _), Row.path?_cons hflag]
      rfl
    | _ => cases hb
  | _ => cases hmembers

/-- Wherever a declared field is stored, its flag and its value tell whether the document has it. -/
theorem Stored.exists_marked {type : DataType} {nullable : Bool} {value? : Option MetaValue}
    {cell : Cell} (h : Stored type nullable value? cell) :
    ∀ structs leaf, type.Declares (structs ++ [leaf]) →
      ∃ flag stored, cell.path? (structs ++ [Column.flags, leaf]) = some flag ∧
        cell.path? (structs ++ [leaf]) = some stored ∧
        Marked flag stored (MetaValue.hasAt value? (structs ++ [leaf])) := by
  induction h with
  | leaf leaf _ =>
    intro structs name declares
    obtain ⟨fields, rfl⟩ := declares.exists_fields
    cases leaf
  | absentLeaf leaf _ =>
    intro structs name declares
    obtain ⟨fields, rfl⟩ := declares.exists_fields
    cases leaf
  | null =>
    intro structs leaf _
    refine ⟨.null, .null, ?_, ?_, ?_⟩
    · cases structs <;> rfl
    · cases structs <;> rfl
    · cases structs <;> exact .belowNull
  | @struct fields nullable entries record level flag there below ih =>
    intro structs leaf declares
    cases structs with
    | nil =>
      obtain ⟨_, field, hfields, hfield, rfl, -⟩ := declares.exists_field
      cases hfields
      obtain ⟨stored, hstored⟩ := there field hfield
      refine ⟨_, stored, Row.path?_flag (flag field hfield), ?_, ?_⟩
      · rw [List.nil_append, Cell.path?_struct _ _ (List.cons_ne_nil _ _), Row.path?_cons hstored]
        cases stored <;> rfl
      · rw [List.nil_append, MetaValue.hasAt_cons]
        have hbelow := below field hfield stored hstored
        cases hvalue : Metadata.valueIn entries field with
        | none => exact .absent
        | some value =>
          rw [hvalue] at hbelow
          have hnull := hbelow.isNull_eq rfl
          show Marked (.boolean false) stored (!value.isNull)
          cases hv : value.isNull with
          | true => exact .declaredNull (hnull.trans hv)
          | false => exact .there (hnull.trans hv)
    | cons name structs =>
      obtain ⟨_, field, hfields, hfield, rfl, hnames⟩ := declares.exists_field
      cases hfields
      have inner : field.type.Declares (structs ++ [leaf]) := by
        rcases hnames with hnil | inner
        · cases structs <;> cases hnil
        · exact inner
      obtain ⟨cell, hcell⟩ := there field hfield
      obtain ⟨flag, stored, hflag, hstored, hmarked⟩ :=
        ih field hfield cell hcell structs leaf inner
      have hstep : ∀ names,
          (Cell.struct record).path? (field.name :: names) = cell.path? names := by
        intro names
        rw [Cell.path?_struct _ _ (List.cons_ne_nil _ _), Row.path?_cons hcell]
      refine ⟨flag, stored, ?_, ?_, ?_⟩
      · rw [List.cons_append, hstep]
        exact hflag
      · rw [List.cons_append, hstep]
        exact hstored
      · rw [List.cons_append, MetaValue.hasAt_cons]
        exact hmarked

/-! ## Declared paths and canonical fields -/

/-- Each declared field has its canonical form among the declared fields of the canonical level. -/
theorem Schema.exists_declared_canonicalLevel {path : String} {fields children : List Field}
    (h : Schema.canonicalFields path [] fields = .ok children) {field : Field}
    (hfield : field ∈ fields) :
    ∃ child ∈ Field.declared (Schema.canonicalLevel children), Schema.CanonicalOf path field child := by
  obtain ⟨hall, -, hnames⟩ := Schema.canonicalFields_eq_ok h
  have hflags : ∀ child ∈ children, child.name ≠ Column.flags := by
    intro child hchild
    obtain ⟨field, hfield, hcanonical⟩ := exists_related hall.flip hchild
    rw [hcanonical.name_eq]
    exact (hnames field hfield).1
  obtain ⟨child, hchild, hcanonical⟩ := exists_related hall hfield
  rw [Schema.declared_canonicalLevel hflags]
  exact ⟨child, (Schema.sortByName_perm children).mem_iff.mpr hchild, hcanonical⟩

/-- Names are kept by the canonical form of a type; none of them is reserved or empty. -/
theorem DataType.declares_canonicalType (type : DataType) :
    ∀ path canonical, Schema.canonicalType path type = .ok canonical →
      ∀ names, type.Declares names → canonical.Declares names ∧
        ∀ name ∈ names, name ≠ Column.flags ∧ name ≠ "" := by
  induction type using DataType.struct_induction with
  | leaf type leaf =>
    intro path canonical _ names declares
    obtain ⟨fields, rfl⟩ := declares.exists_fields
    cases leaf
  | struct fields ih =>
    intro path canonical h names declares
    rw [Schema.canonicalType] at h
    obtain ⟨children, hchildren, h⟩ := (bind_eq_ok_iff _ _ _).mp h
    cases h
    obtain ⟨-, -, hnames⟩ := Schema.canonicalFields_eq_ok hchildren
    cases declares with
    | @here _ field hfield =>
      have hmem := (Field.mem_declared.mp hfield).1
      obtain ⟨child, hmember, hcanonical⟩ := Schema.exists_declared_canonicalLevel hchildren hmem
      constructor
      · rw [← hcanonical.name_eq]
        exact .here hmember
      · intro name hname
        rw [List.mem_singleton.mp hname]
        exact ⟨(hnames field hmem).1, (hnames field hmem).2.1⟩
    | @inside _ field names hfield inner =>
      have hmem := (Field.mem_declared.mp hfield).1
      obtain ⟨child, hmember, hcanonical⟩ := Schema.exists_declared_canonicalLevel hchildren hmem
      obtain ⟨hinner, hrest⟩ := ih field hmem _ _ hcanonical.type_eq names inner
      constructor
      · rw [← hcanonical.name_eq]
        exact .inside hmember hinner
      · intro name hname
        rcases List.mem_cons.mp hname with rfl | hname
        · exact ⟨(hnames field hmem).1, (hnames field hmem).2.1⟩
        · exact hrest name hname

end DocumentStore
