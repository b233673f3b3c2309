import DocumentStore.Proofs.FilterFields

/-!
# Stored values of declared leaves

Where a document has a value under the names of a declared leaf, the row has under the same names
what the type of the leaf makes of that value. The type is the declared one, since the canonical form
of the fields changes their order and adds flags but leaves the types of leaves alone.
-/

set_option autoImplicit false

namespace DocumentStore

/-- The names lead to a declared field, at any depth, and the last type is that of the field. -/
inductive DataType.DeclaresAs : DataType → List String → DataType → Prop
  | here {fields : List Field} {field : Field} (h : field ∈ Field.declared fields) :
      DeclaresAs (.struct fields) [field.name] field.type
  | inside {fields : List Field} {field : Field} {names : List String} {leaf : DataType}
      (h : field ∈ Field.declared fields) (inner : DeclaresAs field.type names leaf) :
      DeclaresAs (.struct fields) (field.name :: names) leaf

namespace DataType

variable {type leaf : DataType} {names : List String}

/-- A single field is declared under its name. -/
theorem declaresAs_plain {name : String} (hname : name ≠ Column.flags) (type : DataType)
    (nullable : Bool) : (struct [.plain name type nullable]).DeclaresAs [name] type :=
  .here (Field.mem_declared.mpr ⟨List.mem_singleton_self _, hname⟩)

/-- A path to a leaf is a declared path. -/
theorem DeclaresAs.declares (h : type.DeclaresAs names leaf) : type.Declares names := by
  induction h with
  | here h => exact .here h
  | inside h _ ih => exact .inside h ih

/-- A leaf is declared with the same type in the canonical form, and may be stored with it. -/
theorem DeclaresAs.canonicalType (h : type.DeclaresAs names leaf) (hleaf : leaf.members? = none) :
    ∀ path canonical, Schema.canonicalType path type = .ok canonical →
      canonical.DeclaresAs names leaf ∧ leaf.isMetadataLeaf = true := by
  induction h with
  | @here fields field hfield =>
    intro path canonical h
    rw [Schema.canonicalType] at h
    obtain ⟨children, hchildren, h⟩ := (bind_eq_ok_iff _ _ _).mp h
    cases h
    obtain ⟨child, hmember, hcanonical⟩ :=
      Schema.exists_declared_canonicalLevel hchildren (Field.mem_declared.mp hfield).1
    have htype := hcanonical.type_eq
    rw [Schema.canonicalType_leaf hleaf] at htype
    split at htype
    · next hmetadata =>
      rw [Except.ok.injEq] at htype
      refine ⟨?_, hmetadata⟩
      rw [← hcanonical.name_eq, htype]
      exact .here hmember
    · cases htype
  | @inside fields field names leaf hfield _ ih =>
    intro path canonical h
    rw [Schema.canonicalType] at h
    obtain ⟨children, hchildren, h⟩ := (bind_eq_ok_iff _ _ _).mp h
    cases h
    obtain ⟨child, hmember, hcanonical⟩ :=
      Schema.exists_declared_canonicalLevel hchildren (Field.mem_declared.mp hfield).1
    obtain ⟨hinner, hmetadata⟩ := ih hleaf _ _ hcanonical.type_eq
    refine ⟨?_, hmetadata⟩
    rw [← hcanonical.name_eq]
    exact .inside hmember hinner

end DataType

/-- A value of a leaf that is not null is stored as its encoding. -/
theorem Stored.encodes_of_leaf {type : DataType} {nullable : Bool} {value : MetaValue} {cell : Cell}
    (h : Stored type nullable (some value) cell) (leaf : type.isMetadataLeaf = true) :
    Cell.Encodes type nullable value cell := by
  generalize hvalue : some value = value? at h
  cases h with
  | leaf _ h =>
    cases hvalue
    exact h
  | absentLeaf => cases hvalue
  | null | struct => cases leaf

/-- What the names of a leaf lead to in the cell is the encoding of what they lead to in the value. -/
theorem Stored.exists_encoded {type leaf : DataType} {nullable : Bool} {value? : Option MetaValue}
    {cell : Cell} (h : Stored type nullable value? cell) {names : List String}
    (declares : type.DeclaresAs names leaf) (hleaf : leaf.isMetadataLeaf = true) {value : MetaValue}
    (hvalue : (value?.bind fun held => held.at? names) = some value) :
    ∃ nullable stored, cell.path? names = some stored ∧
      Cell.Encodes leaf nullable value stored := by
  induction declares generalizing nullable value? cell with
  | @here fields field hfield =>
    cases h with
    | leaf leaf | absentLeaf leaf => cases leaf
    | null => cases hvalue
    | @struct _ _ entries record _ _ there below =>
      obtain ⟨stored, hstored⟩ := there field hfield
      have hbelow := below field hfield stored hstored
      rw [MetaValue.bind_at?_cons] at hvalue
      obtain ⟨held, hheld, hvalue⟩ := Option.bind_eq_some_iff.mp hvalue
      cases hvalue
      rw [hheld] at hbelow
      refine ⟨field.nullable, stored, ?_, hbelow.encodes_of_leaf hleaf⟩
      rw [Cell.path?_struct _ _ (List.cons_ne_nil _ _), Row.path?_cons hstored]
      cases stored <;> rfl
  | @inside fields field names leaf hfield _ ih =>
    cases h with
    | leaf leaf | absentLeaf leaf => cases leaf
    | null => cases hvalue
    | @struct _ _ entries record _ _ there below =>
      obtain ⟨stored, hstored⟩ := there field hfield
      rw [MetaValue.bind_at?_cons] at hvalue
      rw [Cell.path?_struct _ _ (List.cons_ne_nil _ _), Row.path?_cons hstored]
      exact ih (below field hfield stored hstored) hleaf hvalue

namespace DocumentField

variable {document : Document} {row : Row} {fields : List Field} {width : Int64} {schema : Schema}
  {names : List String} {leaf : DataType}

/-- In the row of a document in a new table the value of a declared leaf is stored under its names. -/
theorem exists_encoded (hschema : Schema.ofMetadata fields width = .ok schema)
    (hrow : document.toRow schema = .ok row)
    (declared : (DataType.struct fields).DeclaresAs names leaf) (hleaf : leaf.members? = none)
    {value : MetaValue} (hvalue : (MetaValue.map document.metadata).at? names = some value) :
    ∃ nullable stored, Row.path? row (DocumentField.metadata names).names = some stored ∧
      Cell.Encodes leaf nullable value stored := by
  obtain ⟨canonical, hcanonical, table⟩ := Schema.isTable_ofMetadata hschema
  obtain ⟨hdeclared, hmetadata⟩ := declared.canonicalType hleaf _ _ hcanonical
  obtain ⟨cell, hholds, hstored⟩ := (Document.storedIn_toRow table hrow).metadata
  obtain ⟨nullable, stored, hpath, hencodes⟩ := hstored.exists_encoded hdeclared hmetadata hvalue
  refine ⟨nullable, stored, ?_, hencodes⟩
  rw [DocumentField.names, Row.path?, hholds.held cell rfl]
  exact hpath

/-- A declared field without points in its own names is read as its target, whatever the names of
other fields are. -/
theorem parse_text_of_declares (hschema : Schema.ofMetadata fields width = .ok schema)
    (declared : (DataType.struct fields).Declares names)
    (pointFree : ∀ name ∈ names, '.' ∉ name.toList) :
    FilterTarget.parse (DocumentField.metadata names).text =
      .ok (DocumentField.metadata names).target := by
  obtain ⟨canonical, hcanonical, -⟩ := Schema.isTable_ofMetadata hschema
  have hwritable := writable_of_declares hcanonical declared pointFree
  exact (FilterTarget.parse_eq_ok_iff _ _).mpr ⟨_, hwritable, rfl, rfl⟩

end DocumentField

end DocumentStore
