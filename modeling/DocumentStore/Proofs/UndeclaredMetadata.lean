import DocumentStore.Proofs.StoredValues

/-!
# What is not declared leaves no trace

Storing goes through metadata by the declared fields: it asks each level of a document for the keys
of its fields and for no others, and it never asks for a score. So two documents that differ only
there are stored as one row or refused with one error, whatever stands under the other keys. The
name of the flags is never that of a declared field, so a key of that name is passed over like any
other. This holds of every schema, be it the schema of a table or not.
-/

set_option autoImplicit false

namespace DocumentStore

/-- Two values differ at most in what a field of the type does not declare: they are equal, or they
are maps with the same declared keys, under which they differ at most in the same way. -/
inductive MetaValue.DeclaredAlike : DataType → MetaValue → MetaValue → Prop
  | same {type : DataType} {value : MetaValue} : DeclaredAlike type value value
  | map {fields : List Field} {entries entries' : Metadata}
      (keys : ∀ field ∈ Field.declared fields,
        entries.get? field.name = none ↔ entries'.get? field.name = none)
      (held : ∀ field ∈ Field.declared fields, ∀ value value',
        entries.get? field.name = some value → entries'.get? field.name = some value' →
          DeclaredAlike field.type value value') :
      DeclaredAlike (.struct fields) (.map entries) (.map entries')

/-- Two documents differ at most in their scores and in metadata that the schema does not declare.
In a schema without a struct of metadata nothing is declared. -/
structure Document.DeclaredAlike (document other : Document) (schema : Schema) : Prop where
  id : document.id = other.id
  content : document.content = other.content
  embedding : document.embedding = other.embedding
  dataframe : document.dataframe = other.dataframe
  blob : document.blob = other.blob
  metadata : ∀ fields, schema.metadataFields = .ok fields →
    MetaValue.DeclaredAlike (.struct fields) (.map document.metadata) (.map other.metadata)

namespace Document

/-- A level is stored by its declared entries alone: which of them are there, and what is stored for
their values. -/
theorem fieldSlots_congr {fields : List Field} {entries entries' : Metadata}
    (keys : ∀ field ∈ Field.declared fields,
      entries.get? field.name = none ↔ entries'.get? field.name = none)
    (held : ∀ field ∈ Field.declared fields, ∀ value value',
      entries.get? field.name = some value → entries'.get? field.name = some value' →
        ∀ path nullable, storedValue path nullable value field.type =
          storedValue path nullable value' field.type) (path : String) :
    fieldSlots (some entries) path fields = fieldSlots (some entries') path fields := by
  rw [fieldSlots_eq_mapM, fieldSlots_eq_mapM]
  apply mapM_congr_mem
  intro field hfield
  have hslot : fieldSlot (some entries) path field = fieldSlot (some entries') path field := by
    unfold fieldSlot Metadata.valueIn
    simp only [Option.bind_some]
    cases hget : entries.get? field.name with
    | none => rw [(keys field hfield).mp hget]
    | some value =>
      obtain ⟨value', hget'⟩ : ∃ value', entries'.get? field.name = some value' := by
        apply Option.ne_none_iff_exists'.mp
        rw [Ne, ← keys field hfield, hget]
        exact Option.some_ne_none value
      rw [hget']
      dsimp only
      rw [held field hfield value value' hget hget']
  rw [hslot]

/-- What a field does not declare has no part in what is stored for a value. -/
theorem storedValue_declaredAlike {type : DataType} {value value' : MetaValue}
    (h : MetaValue.DeclaredAlike type value value') :
    ∀ path nullable,
      storedValue path nullable value type = storedValue path nullable value' type := by
  induction h with
  | same => exact fun _ _ => rfl
  | map keys _ ih =>
    intro path nullable
    rw [storedValue, storedValue, fieldSlots_congr keys ih path]

/-- Metadata alike in what is declared has the same slots. -/
theorem fieldSlots_declaredAlike {fields : List Field} {entries entries' : Metadata}
    (h : MetaValue.DeclaredAlike (.struct fields) (.map entries) (.map entries')) (path : String) :
    fieldSlots (some entries) path fields = fieldSlots (some entries') path fields := by
  cases h with
  | same => rfl
  | map keys held =>
    apply fieldSlots_congr keys
    intro field hfield value value' hget hget'
    exact storedValue_declaredAlike (held field hfield value value' hget hget')

/-- Documents that differ only in their scores and in undeclared metadata are stored as the same
row, or are refused with the same error. -/
theorem toRow_declaredAlike {document other : Document} {schema : Schema}
    (h : document.DeclaredAlike other schema) : document.toRow schema = other.toRow schema := by
  unfold toRow
  cases schema.width with
  | error e => rfl
  | ok width =>
    rw [ok_bind, ok_bind]
    cases hfields : schema.metadataFields with
    | error e => rfl
    | ok fields =>
      have hmetadata := fieldSlots_declaredAlike (h.metadata fields hfields) Column.metadata
      have hslot : document.rootSlot width fields = other.rootSlot width fields := by
        funext field
        unfold rootSlot vectorSlot
        rw [h.id, h.content, h.embedding, h.dataframe, h.blob, hmetadata]
      rw [ok_bind, ok_bind, h.id, hslot]

/-- A score, keys with the name of the flags, and values that no field of their level could store,
beside and below a declared struct. -/
theorem toRow_declaredAlike_reservedKey :
    ∃ schema, Schema.ofMetadata [.plain "m" (.struct [.plain "a" .int32 false]) true] 1 =
        .ok schema ∧
      (∃ row, (⟨"k", none, none, none, none, ⟨[("m", .map ⟨[("a", .int 1)]⟩)]⟩, none⟩ :
        Document).toRow schema = .ok row) ∧
      (⟨"k", none, none, none, none, ⟨[("m", .map ⟨[("a", .int 1)]⟩)]⟩, none⟩ :
          Document).toRow schema =
        (⟨"k", none, none, none, none, ⟨[("_isempty", .string "x"),
          ("m", .map ⟨[("_isempty", .null), ("a", .int 1), ("b", .map Dict.empty)]⟩)]⟩,
          some Floating.zero⟩ : Document).toRow schema := by
  refine ⟨_, rfl, ⟨_, rfl⟩, toRow_declaredAlike ⟨rfl, rfl, rfl, rfl, rfl, ?_⟩⟩
  intro fields hfields
  have hlevel : Field.declared fields =
      [.plain "m" (.struct (Schema.canonicalLevel [.plain "a" .int32 false])) true] := by
    cases hfields
    rfl
  have hbelow : Field.declared (Schema.canonicalLevel [.plain "a" .int32 false]) =
      [.plain "a" .int32 false] := rfl
  refine .map ?_ ?_
  · rw [hlevel, List.forall_mem_singleton]
    exact iff_of_false (by decide) (by decide)
  · rw [hlevel, List.forall_mem_singleton]
    rintro _ _ ⟨⟩ ⟨⟩
    refine .map ?_ ?_
    · rw [hbelow, List.forall_mem_singleton]
      exact iff_of_false (by decide) (by decide)
    · rw [hbelow, List.forall_mem_singleton]
      rintro _ _ ⟨⟩ ⟨⟩
      exact .same

end Document

end DocumentStore
