import DocumentStore.Predicate.OfFilter
import DocumentStore.Proofs.DeclaredPaths
import DocumentStore.Proofs.StoredDocuments

/-!
# Fields of documents in filters

What a filter can ask about: the members of a document, the embedding under either of its names,
and each declared metadata field. A field is written as its names with points between them, so it is
found again as long as no name has a point in it.
-/

set_option autoImplicit false

namespace DocumentStore

/-! ## The fields -/

/-- What a filter asks about. -/
inductive DocumentField where
  | id
  | content
  | dataframe
  | blob
  | vector
  /-- The vector under its other name. -/
  | embedding
  /-- The metadata field under the given names. -/
  | metadata (names : List String)
  deriving DecidableEq

namespace DocumentField

/-- The names of a field from the outside in. -/
def names : DocumentField → List String
  | .id => [Column.id]
  | .content => [Column.content]
  | .dataframe => [Column.dataframe]
  | .blob => [Column.blob]
  | .vector => [Column.vector]
  | .embedding => [Column.embedding]
  | .metadata names => Column.metadata :: names

/-- How a field is written in a filter. -/
def text (field : DocumentField) : String :=
  String.ofList (Text.joined ['.'] (field.names.map String.toList))

/-- Whether the field holds an embedding, which can only be compared with null. -/
def isVector : DocumentField → Bool
  | .vector | .embedding => true
  | _ => false

/-- The field is one of every document, or a declared metadata field. -/
def DeclaredIn (fields : List Field) : DocumentField → Prop
  | .metadata names => (DataType.struct fields).Declares names
  | _ => True

/-- Whether a document has a field: a member that is there, or a metadata value that is not null. -/
def isIn (document : Document) : DocumentField → Bool
  | .id => true
  | .content => document.content.isSome
  | .dataframe => document.dataframe.isSome
  | .blob => document.blob.isSome
  | .vector | .embedding => document.embedding.isSome
  | .metadata names => MetaValue.hasAt (some (.map document.metadata)) names

/-- What a filter makes of the field. -/
def target : DocumentField → FilterTarget
  | .id => .root Column.id
  | .content => .root Column.content
  | .dataframe => .root Column.dataframe
  | .blob => .root Column.blob
  | .vector | .embedding => .vector
  | .metadata names => .metadata names.dropLast (names.getLast?.getD "")

end DocumentField

/-- No declared name has a point in it. -/
def Field.PointFree (fields : List Field) : Prop :=
  ∀ names, (DataType.struct fields).Declares names → ∀ name ∈ names, '.' ∉ name.toList

namespace FilterTarget

/-- A field written with sound names is read as those names. -/
theorem parse_joined {names : List String} {target : FilterTarget} (hne : names ≠ [])
    (pointFree : ∀ name ∈ names, '.' ∉ name.toList)
    (sound : ∀ name ∈ names, name ≠ Column.flags ∧ name ≠ "")
    (h : ofSegments? names = some target) :
    parse (String.ofList (Text.joined ['.'] (names.map String.toList))) = .ok target := by
  have hpieces : (Text.pieces '.' (String.ofList
      (Text.joined ['.'] (names.map String.toList))).toList).map String.ofList = names := by
    rw [String.toList_ofList, Text.pieces_joined, List.map_map]
    · calc names.map (String.ofList ∘ String.toList) = names.map id :=
          List.map_congr_left fun name _ => String.ofList_toList
        _ = names := List.map_id names
    · intro hnil
      exact hne (List.map_eq_nil_iff.mp hnil)
    · intro part hpart
      obtain ⟨name, hname, rfl⟩ := List.mem_map.mp hpart
      exact pointFree name hname
  unfold parse
  dsimp only
  rw [hpieces, if_neg fun hmem => (sound _ hmem).2 rfl, if_neg fun hmem => (sound _ hmem).1 rfl, h]

end FilterTarget

/-! ## Texts of fields -/

namespace DocumentField

/-- The field can be written: below the metadata at least one name, and no name is empty, reserved
or has a point in it. -/
def Writable : DocumentField → Prop
  | .metadata names =>
    names ≠ [] ∧ ∀ name ∈ names, name ≠ "" ∧ name ≠ Column.flags ∧ '.' ∉ name.toList
  | _ => True

/-- Only the vector has the target of the vector. -/
theorem target_eq_vector_iff (field : DocumentField) :
    field.target = .vector ↔ field.isVector = true := by
  cases field <;> simp [target, isVector]

/-- The names of a field that can be written are proper and have no point in them. -/
theorem sound_names {field : DocumentField} (writable : field.Writable) :
    ∀ name ∈ field.names, name ≠ "" ∧ name ≠ Column.flags ∧ '.' ∉ name.toList := by
  cases field with
  | metadata names =>
    refine List.forall_mem_cons.mpr ⟨?_, writable.2⟩
    decide
  | _ => decide

/-- The names of a field decide its target. -/
theorem ofSegments?_names {field : DocumentField} (writable : field.Writable) :
    FilterTarget.ofSegments? field.names = some field.target := by
  cases field with
  | metadata names =>
    cases names with
    | nil => exact absurd rfl writable.1
    | cons name rest =>
      simp [names, target, FilterTarget.ofSegments?, List.getLast?_eq_some_getLast]
  | _ => decide

/-- Segments have a target exactly as the names of a field. -/
theorem exists_names_of_ofSegments? {segments : List String} {target : FilterTarget}
    (h : FilterTarget.ofSegments? segments = some target) :
    ∃ field : DocumentField, field.names = segments := by
  cases segments with
  | nil => cases h
  | cons name rest =>
    cases rest with
    | nil =>
      rw [FilterTarget.ofSegments?] at h
      split at h
      · next hname =>
        rcases hname with rfl | rfl
        · exact ⟨.vector, rfl⟩
        · exact ⟨.embedding, rfl⟩
      · split at h
        · next hname =>
          simp only [FilterTarget.rootColumns, List.mem_cons, List.not_mem_nil, or_false] at hname
          rcases hname with rfl | rfl | rfl | rfl
          · exact ⟨.id, rfl⟩
          · exact ⟨.content, rfl⟩
          · exact ⟨.dataframe, rfl⟩
          · exact ⟨.blob, rfl⟩
        · cases h
    | cons next others =>
      rw [FilterTarget.ofSegments?] at h
      split at h
      · next hname =>
        rw [hname]
        exact ⟨.metadata (next :: others), rfl⟩
      · cases h

/-- A field can be written when its names are sound and there is a target for them. -/
theorem writable_of_ofSegments? {field : DocumentField} {target : FilterTarget}
    (h : FilterTarget.ofSegments? field.names = some target)
    (sound : ∀ name ∈ field.names, name ≠ "" ∧ name ≠ Column.flags ∧ '.' ∉ name.toList) :
    field.Writable := by
  cases field with
  | metadata names =>
    refine ⟨?_, (List.forall_mem_cons.mp sound).2⟩
    rintro rfl
    have hnone : FilterTarget.ofSegments? [Column.metadata] = none := by decide
    rw [DocumentField.names, hnone] at h
    cases h
  | _ => trivial

end DocumentField

namespace FilterTarget

/-- A text is read as a target exactly when it is the text of a field with that target. -/
theorem parse_eq_ok_iff (text : String) (target : FilterTarget) :
    parse text = .ok target ↔
      ∃ field : DocumentField, field.Writable ∧ field.text = text ∧ field.target = target := by
  constructor
  · intro h
    unfold parse at h
    dsimp only at h
    split at h
    · cases h
    next hempty =>
    split at h
    · cases h
    next hflags =>
    split at h
    · next found hfound =>
      cases h
      obtain ⟨field, hnames⟩ := DocumentField.exists_names_of_ofSegments? hfound
      have hparts : field.names.map String.toList = Text.pieces '.' text.toList := by
        rw [hnames, List.map_map]
        exact (List.map_congr_left fun part _ => String.toList_ofList).trans (List.map_id _)
      have hwritable : field.Writable := by
        refine DocumentField.writable_of_ofSegments? (hnames ▸ hfound) fun name hname => ⟨?_, ?_, ?_⟩
        · rintro rfl
          exact hempty (hnames ▸ hname)
        · rintro rfl
          exact hflags (hnames ▸ hname)
        · exact Text.separator_not_mem_pieces text.toList _ (hparts ▸ List.mem_map_of_mem hname)
      refine ⟨field, hwritable, ?_, ?_⟩
      · rw [DocumentField.text, hparts, Text.joined_pieces, String.ofList_toList]
      · have htarget := DocumentField.ofSegments?_names hwritable
        rw [hnames, hfound, Option.some.injEq] at htarget
        exact htarget.symm
    · cases h
  · rintro ⟨field, hwritable, rfl, rfl⟩
    refine parse_joined ?_ ?_ ?_ (DocumentField.ofSegments?_names hwritable)
    · cases field <;> simp [DocumentField.names]
    · intro name hname
      exact (DocumentField.sound_names hwritable name hname).2.2
    · intro name hname
      obtain ⟨hempty, hflags, -⟩ := DocumentField.sound_names hwritable name hname
      exact ⟨hflags, hempty⟩

/-- A field that cannot be read is refused as a filter. -/
theorem parse_eq_error {text : String} {e : Error} (h : parse text = .error e) :
    ∃ cause, e = .filter cause := by
  unfold parse at h
  dsimp only at h
  split at h
  · cases h
    exact ⟨_, rfl⟩
  split at h
  · cases h
    exact ⟨_, rfl⟩
  split at h
  · cases h
  · cases h
    exact ⟨_, rfl⟩

end FilterTarget

namespace DocumentField

variable {fields canonical : List Field} {path : String}

/-- A declared metadata field can be written if its own names have no points in them. -/
theorem writable_of_declares
    (hcanonical : Schema.canonicalType path (.struct fields) = .ok (.struct canonical))
    {names : List String} (declares : (DataType.struct fields).Declares names)
    (pointFree : ∀ name ∈ names, '.' ∉ name.toList) : (DocumentField.metadata names).Writable := by
  have hsound := (DataType.declares_canonicalType _ _ _ hcanonical names declares).2
  refine ⟨?_, fun name hname => ?_⟩
  · rintro rfl
    exact DataType.not_declares_nil _ declares
  · obtain ⟨hflags, hempty⟩ := hsound name hname
    exact ⟨hempty, hflags, pointFree name hname⟩

/-- A declared field of a new table is read as its target. -/
theorem parse_text
    (hcanonical : Schema.canonicalType path (.struct fields) = .ok (.struct canonical))
    (pointFree : Field.PointFree fields) {field : DocumentField}
    (declared : field.DeclaredIn fields) : FilterTarget.parse field.text = .ok field.target := by
  refine (FilterTarget.parse_eq_ok_iff _ _).mpr ⟨field, ?_, rfl, rfl⟩
  cases field with
  | metadata names => exact writable_of_declares hcanonical declared (pointFree names declared)
  | _ => trivial

end DocumentField

end DocumentStore
