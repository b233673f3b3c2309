import DocumentStore.Proofs.Membership
import DocumentStore.Proofs.StoredLeaves

/-!
# Declared fields in filters

The names of a declared metadata field are written with points between them in a filter, and are cut
at the points again when the filter is read. There is no way to write a point inside a name. So a
field is found under its own text exactly when no name on its path has a point, and then comparing it
with null asks for the flag beside it and for its value. A field of another path has the same text
only if a name on one of the two paths has a point.
-/

set_option autoImplicit false

namespace DocumentStore

namespace DocumentField

variable {fields : List Field} {width : Int64} {schema : Schema} {names other : List String}

/-- No name has a point in it. -/
def PointFreeNames (names : List String) : Prop := ∀ name ∈ names, '.' ∉ name.toList

/-- Each name can be searched for a point. -/
instance (names : List String) : Decidable (PointFreeNames names) :=
  inferInstanceAs (Decidable (∀ name ∈ names, '.' ∉ name.toList))

/-- Names without points are found again by cutting their text at the points. -/
theorem pieces_text (h : PointFreeNames names) :
    Text.pieces '.' (DocumentField.metadata names).text.toList =
      (Column.metadata :: names).map String.toList := by
  unfold text DocumentField.names
  rw [String.toList_ofList, Text.pieces_joined]
  · simp
  · intro part hpart
    obtain ⟨name, hname, rfl⟩ := List.mem_map.mp hpart
    rcases List.mem_cons.mp hname with rfl | hname
    · decide
    · exact h name hname

/-- Paths without points have texts of their own. -/
theorem eq_of_text_eq (h : PointFreeNames names) (h' : PointFreeNames other)
    (heq : (DocumentField.metadata names).text = (DocumentField.metadata other).text) :
    names = other := by
  have hpieces := pieces_text h
  rw [heq, pieces_text h', List.map_inj_right fun _ _ => String.toList_inj.mp] at hpieces
  exact (List.cons.inj hpieces).2.symm

/-- A text that is read as a metadata field has the names of the field as its pieces, so that none of
them has a point. -/
theorem pointFree_of_parse {text : String} {structs : List String} {leaf : String}
    (h : FilterTarget.parse text = .ok (.metadata structs leaf)) :
    PointFreeNames (structs ++ [leaf]) := by
  obtain ⟨field, hwritable, -, htarget⟩ := (FilterTarget.parse_eq_ok_iff _ _).mp h
  cases field with
  | metadata names =>
    rcases List.eq_nil_or_concat names with rfl | ⟨before, last, rfl⟩
    · exact absurd rfl hwritable.1
    · simp [target] at htarget
      obtain ⟨rfl, rfl⟩ := htarget
      intro name hname
      exact (hwritable.2 name (by simpa using hname)).2.2
  | _ => cases htarget

/-- The text of a declared field is read as the field exactly when its names have no points. -/
theorem parse_text_iff (hschema : Schema.ofMetadata fields width = .ok schema) {structs : List String}
    {leaf : String} (declared : (DataType.struct fields).Declares (structs ++ [leaf])) :
    FilterTarget.parse (DocumentField.metadata (structs ++ [leaf])).text =
      .ok (.metadata structs leaf) ↔ PointFreeNames (structs ++ [leaf]) := by
  constructor
  · exact pointFree_of_parse
  · intro h
    rw [parse_text_of_declares hschema declared h]
    simp [target]

/-- A declared metadata field is found under its names with points between them exactly when none of
them has a point. Comparing it with null then asks for its flag and its column, and on the row of every
document it tells whether the document has the field. A field of another path has the same text only if
one of the two paths has a point in a name. -/
theorem declared_filterable (hschema : Schema.ofMetadata fields width = .ok schema)
    (declared : (DataType.struct fields).Declares names) :
    ∃ structs leaf, names = structs ++ [leaf] ∧
      (FilterTarget.parse (DocumentField.metadata names).text = .ok (.metadata structs leaf) ↔
        PointFreeNames names) ∧
      (PointFreeNames names → ∃ p : Predicate,
        p = .or [.compare (Column.metadata :: (structs ++ [Column.flags, leaf])) .eq (.bool true),
          .isNull (Column.metadata :: names)] ∧
        Predicate.ofFilter (.comparison (DocumentField.metadata names).text .eq .null) = .ok p ∧
        ∀ document row, Document.toRow document schema = .ok row → p.evaluate row =
          .ok (some (!MetaValue.hasAt (some (.map document.metadata)) names))) ∧
      ∀ other, (DataType.struct fields).Declares other →
        (DocumentField.metadata other).text = (DocumentField.metadata names).text →
          other = names ∨ ¬PointFreeNames other ∨ ¬PointFreeNames names := by
  rcases List.eq_nil_or_concat names with rfl | ⟨structs, leaf, rfl⟩
  · exact absurd declared (DataType.not_declares_nil _)
  rw [List.concat_eq_append] at declared ⊢
  have hparse := parse_text_iff hschema declared
  refine ⟨structs, leaf, rfl, hparse,
    fun hfree => ⟨_, rfl, ?_, fun document row hrow => ?_⟩, fun other _ htext => ?_⟩
  · rw [Predicate.ofFilter, Predicate.ofComparison, hparse.mpr hfree, ok_bind,
      if_neg fun h => by cases h.2]
    rfl
  · have hdecides : (DocumentField.metadata (structs ++ [leaf])).target.Decides row _ :=
      decides_toRow hschema hrow declared
    simp only [target, List.dropLast_concat, List.getLast?_concat, Option.getD_some] at hdecides
    exact hdecides.absence
  · by_cases hother : PointFreeNames other
    · by_cases hnames : PointFreeNames (structs ++ [leaf])
      · exact .inl (eq_of_text_eq hother hnames htext)
      · exact .inr (.inr hnames)
    · exact .inr (.inl hother)

/-- A field below a struct, in a document that has it. -/
theorem declared_filterable_belowStruct :
    ∃ schema row p, Schema.ofMetadata
        [.plain "tags" (.struct [.plain "first kind" .utf8 true]) true] 2 = .ok schema ∧
      Document.toRow ⟨"a", none, none, none, none,
        ⟨[("tags", .map ⟨[("first kind", .string "x")]⟩)]⟩, none⟩ schema = .ok row ∧
      Predicate.ofFilter (.comparison "meta.tags.first kind" .eq .null) = .ok p ∧
      p.evaluate row = .ok (some false) := by
  have declared : (DataType.struct
      [.plain "tags" (.struct [.plain "first kind" .utf8 true]) true]).Declares
        ["tags", "first kind"] :=
    .inside (Field.mem_declared.mpr ⟨List.mem_singleton_self _, by decide⟩)
      (.here (Field.mem_declared.mpr ⟨List.mem_singleton_self _, by decide⟩))
  have htext : (DocumentField.metadata ["tags", "first kind"]).text = "meta.tags.first kind" := by
    decide
  obtain ⟨structs, leaf, -, -, hfilter, -⟩ := @declared_filterable _ 2 _ _ rfl declared
  obtain ⟨p, -, hp, hevaluate⟩ := hfilter (by decide)
  rw [htext] at hp
  have hvalue := hevaluate ⟨"a", none, none, none, none,
    ⟨[("tags", .map ⟨[("first kind", .string "x")]⟩)]⟩, none⟩ _ rfl
  exact ⟨_, _, p, rfl, rfl, hp, hvalue⟩

/-- A field with a point in its name has no filter of its own: what its text asks for is not in the
table, or is the field of another path. -/
theorem pointed_not_filterable :
    (∃ schema row p e, Schema.ofMetadata [.plain "a.b" .int32 true] 2 = .ok schema ∧
      (DataType.struct [.plain "a.b" .int32 true]).Declares ["a.b"] ∧
      Document.toRow ⟨"k", none, none, none, none, ⟨[("a.b", .int 1)]⟩, none⟩ schema = .ok row ∧
      Predicate.ofFilter (.comparison (DocumentField.metadata ["a.b"]).text .eq .null) = .ok p ∧
      p.evaluate row = .error e) ∧
    ∃ fields schema, Schema.ofMetadata fields 2 = .ok schema ∧
      (DataType.struct fields).Declares ["a.b"] ∧ (DataType.struct fields).Declares ["a", "b"] ∧
      (DocumentField.metadata ["a.b"]).text = (DocumentField.metadata ["a", "b"]).text := by
  have here : ∀ {fields : List Field} {field : Field}, field ∈ fields →
      field.name ≠ Column.flags → (DataType.struct fields).Declares [field.name] :=
    fun hmem hname => .here (Field.mem_declared.mpr ⟨hmem, hname⟩)
  refine ⟨⟨_, _, _, _, rfl, here (List.mem_singleton_self _) (by decide), rfl, rfl, rfl⟩,
    [.plain "a.b" .int32 true, .plain "a" (.struct [.plain "b" .int32 true]) true], _, rfl,
    here (List.mem_cons_self ..) (by decide), ?_, by decide⟩
  exact .inside (Field.mem_declared.mpr ⟨List.mem_cons_of_mem _ (List.mem_singleton_self _),
    by decide⟩) (here (List.mem_singleton_self _) (by decide))

end DocumentField

end DocumentStore
