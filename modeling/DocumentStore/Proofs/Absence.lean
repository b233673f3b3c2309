import DocumentStore.Proofs.Connectives
import DocumentStore.Proofs.FilterFields

/-!
# Absence in filters

The codec writes the flags and the filters ask them. Both agree on which fields a document has: a
comparison with null is decided for every field, and every other comparison first asks whether the
field is there, so what stands in its place when it is not is never compared.
-/

set_option autoImplicit false

namespace DocumentStore

/-- The comparison of a column by itself, without a question for its presence. -/
def Predicate.bare (field : String) (column : ColumnPath) (comparator : Comparator)
    (operand : Operand) : Except Error Predicate :=
  match comparator with
  | .eq | .notEq => do
    return .compare column (← comparator.relation) (← operand.scalar field comparator)
  | .greater | .greaterEq | .less | .lessEq => do
    return .compare column (← comparator.relation) (← operand.orderedScalar field comparator)
  | .isIn | .notIn =>
    match operand with
    | .list operands => do
      return .inList column (← Operand.members field comparator operands) (comparator = .notIn)
    | operand => .error (.filter (.listExpected field comparator.text operand.kind))

namespace FilterTarget

variable {target : FilterTarget} {row : Row}

/-! ## Questions for presence -/

/-- On this row the target has a value or not, and the questions for it are answered. -/
structure Decides (row : Row) (target : FilterTarget) (has : Bool) : Prop where
  presence : target.presence.evaluate row = .ok (some has)
  absence : target.absence.evaluate row = .ok (some (!has))
  column : has = true → ∃ cell, Row.path? row target.column = some cell ∧ cell.isNull = false

/-- A test of a flag compares the cell at its path. -/
theorem evaluate_flagIs {path : ColumnPath} {flag : Cell} (h : Row.path? row path = some flag)
    (b : Bool) : (flagIs path b).evaluate row =
      (flag.compareTo (.bool b)).map fun order => order.map Relation.eq.holds := by
  unfold flagIs
  rw [Predicate.evaluate]
  unfold Row.valueAt
  rw [h]
  dsimp only
  rw [ok_bind]
  cases flag.compareTo (.bool b) <;> rfl

/-- A null test is decided by the cell at its path. -/
theorem evaluate_isNull {path : ColumnPath} {cell : Cell} (h : Row.path? row path = some cell) :
    (Predicate.isNull path).evaluate row = .ok (some cell.isNull) := by
  rw [Predicate.evaluate]
  unfold Row.valueAt
  rw [h]
  rfl

/-- The opposite null test is decided by the cell at its path as well. -/
theorem evaluate_isNotNull {path : ColumnPath} {cell : Cell}
    (h : Row.path? row path = some cell) :
    (Predicate.isNotNull path).evaluate row = .ok (some (!cell.isNull)) := by
  rw [Predicate.evaluate]
  unfold Row.valueAt
  rw [h]
  rfl

/-- A root column that may be null is there when it is not. -/
theorem decides_root {name : String} {cell : Cell} (h : row.get? name = some cell) :
    Decides row (.root name) (!cell.isNull) := by
  have hpath : Row.path? row [name] = some cell := by
    rw [Row.path?, h]
    rfl
  refine ⟨evaluate_isNotNull hpath, ?_, fun hhas => ⟨cell, hpath, ?_⟩⟩
  · rw [Bool.not_not]
    exact evaluate_isNull hpath
  · rwa [Bool.not_eq_true'] at hhas

/-- An embedding is there when its flag is not set. -/
theorem decides_vector {has : Bool} (h : row.flag? Column.vector = some (!has))
    (hcolumn : has = true → ∃ cell, row.get? Column.vector = some cell ∧ cell.isNull = false) :
    Decides row .vector has := by
  have hpath : Row.path? row vectorFlag = some (.boolean !has) := Row.path?_flag h
  refine ⟨?_, ?_, fun hhas => ?_⟩
  · show (flagIs vectorFlag false).evaluate row = _
    rw [evaluate_flagIs hpath]
    cases has <;> rfl
  · show (flagIs vectorFlag true).evaluate row = _
    rw [evaluate_flagIs hpath]
    cases has <;> rfl
  · obtain ⟨cell, hcell, hnull⟩ := hcolumn hhas
    refine ⟨cell, ?_, hnull⟩
    show Row.path? row [Column.vector] = some cell
    rw [Row.path?, hcell]
    rfl

/-- A metadata field is there when its flag is not set and its value is not null; a null further up
answers for both. -/
theorem decides_metadata {structs : List String} {leaf : String} {flag stored : Cell} {has : Bool}
    (hflag : Row.path? row (metadataFlag structs leaf) = some flag)
    (hstored : Row.path? row (FilterTarget.metadata structs leaf).column = some stored)
    (h : Marked flag stored has) : Decides row (.metadata structs leaf) has := by
  refine ⟨?_, ?_, fun hhas => ⟨stored, hstored, ?_⟩⟩
  · show (Predicate.and [flagIs (metadataFlag structs leaf) false,
      .isNotNull (FilterTarget.metadata structs leaf).column]).evaluate row = _
    rw [Predicate.evaluate, Predicate.evaluateAll, evaluate_flagIs hflag,
      Predicate.evaluateAll_singleton, evaluate_isNotNull hstored]
    cases h with
    | there h => rw [h]; rfl
    | declaredNull h => rw [h]; rfl
    | absent => rfl
    | belowNull => rfl
  · show (Predicate.or [flagIs (metadataFlag structs leaf) true,
      .isNull (FilterTarget.metadata structs leaf).column]).evaluate row = _
    rw [Predicate.evaluate, Predicate.evaluateAny, evaluate_flagIs hflag,
      Predicate.evaluateAny_singleton, evaluate_isNull hstored]
    cases h with
    | there h => rw [h]; rfl
    | declaredNull h => rw [h]; rfl
    | absent => rfl
    | belowNull => rfl
  · cases h with
    | there h => exact h
    | _ => cases hhas

end FilterTarget

/-! ## Comparisons -/

namespace Predicate

variable {field : String} {target : FilterTarget} {row : Row} {has : Bool}
  {comparator : Comparator} {operand : Operand} {p : Predicate}

/-- What a comparison with a value amounts to: a constant where the field is missing, and the bare
comparison where it is there. -/
def Amounts (row : Row) (p : Predicate) (has : Bool) (comparator : Comparator)
    (bare : Except Error Predicate) : Prop :=
  (has = false → p.evaluate row = .ok (some (decide (comparator = .notIn)))) ∧
    (has = true → ∃ q, bare = .ok q ∧ p.evaluate row = q.evaluate row)

/-- A gated comparison is false where the field is missing and otherwise the comparison itself. -/
theorem amounts_gated (decides : target.Decides row has) {relation : Relation} {literal : Scalar}
    (hne : comparator ≠ .notIn) {bare : Except Error Predicate}
    (hbare : bare = .ok (.compare target.column relation literal)) :
    Amounts row (gated target relation literal) has comparator bare := by
  unfold gated
  constructor
  · rintro rfl
    rw [decide_eq_false hne]
    exact evaluate_allOf_of_false decides.presence
  · rintro rfl
    exact ⟨_, hbare, evaluate_allOf_of_true decides.presence⟩

/-- Nothing is among no literals. -/
theorem evaluate_inList_nil {column : ColumnPath} {cell : Cell} (negated : Bool)
    (h : Row.path? row column = some cell) (hnull : cell.isNull = false) :
    (inList column [] negated).evaluate row = .ok (some negated) := by
  rw [evaluate]
  unfold Row.valueAt
  rw [h, ok_bind, hnull]
  cases negated <;> rfl

/-- A membership test is gated as well; a denied one holds where the field is missing. -/
theorem amounts_membership (decides : target.Decides row has) {literals : List Scalar}
    (hlist : comparator = .isIn ∨ comparator = .notIn) {bare : Except Error Predicate}
    (hbare : bare = .ok (.inList target.column literals (comparator = .notIn))) :
    Amounts row (membership target literals (comparator = .notIn)) has comparator bare := by
  unfold membership
  rcases hlist with rfl | rfl
  · constructor
    · rintro rfl
      exact evaluate_allOf_of_false decides.presence
    · rintro rfl
      exact ⟨_, hbare, evaluate_allOf_of_true decides.presence⟩
  · constructor
    · rintro rfl
      exact evaluate_anyOf_of_true decides.absence
    · rintro rfl
      exact ⟨_, hbare, evaluate_anyOf_of_false decides.absence⟩

/-- A test for membership in an empty list is a constant. -/
theorem amounts_constant (decides : target.Decides row has) {bare : Except Error Predicate}
    (hbare : bare = .ok (.inList target.column [] (comparator = .notIn))) :
    Amounts row (.constant (comparator = .notIn)) has comparator bare := by
  refine ⟨fun _ => by rw [evaluate], fun hhas => ⟨_, hbare, ?_⟩⟩
  obtain ⟨cell, hcell, hnull⟩ := decides.column hhas
  rw [evaluate_inList_nil _ hcell hnull, evaluate]

/-- Every comparison with a value that is lowered amounts to the bare comparison, gated. -/
theorem amounts_ofComparison (hparse : FilterTarget.parse field = .ok target)
    (decides : target.Decides row has) (hvector : target ≠ .vector)
    (hnull : operand.isNull = false) (h : ofComparison field comparator operand = .ok p) :
    Amounts row p has comparator (bare field target.column comparator operand) := by
  unfold ofComparison at h
  rw [hparse, ok_bind, if_neg fun hv => hvector hv.1] at h
  cases comparator with
  | eq | notEq =>
    dsimp only at h
    rw [hnull] at h
    obtain ⟨literal, hliteral, h⟩ := (bind_eq_ok_iff _ _ _).mp h
    cases h
    refine amounts_gated decides (by decide) ?_
    unfold bare
    dsimp only
    rw [hliteral]
    rfl
  | greater | greaterEq | less | lessEq =>
    dsimp only at h
    rw [hnull] at h
    obtain ⟨literal, hliteral, h⟩ := (bind_eq_ok_iff _ _ _).mp h
    cases h
    refine amounts_gated decides (by decide) ?_
    unfold bare
    dsimp only
    rw [hliteral]
    rfl
  | isIn | notIn =>
    cases operand with
    | list operands =>
      cases operands with
      | nil =>
        cases h
        exact amounts_constant decides rfl
      | cons first others =>
        obtain ⟨literals, hliterals, h⟩ := (bind_eq_ok_iff _ _ _).mp h
        cases h
        refine amounts_membership decides (by decide) ?_
        unfold bare
        dsimp only
        rw [hliterals]
        rfl
    | _ => cases h

end Predicate

/-! ## Stored documents -/

namespace DocumentField

variable {document : Document} {metadata : List Field} {row : Row} {field : DocumentField}

/-- The target of a field that is no embedding is its column. -/
theorem column_target (hvector : field.isVector = false) (declared : field.DeclaredIn metadata) :
    field.target.column = field.names ∧ field.target ≠ .vector := by
  cases field with
  | vector | embedding => cases hvector
  | metadata names =>
    refine ⟨?_, fun h => by cases h⟩
    rcases List.eq_nil_or_concat names with rfl | ⟨structs, leaf, rfl⟩
    · exact absurd declared (DataType.not_declares_nil _)
    · unfold target FilterTarget.column DocumentField.names
      simp only [List.concat_eq_append, List.dropLast_concat, List.getLast?_concat,
        Option.getD_some]
  | _ => exact ⟨rfl, fun h => by cases h⟩

/-- On the row of a document the questions for the presence of a field are answered by whether the
document has it. -/
theorem decides_storedIn (h : document.StoredIn metadata row)
    (declared : field.DeclaredIn metadata) :
    field.target.Decides row (field.isIn document) := by
  cases field with
  | id => exact FilterTarget.decides_root h.id
  | content =>
    have hdecides := FilterTarget.decides_root h.content.stored
    unfold isIn
    cases hcontent : document.content <;> rw [hcontent] at hdecides <;> exact hdecides
  | dataframe =>
    have hdecides := FilterTarget.decides_root h.dataframe.stored
    unfold Document.frameCell at hdecides
    unfold isIn
    cases hframe : document.dataframe <;> rw [hframe] at hdecides <;> exact hdecides
  | blob =>
    have hdecides := FilterTarget.decides_root h.blob.stored
    unfold isIn
    cases hblob : document.blob <;> rw [hblob] at hdecides <;> exact hdecides
  | vector | embedding =>
    refine FilterTarget.decides_vector ?_ fun hhas => ?_
    · rw [h.vector.flag, Option.isNone_map, isIn, Option.not_isSome]
    · obtain ⟨values, hvalues⟩ := Option.isSome_iff_exists.mp hhas
      exact ⟨.vector values, h.vector.held _ (by rw [hvalues]; rfl), rfl⟩
  | metadata names =>
    rcases List.eq_nil_or_concat names with rfl | ⟨structs, leaf, rfl⟩
    · exact absurd declared (DataType.not_declares_nil _)
    · rw [List.concat_eq_append] at declared ⊢
      obtain ⟨cell, hholds, hstored⟩ := h.metadata
      obtain ⟨flag, stored, hflag, hvalue, hmarked⟩ :=
        hstored.exists_marked structs leaf declared
      have hstep : ∀ names, Row.path? row (Column.metadata :: names) = cell.path? names := by
        intro names
        rw [Row.path?, hholds.held cell rfl]
      unfold target
      dsimp only
      rw [List.dropLast_concat, List.getLast?_concat, Option.getD_some]
      refine FilterTarget.decides_metadata ?_ ?_ hmarked
      · exact (hstep _).trans hflag
      · exact (hstep _).trans hvalue

/-- In a new table, comparing a field with null tells whether the document has the field, and any
other comparison is settled without the stored value where the document has not, and is the bare
comparison where it has. -/
theorem comparison_agrees {fields : List Field} {width : Int64} {schema : Schema}
    (hschema : Schema.ofMetadata fields width = .ok schema) (pointFree : Field.PointFree fields)
    (hrow : document.toRow schema = .ok row) (declared : field.DeclaredIn fields) :
    (∃ p, Predicate.ofFilter (.comparison field.text .eq .null) = .ok p ∧
      p.evaluate row = .ok (some (!field.isIn document))) ∧
    (∃ p, Predicate.ofFilter (.comparison field.text .notEq .null) = .ok p ∧
      p.evaluate row = .ok (some (field.isIn document))) ∧
    (field.isVector = false → ∀ comparator operand p, operand.isNull = false →
      Predicate.ofFilter (.comparison field.text comparator operand) = .ok p →
        (field.isIn document = false →
          p.evaluate row = .ok (some (decide (comparator = .notIn)))) ∧
        (field.isIn document = true →
          ∃ q, Predicate.bare field.text field.names comparator operand = .ok q ∧
            p.evaluate row = q.evaluate row)) := by
  obtain ⟨canonical, hcanonical, table⟩ := Schema.isTable_ofMetadata hschema
  have hparse := parse_text hcanonical pointFree declared
  have declared' : field.DeclaredIn canonical := by
    cases field with
    | metadata names => exact (DataType.declares_canonicalType _ _ _ hcanonical names declared).1
    | _ => exact trivial
  have hdecides := decides_storedIn (Document.storedIn_toRow table hrow) declared'
  refine ⟨⟨field.target.absence, ?_, hdecides.absence⟩,
    ⟨field.target.presence, ?_, hdecides.presence⟩, ?_⟩
  · rw [Predicate.ofFilter, Predicate.ofComparison, hparse, ok_bind, if_neg fun h => by cases h.2]
    rfl
  · rw [Predicate.ofFilter, Predicate.ofComparison, hparse, ok_bind, if_neg fun h => by cases h.2]
    rfl
  · intro hvector comparator operand p hnull hp
    obtain ⟨hcolumn, htarget⟩ := column_target hvector declared
    rw [Predicate.ofFilter] at hp
    have hamounts := Predicate.amounts_ofComparison hparse hdecides htarget hnull hp
    rw [hcolumn] at hamounts
    exact hamounts

/-- A field below a struct that is declared to be null. -/
theorem comparison_agrees_belowNull :
    ∃ schema row,
      Schema.ofMetadata [.plain "tags" (.struct [.plain "kind" .utf8 true]) true] 2 =
        .ok schema ∧
      Document.toRow ⟨"a", none, none, none, none, ⟨[("tags", .null)]⟩, none⟩ schema = .ok row ∧
      (∃ p, Predicate.ofFilter
          (.comparison (DocumentField.metadata ["tags", "kind"]).text .eq .null) = .ok p ∧
        p.evaluate row = .ok (some true)) := by
  have pointFree :
      Field.PointFree [.plain "tags" (.struct [.plain "kind" .utf8 true]) true] := by
    intro names declares
    cases names with
    | nil => exact absurd declares (DataType.not_declares_nil _)
    | cons first names =>
      obtain ⟨_, field, hfields, hfield, rfl, hrest⟩ := declares.exists_field
      cases hfields
      rw [Field.mem_declared, List.mem_singleton] at hfield
      obtain ⟨rfl, -⟩ := hfield
      rcases hrest with rfl | inner
      · decide
      · cases names with
        | nil => exact absurd inner (DataType.not_declares_nil _)
        | cons second names =>
          obtain ⟨_, field, hfields, hfield, rfl, hrest⟩ := inner.exists_field
          cases hfields
          rw [Field.mem_declared, List.mem_singleton] at hfield
          obtain ⟨rfl, -⟩ := hfield
          rcases hrest with rfl | inner
          · decide
          · obtain ⟨_, hleaf⟩ := inner.exists_fields
            cases hleaf
  have kind : FieldOf.plain "kind" .utf8 true ∈ Field.declared [.plain "kind" .utf8 true] := by
    decide
  have tags : FieldOf.plain "tags" (.struct [.plain "kind" .utf8 true]) true ∈
      Field.declared [.plain "tags" (.struct [.plain "kind" .utf8 true]) true] := by
    decide
  have declared : DeclaredIn [.plain "tags" (.struct [.plain "kind" .utf8 true]) true]
      (.metadata ["tags", "kind"]) := .inside tags (.here kind)
  exact ⟨_, _, rfl, rfl, (@comparison_agrees ⟨"a", none, none, none, none, ⟨[("tags", .null)]⟩, none⟩
    _ (.metadata ["tags", "kind"]) _ 2 _ rfl pointFree rfl declared).1⟩

end DocumentField

end DocumentStore
