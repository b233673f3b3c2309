import DocumentStore.Proofs.Absence
import DocumentStore.Proofs.FilterOperands

/-!
# Membership and equality

Membership in a list asks once whether the field is there and then looks through the literals up to
the first equal one. The disjunction of the equalities asks for every literal again, and where a
literal is of another type, or the stored value is not a number, it has no value where the list is
just not met. Both select the same rows nevertheless, and come to the same malformed date or stop
before it. A denied membership is the negation of the membership in value as well, because either
question for the presence of the field is answered.
-/

set_option autoImplicit false

namespace DocumentStore

/-! ## Literals -/

namespace Operand

variable {field : String} {comparator : Comparator}

/-- The literal of an operand is the same for all operators. -/
theorem scalar_of_scalar {operand : Operand} {literal : Scalar}
    (h : operand.scalar field comparator = .ok literal) (other : Comparator) :
    operand.scalar field other = .ok literal := by
  cases operand with
  | null | list | map => cases h
  | _ => exact h

/-- The literals of a list are the same for all operators. -/
theorem members_of_members {operands : List Operand} {literals : List Scalar}
    (h : members field comparator operands = .ok literals) (other : Comparator) :
    members field other operands = .ok literals := by
  rw [members_eq_mapM, mapM_eq_ok_iff] at h ⊢
  refine h.imp fun operand literal hliteral => ?_
  split at hliteral
  · cases hliteral
  next hnull =>
  rw [if_neg hnull]
  exact scalar_of_scalar hliteral other

end Operand

namespace Predicate

variable {field : String} {target : FilterTarget} {row : Row} {has : Bool}

/-! ## What the filters become -/

/-- An equality with a single value is gated. -/
theorem ofComparison_eq (hparse : FilterTarget.parse field = .ok target)
    (plain : target ≠ .vector) {operand : Operand} {literal : Scalar}
    (h : operand.scalar field .eq = .ok literal) :
    ofComparison field .eq operand = .ok (gated target .eq literal) := by
  have hnull : operand.isNull = false := by
    cases operand with
    | null => cases h
    | _ => rfl
  unfold ofComparison
  rw [hparse, ok_bind, if_neg fun hv => plain hv.1]
  dsimp only
  rw [hnull, h]
  rfl

/-- The disjunction of the equalities with single values is that of the gated equalities. -/
theorem ofFilter_equalities (hparse : FilterTarget.parse field = .ok target)
    (plain : target ≠ .vector) {operands : List Operand} {literals : List Scalar}
    (hne : operands ≠ []) (h : Operand.members field .eq operands = .ok literals) :
    ofFilter (.combination .or (operands.map fun operand => .comparison field .eq operand)) =
      .ok (.or (literals.map (gated target .eq))) := by
  have hall : (operands.map fun operand => Filter.comparison field .eq operand).mapM ofFilter =
      .ok (literals.map (gated target .eq)) := by
    rw [mapM_eq_ok_iff, List.forall₂_map_left_iff, List.forall₂_map_right_iff]
    refine (Operand.members_eq_ok h).imp fun operand literal hliteral => ?_
    rw [ofFilter, ofComparison_eq hparse plain hliteral]
  rw [ofFilter_combination (by simpa using hne), hall]
  rfl

/-- Membership in a list that is not empty is tested with the literals of its members. -/
theorem ofComparison_list (hparse : FilterTarget.parse field = .ok target)
    (plain : target ≠ .vector) {comparator : Comparator}
    (hlist : comparator = .isIn ∨ comparator = .notIn) {operands : List Operand}
    (hne : operands ≠ []) :
    ofComparison field comparator (.list operands) =
      (Operand.members field comparator operands).map fun literals =>
        membership target literals (comparator = .notIn) := by
  unfold ofComparison
  rw [hparse, ok_bind, if_neg fun hv => plain hv.1]
  rcases hlist with rfl | rfl
  all_goals
    cases operands with
    | nil => exact absurd rfl hne
    | cons first others => exact bind_pure_eq_map _ _

/-! ## Rows -/

/-- Where the field is there, a gated comparison is that of the stored value. -/
theorem evaluate_gated_of_true (decides : target.Decides row true) {cell : Cell}
    (hcell : Row.path? row target.column = some cell) (relation : Relation) (literal : Scalar) :
    evaluate row (gated target relation literal) =
      (cell.compareTo literal).map fun order => order.map relation.holds := by
  unfold gated
  rw [evaluate_allOf_of_true decides.presence, evaluate]
  unfold Row.valueAt
  rw [hcell]
  exact bind_pure_eq_map _ _

/-- Where the field is missing no equality holds. -/
theorem evaluateAny_gated_of_false (decides : target.Decides row false) (relation : Relation)
    (literals : List Scalar) :
    evaluateAny row (literals.map (gated target relation)) = .ok (some false) := by
  induction literals with
  | nil => rfl
  | cons literal rest ih =>
    have hgated : evaluate row (gated target relation literal) = .ok (some false) :=
      evaluate_allOf_of_false decides.presence
    rw [List.map_cons, evaluateAny, hgated, ok_bind]
    exact ih

/-- Where the field is there, some equality holds exactly when the value is among the literals, and
the first date that cannot be read is an error of both. -/
theorem evaluateAny_gated_of_true (decides : target.Decides row true) {cell : Cell}
    (hcell : Row.path? row target.column = some cell) (literals : List Scalar) :
    (evaluateAny row (literals.map (gated target .eq))).map
        (fun value => decide (value = some true)) = cell.isAmong literals := by
  induction literals with
  | nil => rfl
  | cons literal rest ih =>
    rw [List.map_cons, evaluateAny, evaluate_gated_of_true decides hcell, Cell.isAmong]
    cases cell.compareTo literal with
    | error e => rfl
    | ok order =>
      rw [ok_bind]
      -- only an equal literal decides; after no value a later one may still be equal
      rcases order with _ | _ | _ | _
      · rw [if_neg (by decide), ← ih]
        show Except.map _ ((evaluateAny row _).bind _) = _
        cases evaluateAny row (rest.map (gated target .eq)) with
        | error e => rfl
        | ok value => rcases value with _ | _ | _ <;> rfl
      · exact ih
      · rfl
      · exact ih

/-- A predicate selects the rows on which it is true. -/
theorem selects_eq_map (p : Predicate) :
    p.selects row = (p.evaluate row).map fun value => decide (value = some true) :=
  bind_pure_eq_map _ _

/-- Where the field is there, membership is looked up in the list. -/
theorem evaluate_membership_of_true (decides : target.Decides row true) {cell : Cell}
    (hcell : Row.path? row target.column = some cell) (hnull : cell.isNull = false)
    (literals : List Scalar) (negated : Bool) :
    (membership target literals negated).evaluate row =
      (cell.isAmong literals).map fun found => some (found != negated) := by
  have hlist : (inList target.column literals negated).evaluate row =
      (cell.isAmong literals).map fun found => some (found != negated) := by
    rw [evaluate]
    unfold Row.valueAt
    rw [hcell, ok_bind, hnull, if_neg Bool.false_ne_true]
    exact bind_pure_eq_map _ _
  unfold membership
  cases negated with
  | false => exact (evaluate_allOf_of_true decides.presence).trans hlist
  | true => exact (evaluate_anyOf_of_false decides.absence).trans hlist

/-- Where the field is missing, no list has it as a member. -/
theorem evaluate_membership_of_false (decides : target.Decides row false)
    (literals : List Scalar) (negated : Bool) :
    (membership target literals negated).evaluate row = .ok (some negated) := by
  unfold membership
  cases negated with
  | false => exact evaluate_allOf_of_false decides.presence
  | true => exact evaluate_anyOf_of_true decides.absence

/-- A membership test and the disjunction of the equalities select the same rows. -/
theorem selects_membership (decides : target.Decides row has) (literals : List Scalar) :
    (membership target literals false).selects row =
      (or (literals.map (gated target .eq))).selects row := by
  rw [selects_eq_map, selects_eq_map, evaluate]
  cases has with
  | false => rw [evaluate_membership_of_false decides, evaluateAny_gated_of_false decides]
  | true =>
    obtain ⟨cell, hcell, hnull⟩ := decides.column rfl
    rw [evaluate_membership_of_true decides hcell hnull, evaluateAny_gated_of_true decides hcell]
    cases cell.isAmong literals with
    | error e => rfl
    | ok found => cases found <;> rfl

/-- A denied membership has the opposite value of the membership. -/
theorem evaluate_denied (decides : target.Decides row has) (literals : List Scalar) :
    (membership target literals true).evaluate row =
      (not (and [membership target literals false])).evaluate row := by
  rw [evaluate, evaluate, evaluateAll_singleton]
  cases has with
  | false =>
    rw [evaluate_membership_of_false decides, evaluate_membership_of_false decides]
    rfl
  | true =>
    obtain ⟨cell, hcell, hnull⟩ := decides.column rfl
    rw [evaluate_membership_of_true decides hcell hnull,
      evaluate_membership_of_true decides hcell hnull]
    cases cell.isAmong literals with
    | error e => rfl
    | ok found => cases found <;> rfl

end Predicate

/-! ## Stored documents -/

namespace DocumentField

variable {document : Document} {row : Row} {field : DocumentField} {fields : List Field}
  {width : Int64} {schema : Schema}

/-- The row of a document in a new table answers the questions for the presence of a field. -/
theorem decides_toRow (hschema : Schema.ofMetadata fields width = .ok schema)
    (hrow : document.toRow schema = .ok row) (declared : field.DeclaredIn fields) :
    field.target.Decides row (field.isIn document) := by
  obtain ⟨canonical, hcanonical, table⟩ := Schema.isTable_ofMetadata hschema
  refine decides_storedIn (Document.storedIn_toRow table hrow) ?_
  cases field with
  | metadata names => exact (DataType.declares_canonicalType _ _ _ hcanonical names declared).1
  | _ => exact trivial

/-- In a new table, membership of a field in a list that is not empty selects the rows that some
equality with a member of the list selects, in the order of the list, and the denied membership has
the value of the negation. Errors are the same. -/
theorem membership_agrees (hschema : Schema.ofMetadata fields width = .ok schema)
    (pointFree : Field.PointFree fields) (hrow : document.toRow schema = .ok row)
    (declared : field.DeclaredIn fields) (hvector : field.isVector = false)
    {operands : List Operand} (hne : operands ≠ []) {p : Predicate}
    (hp : Predicate.ofFilter (.comparison field.text .isIn (.list operands)) = .ok p) :
    (∃ q, Predicate.ofFilter (.combination .or
        (operands.map fun operand => .comparison field.text .eq operand)) = .ok q ∧
      p.selects row = q.selects row) ∧
    ∃ denied negation,
      Predicate.ofFilter (.comparison field.text .notIn (.list operands)) = .ok denied ∧
      Predicate.ofFilter (.combination .not
        [.comparison field.text .isIn (.list operands)]) = .ok negation ∧
      denied.evaluate row = negation.evaluate row := by
  obtain ⟨canonical, hcanonical, -⟩ := Schema.isTable_ofMetadata hschema
  have hparse := parse_text hcanonical pointFree declared
  have hdecides := decides_toRow hschema hrow declared
  have htarget := (column_target hvector declared).2
  have hp' := hp
  rw [Predicate.ofFilter, Predicate.ofComparison_list hparse htarget (Or.inl rfl) hne,
    map_eq_ok_iff] at hp'
  obtain ⟨literals, hliterals, rfl⟩ := hp'
  refine ⟨⟨_, Predicate.ofFilter_equalities hparse htarget hne
    (Operand.members_of_members hliterals .eq), Predicate.selects_membership hdecides literals⟩,
    _, _, ?_, ?_, Predicate.evaluate_denied hdecides literals⟩
  · rw [Predicate.ofFilter, Predicate.ofComparison_list hparse htarget (Or.inr rfl) hne,
      Operand.members_of_members hliterals .notIn]
    rfl
  · rw [Predicate.ofFilter_combination (List.cons_ne_nil _ _), List.mapM_cons, hp]
    rfl

/-- A number and the stored date before a text that is no date, and the same date after the text. -/
theorem membership_agrees_dates :
    ∃ schema row, Schema.ofMetadata [.plain "due" (.timestamp .second none) true] 2 = .ok schema ∧
      Document.toRow ⟨"a", none, none, none, none,
        ⟨[("due", .timestamp ⟨0, by decide, by decide⟩)]⟩, none⟩ schema = .ok row ∧
      (∃ q, Predicate.ofFilter (.combination .or
          ([.int 1, .timestamp ⟨0, by decide, by decide⟩, .string "soon"].map fun operand =>
            .comparison (DocumentField.metadata ["due"]).text .eq operand)) = .ok q ∧
        q.selects row = .ok true) ∧
      ∃ q, Predicate.ofFilter (.combination .or
          ([.string "soon", .timestamp ⟨0, by decide, by decide⟩].map fun operand =>
            .comparison (DocumentField.metadata ["due"]).text .eq operand)) = .ok q ∧
        q.selects row = .error (.filter (.notDate "soon")) := by
  have pointFree : Field.PointFree [.plain "due" (.timestamp .second none) true] := by
    intro names declares
    cases names with
    | nil => exact absurd declares (DataType.not_declares_nil _)
    | cons first names =>
      obtain ⟨_, field, hfields, hfield, rfl, hrest⟩ := declares.exists_field
      cases hfields
      rw [Field.mem_declared, List.mem_singleton] at hfield
      obtain ⟨rfl, -⟩ := hfield
      rcases hrest with rfl | inner
      · decide
      · obtain ⟨_, hleaf⟩ := inner.exists_fields
        cases hleaf
  have due : FieldOf.plain "due" (.timestamp .second none) true ∈
      Field.declared [.plain "due" (.timestamp .second none) true] := by
    decide
  have declared : DeclaredIn [.plain "due" (.timestamp .second none) true]
      (.metadata ["due"]) := .here due
  refine ⟨_, _, rfl, rfl, ?_, ?_⟩
  · obtain ⟨q, hq, hselects⟩ := (@membership_agrees ⟨"a", none, none, none, none,
      ⟨[("due", .timestamp ⟨0, by decide, by decide⟩)]⟩, none⟩ _ (.metadata ["due"]) _ 2 _ rfl
      pointFree rfl declared rfl [.int 1, .timestamp ⟨0, by decide, by decide⟩, .string "soon"]
      (List.cons_ne_nil _ _) _ rfl).1
    exact ⟨q, hq, hselects.symm.trans rfl⟩
  · obtain ⟨q, hq, hselects⟩ := (@membership_agrees ⟨"a", none, none, none, none,
      ⟨[("due", .timestamp ⟨0, by decide, by decide⟩)]⟩, none⟩ _ (.metadata ["due"]) _ 2 _ rfl
      pointFree rfl declared rfl [.string "soon", .timestamp ⟨0, by decide, by decide⟩]
      (List.cons_ne_nil _ _) _ rfl).1
    exact ⟨q, hq, hselects.symm.trans rfl⟩

end DocumentField

end DocumentStore
