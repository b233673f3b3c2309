import DocumentStore.Proofs.Connectives

/-!
# Three-valued logic

A conjunction of parts that can all be evaluated has the strong Kleene value: false if one of them is
false, otherwise none if one of them has none, otherwise true. So only which values occur among the
parts matters, and neither their order nor repetitions nor groups. Where a part fails, groups and the
laws of De Morgan still change nothing, as they keep the order in which the parts are looked at; then
the order itself matters, since the first part that decides or fails is the last one that is looked at.
-/

set_option autoImplicit false

namespace DocumentStore.Predicate

variable {row : Row} {parts members : List Predicate} {values others : List (Option Bool)}

/-! ## Values of many parts -/

/-- The strong Kleene conjunction: one false value decides it, and otherwise one unknown value leaves
it unknown. -/
def conjunction (values : List (Option Bool)) : Option Bool :=
  if some false ∈ values then some false
  else if none ∈ values then none
  else some true

/-- The strong Kleene disjunction: one true value decides it, and otherwise one unknown value leaves
it unknown. -/
def disjunction (values : List (Option Bool)) : Option Bool :=
  if some true ∈ values then some true
  else if none ∈ values then none
  else some false

/-- A conjunction depends on which values there are, not on how often or in which order. -/
theorem conjunction_congr (h : ∀ value, value ∈ values ↔ value ∈ others) :
    conjunction values = conjunction others := by
  simp only [conjunction, h]

/-- A disjunction depends on which values there are, not on how often or in which order. -/
theorem disjunction_congr (h : ∀ value, value ∈ values ↔ value ∈ others) :
    disjunction values = disjunction others := by
  simp only [disjunction, h]

/-- Opposites are among the opposites of the values. -/
theorem mem_map_opposite (value : Option Bool) :
    opposite value ∈ values.map opposite ↔ value ∈ values := by
  refine List.mem_map_of_injective fun a b h => ?_
  rw [← opposite_opposite a, h, opposite_opposite]

/-- De Morgan's law for lists of values. -/
theorem disjunction_eq_opposite (values : List (Option Bool)) :
    disjunction values = opposite (conjunction (values.map opposite)) := by
  have htrue : some false ∈ values.map opposite ↔ some true ∈ values := mem_map_opposite (some true)
  have hnone : none ∈ values.map opposite ↔ none ∈ values := mem_map_opposite none
  unfold disjunction conjunction
  rw [if_congr htrue rfl rfl, if_congr hnone rfl rfl]
  split
  · rfl
  · split <;> rfl

/-- The parts evaluate to the values, one by one. -/
abbrev Evaluate (row : Row) (parts : List Predicate) (values : List (Option Bool)) : Prop :=
  List.Forall₂ (fun part value => evaluate row part = .ok value) parts values

namespace Evaluate

/-- A conjunction has the value of the conjunction of its parts' values. -/
theorem all (h : Evaluate row parts values) : evaluateAll row parts = .ok (conjunction values) := by
  induction h with
  | nil => rfl
  | @cons part value rest tail hpart _ ih =>
    rw [evaluateAll, hpart, ok_bind]
    rcases value with _ | _ | _
    · rw [ih, ok_bind]
      by_cases hfalse : some false ∈ tail
      · simp [conjunction, hfalse, pure_eq_ok]
      · by_cases hnone : none ∈ tail <;> simp [conjunction, hfalse, hnone, pure_eq_ok]
    · simp [conjunction, pure_eq_ok]
    · simp [conjunction, ih]

/-- A disjunction has the value of the disjunction of its parts' values. -/
theorem any (h : Evaluate row parts values) : evaluateAny row parts = .ok (disjunction values) := by
  have hopposite : Evaluate row (parts.map not) (values.map opposite) := by
    rw [Evaluate, List.forall₂_map_left_iff, List.forall₂_map_right_iff]
    refine h.imp fun part value hvalue => ?_
    rw [evaluate_not, hvalue]
    rfl
  rw [evaluateAny_eq_opposite, hopposite.all, disjunction_eq_opposite]
  rfl

/-- The values are those of the parts. -/
theorem mem_iff (h : Evaluate row parts values) (value : Option Bool) :
    value ∈ values ↔ ∃ part ∈ parts, evaluate row part = .ok value := by
  constructor
  · exact exists_related h.flip
  · rintro ⟨part, hpart, hvalue⟩
    obtain ⟨held, hheld, heq⟩ := exists_related h hpart
    rw [hvalue, Except.ok.injEq] at heq
    rwa [heq]

/-- Parts in another order, and with others of them repeated, evaluate to the same values. -/
theorem exists_of_same (h : Evaluate row parts values)
    (same : ∀ part, part ∈ members ↔ part ∈ parts) :
    ∃ others, Evaluate row members others ∧ ∀ value, value ∈ others ↔ value ∈ values := by
  have hvalues : ∀ part ∈ members, ∃ value, evaluate row part = .ok value := by
    intro part hpart
    obtain ⟨value, -, hvalue⟩ := exists_related h ((same part).mp hpart)
    exact ⟨value, hvalue⟩
  obtain ⟨others, hothers⟩ := (mapM_isOk_iff (evaluate row) members).mpr hvalues
  have hothers : Evaluate row members others := (mapM_eq_ok_iff _ _ _).mp hothers
  refine ⟨others, hothers, fun value => ?_⟩
  rw [hothers.mem_iff, h.mem_iff]
  simp only [same]

end Evaluate

/-! ## Groups -/

/-- The predicate joins the parts in their order, in groups of any depth, or is the only one. -/
inductive Joins (join : List Predicate → Predicate) : Predicate → List Predicate → Prop
  | part (p : Predicate) : Joins join p [p]
  | empty : Joins join (join []) []
  | group {first : Predicate} {rest parts others : List Predicate} (head : Joins join first parts)
      (tail : Joins join (join rest) others) : Joins join (join (first :: rest)) (parts ++ others)

/-- Groups of a conjunction have no effect, on errors neither. -/
theorem Joins.evaluate_and {p : Predicate} (h : Joins and p parts) :
    evaluate row p = evaluate row (and parts) := by
  induction h with
  | part p => rw [evaluate, evaluateAll_singleton]
  | empty => rfl
  | @group first rest parts others _ _ ihHead ihTail =>
    rw [evaluate, evaluate] at ihTail
    rw [evaluate, evaluate, evaluateAll_append, evaluateAll, evaluateAll, ihHead, ihTail]

/-- Groups of a disjunction have no effect, on errors neither. -/
theorem Joins.evaluate_or {p : Predicate} (h : Joins or p parts) :
    evaluate row p = evaluate row (or parts) := by
  induction h with
  | part p => rw [evaluate, evaluateAny_singleton]
  | empty => rfl
  | @group first rest parts others _ _ ihHead ihTail =>
    rw [evaluate, evaluate] at ihTail
    rw [evaluate, evaluate, evaluateAny_append, evaluateAny, evaluateAny, ihHead, ihTail]

/-! ## Evaluation -/

/-- Parts that can be evaluated have their strong Kleene conjunction and disjunction, in whatever
order, number and groups they are joined. For any parts, joining them with groups taken apart, and
turning a conjunction into a disjunction of opposites or the other way round, keeps value and error;
the error is that of the first part that fails before one that decides. -/
theorem evaluate_strongKleene (row : Row) (parts : List Predicate) :
    (∀ values, Evaluate row parts values →
      (and parts).evaluate row = .ok (conjunction values) ∧
      (or parts).evaluate row = .ok (disjunction values) ∧
      ∀ members, (∀ part, part ∈ members ↔ part ∈ parts) → ∀ p,
        (Joins and p members → p.evaluate row = (and parts).evaluate row) ∧
        (Joins or p members → p.evaluate row = (or parts).evaluate row)) ∧
    (allOf parts).evaluate row = (and parts).evaluate row ∧
    (anyOf parts).evaluate row = (or parts).evaluate row ∧
    (not (and parts)).evaluate row = (or (parts.map not)).evaluate row ∧
    (not (or parts)).evaluate row = (and (parts.map not)).evaluate row ∧
    (∀ e, (and parts).evaluate row = .error e ↔
      ∃ before part after, parts = before ++ part :: after ∧
        (∀ other ∈ before, ∃ value, other.evaluate row = .ok value ∧ value ≠ some false) ∧
        part.evaluate row = .error e) ∧
    (∀ e, (or parts).evaluate row = .error e ↔
      ∃ before part after, parts = before ++ part :: after ∧
        (∀ other ∈ before, ∃ value, other.evaluate row = .ok value ∧ value ≠ some true) ∧
        part.evaluate row = .error e) := by
  refine ⟨?_, evaluate_allOf parts, evaluate_anyOf parts, evaluate_not_and parts,
    evaluate_not_or parts, fun e => ?_, fun e => ?_⟩
  · intro values h
    refine ⟨by rw [evaluate, h.all], by rw [evaluate, h.any], fun members same p => ?_⟩
    obtain ⟨others, hothers, hsame⟩ := h.exists_of_same same
    constructor
    · intro hjoins
      rw [hjoins.evaluate_and, evaluate, evaluate, hothers.all, h.all, conjunction_congr hsame]
    · intro hjoins
      rw [hjoins.evaluate_or, evaluate, evaluate, hothers.any, h.any, disjunction_congr hsame]
  · rw [evaluate]
    exact evaluateAll_eq_error_iff parts e
  · rw [evaluate]
    exact evaluateAny_eq_error_iff parts e

/-- A comparison with a null and a constant, in their order and the other way round in groups. -/
theorem evaluate_strongKleene_unknown :
    ∃ (row : Row) (unknown : Predicate),
      (and [unknown, .constant true]).evaluate row = .ok none ∧
      (and [and [.constant true, unknown], unknown]).evaluate row = .ok none := by
  have hvalues : Evaluate ⟨[("a", .null)]⟩ [.compare ["a"] .eq (.int 1), .constant true]
      [none, some true] := .cons rfl (.cons rfl .nil)
  have hjoins : Joins and (and [and [.constant true, .compare ["a"] .eq (.int 1)],
      .compare ["a"] .eq (.int 1)])
      ([.constant true, .compare ["a"] .eq (.int 1)] ++ ([.compare ["a"] .eq (.int 1)] ++ [])) :=
    .group (.group (.part _) (.group (.part _) .empty)) (.group (.part _) .empty)
  obtain ⟨hand, -, hregrouped⟩ := (evaluate_strongKleene _ _).1 _ hvalues
  refine ⟨_, _, hand, ?_⟩
  rw [(hregrouped _ (fun part => ?_) _).1 hjoins]
  · exact hand
  · simp only [List.mem_append, List.mem_cons, List.not_mem_nil, or_false]
    tauto

end DocumentStore.Predicate
