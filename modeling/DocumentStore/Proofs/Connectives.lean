import DocumentStore.Predicate.Evaluation
import DocumentStore.Proofs.Outcome

/-!
# Conjunctions and disjunctions of parts

Some parts of a conjunction may be taken together as one, or such a one taken apart, without any
effect on its value or on its errors, as no part is looked at twice or in another order. A disjunction
is the opposite of the conjunction of the opposite parts, which carries this over to it. So putting a
condition before another one makes the two false where the condition is, and leaves the other one as
it is where the condition is true.
-/

set_option autoImplicit false

namespace DocumentStore.Predicate

/-! ## Predicates by induction -/

/-- The predicates that a predicate joins or denies. -/
def inner : Predicate → List Predicate
  | .and parts => parts
  | .or parts => parts
  | .not part => [part]
  | _ => []

section Induction

variable {P : Predicate → Prop}

mutual

/-- A property of predicates holds of all of them when it holds of each whose inner predicates all
have it. -/
theorem inner_induction (step : ∀ p : Predicate, (∀ q ∈ p.inner, P q) → P p) :
    ∀ p : Predicate, P p
  | .and parts => step _ (all_inner_induction step parts)
  | .or parts => step _ (all_inner_induction step parts)
  | .not part => step _ fun _ h => List.mem_singleton.mp h ▸ inner_induction step part
  | .constant _ | .isNull _ | .isNotNull _ | .compare _ _ _ | .inList _ _ _ =>
    step _ fun _ h => absurd h List.not_mem_nil

/-- The induction over predicates, for the parts of a connective. -/
theorem all_inner_induction (step : ∀ p : Predicate, (∀ q ∈ p.inner, P q) → P p) :
    ∀ parts : List Predicate, ∀ q ∈ parts, P q
  | [], _, h => absurd h List.not_mem_nil
  | first :: rest, q, h => by
    rcases List.mem_cons.mp h with heq | h
    · exact heq ▸ inner_induction step first
    · exact all_inner_induction step rest q h

end

end Induction

variable {row : Row} {parts : List Predicate}

/-! ## Conjunctions -/

/-- A conjunction depends on its parts only through what they evaluate to. -/
theorem evaluateAll_congr {row' : Row} {parts' : List Predicate}
    (h : List.Forall₂ (fun part part' => evaluate row part = evaluate row' part') parts parts') :
    evaluateAll row parts = evaluateAll row' parts' := by
  induction h with
  | nil => rfl
  | cons hpart _ ih => rw [evaluateAll, evaluateAll, hpart, ih]

/-- A conjunction of one part is that part. -/
theorem evaluateAll_singleton (part : Predicate) :
    evaluateAll row [part] = evaluate row part := by
  rw [evaluateAll]
  cases evaluate row part with
  | error e => rfl
  | ok value => rcases value with _ | _ | _ <;> rfl

/-- A predicate has the value of the conjunction of its conjuncts. -/
theorem evaluateAll_conjuncts (p : Predicate) : evaluateAll row p.conjuncts = evaluate row p := by
  cases p with
  | and parts => rw [conjuncts, evaluate]
  | _ => exact evaluateAll_singleton _

/-- The first parts of a conjunction may be taken together. -/
theorem evaluateAll_append (parts rest : List Predicate) :
    evaluateAll row (parts ++ rest) = evaluateAll row (and parts :: rest) := by
  induction parts with
  | nil => rw [List.nil_append, evaluateAll, evaluate, evaluateAll, ok_bind]
  | cons part others ih =>
    rw [evaluateAll, evaluate] at ih
    rw [List.cons_append, evaluateAll, evaluateAll, evaluate, evaluateAll, ih]
    cases evaluate row part with
    | error e => rfl
    | ok value =>
      rcases value with _ | _ | _
      -- after a part without value, the others only decide whether the whole is false
      · simp only [ok_bind]
        cases evaluateAll row others with
        | error e => rfl
        | ok tail =>
          rcases tail with _ | _ | _
          · simp only [ok_bind]
            cases evaluateAll row rest with
            | error e => rfl
            | ok last => rcases last with _ | _ | _ <;> rfl
          · rfl
          · rfl
      · rfl
      · rfl

/-- A conjunction may be flattened. -/
theorem evaluateAll_flatMap_conjuncts (parts : List Predicate) :
    evaluateAll row (parts.flatMap conjuncts) = evaluateAll row parts := by
  induction parts with
  | nil => rfl
  | cons part rest ih =>
    rw [List.flatMap_cons, evaluateAll_append, evaluateAll, evaluate, evaluateAll_conjuncts, ih,
      evaluateAll]

/-- Taking conjunctions among the parts of a conjunction apart has no effect. -/
theorem evaluate_allOf (parts : List Predicate) :
    evaluate row (allOf parts) = evaluate row (and parts) := by
  unfold allOf
  rw [evaluate, evaluate, evaluateAll_flatMap_conjuncts]

/-- A false part in front decides a conjunction. -/
theorem evaluate_allOf_of_false {p q : Predicate} (h : evaluate row p = .ok (some false)) :
    evaluate row (allOf [p, q]) = .ok (some false) := by
  rw [evaluate_allOf, evaluate, evaluateAll, h]
  rfl

/-- A true part in front leaves a conjunction to the other. -/
theorem evaluate_allOf_of_true {p q : Predicate} (h : evaluate row p = .ok (some true)) :
    evaluate row (allOf [p, q]) = evaluate row q := by
  rw [evaluate_allOf, evaluate, evaluateAll, h]
  exact evaluateAll_singleton q

/-- A conjunction fails as the first of its parts that fails before a false one. -/
theorem evaluateAll_eq_error_iff (parts : List Predicate) (e : Error) :
    evaluateAll row parts = .error e ↔
      ∃ before part after, parts = before ++ part :: after ∧
        (∀ other ∈ before, ∃ value, evaluate row other = .ok value ∧ ¬value = some false) ∧
        evaluate row part = .error e := by
  refine eq_error_iff_first (evaluateAll row) (by simp [evaluateAll]) ?_ parts
  intro part rest
  rw [evaluateAll, bind_eq_error_iff]
  refine or_congr_right (exists_congr fun value => and_congr_right fun _ => ?_)
  rcases value with _ | _ | _
  · rw [bind_eq_error_iff, and_iff_right (by simp)]
    refine or_iff_left ?_
    rintro ⟨tail, -, h⟩
    rcases tail with _ | _ | _ <;> cases h
  · simp [pure_eq_ok]
  · simp

/-! ## Disjunctions -/

/-- The opposite of a truth value that need not be known. -/
def opposite (value : Option Bool) : Option Bool := value.map (! ·)

/-- The opposite of the opposite is the value itself. -/
theorem opposite_opposite (value : Option Bool) : opposite (opposite value) = value := by
  rcases value with _ | _ | _ <;> rfl

/-- A negation has the opposite value. -/
theorem evaluate_not (p : Predicate) : evaluate row (not p) = (evaluate row p).map opposite := by
  rw [evaluate]
  exact bind_pure_eq_map _ _

/-- A double negation has the value itself. -/
theorem evaluate_not_not (p : Predicate) : evaluate row (not (not p)) = evaluate row p := by
  rw [evaluate_not, evaluate_not]
  cases evaluate row p with
  | error e => rfl
  | ok value => exact congrArg Except.ok (opposite_opposite value)

/-- A disjunction is the opposite of the conjunction of the opposite parts; both come to the same
errors and stop at the same part. -/
theorem evaluateAny_eq_opposite (parts : List Predicate) :
    evaluateAny row parts = (evaluateAll row (parts.map not)).map opposite := by
  induction parts with
  | nil => rfl
  | cons part rest ih =>
    rw [List.map_cons, evaluateAny, evaluateAll, evaluate_not, ih]
    cases evaluate row part with
    | error e => rfl
    | ok value =>
      rcases value with _ | _ | _
      · show (evaluateAll row (rest.map not)).map opposite >>= _ =
          Except.map opposite (evaluateAll row (rest.map not) >>= _)
        cases evaluateAll row (rest.map not) with
        | error e => rfl
        | ok tail => rcases tail with _ | _ | _ <;> rfl
      · rfl
      · rfl

/-- Disjunctions of parts with the same values have the same value. -/
theorem evaluateAny_congr {row' : Row} {parts' : List Predicate}
    (h : List.Forall₂ (fun part part' => evaluate row part = evaluate row' part') parts parts') :
    evaluateAny row parts = evaluateAny row' parts' := by
  induction h with
  | nil => rfl
  | cons hpart _ ih => rw [evaluateAny, evaluateAny, hpart, ih]

/-- A disjunction of one part is that part. -/
theorem evaluateAny_singleton (part : Predicate) :
    evaluateAny row [part] = evaluate row part := by
  rw [evaluateAny_eq_opposite, List.map_singleton, evaluateAll_singleton, ← evaluate_not,
    evaluate_not_not]

/-- A predicate has the value of the disjunction of its disjuncts. -/
theorem evaluateAny_disjuncts (p : Predicate) : evaluateAny row p.disjuncts = evaluate row p := by
  cases p with
  | or parts => rw [disjuncts, evaluate]
  | _ => exact evaluateAny_singleton _

/-- The opposite of a disjunction is the conjunction of the opposite parts. -/
theorem evaluate_not_or (parts : List Predicate) :
    evaluate row (not (or parts)) = evaluate row (and (parts.map not)) := by
  rw [evaluate_not, evaluate, evaluate, evaluateAny_eq_opposite]
  cases evaluateAll row (parts.map not) with
  | error e => rfl
  | ok value => exact congrArg Except.ok (opposite_opposite value)

/-- The opposite of a conjunction is the disjunction of the opposite parts. -/
theorem evaluate_not_and (parts : List Predicate) :
    evaluate row (not (and parts)) = evaluate row (or (parts.map not)) := by
  have hparts : evaluateAll row ((parts.map not).map not) = evaluateAll row parts := by
    refine evaluateAll_congr ?_
    rw [List.map_map, List.forall₂_map_left_iff]
    exact List.forall₂_same.mpr fun part _ => evaluate_not_not part
  rw [evaluate_not, evaluate, evaluate, evaluateAny_eq_opposite, hparts]

/-- The first parts of a disjunction may be taken together. -/
theorem evaluateAny_append (parts rest : List Predicate) :
    evaluateAny row (parts ++ rest) = evaluateAny row (or parts :: rest) := by
  rw [evaluateAny_eq_opposite, evaluateAny_eq_opposite, List.map_append, List.map_cons,
    evaluateAll_append]
  exact congrArg _ (evaluateAll_congr
    (.cons (evaluate_not_or parts).symm (List.forall₂_same.mpr fun _ _ => rfl)))

/-- A disjunction may be flattened. -/
theorem evaluateAny_flatMap_disjuncts (parts : List Predicate) :
    evaluateAny row (parts.flatMap disjuncts) = evaluateAny row parts := by
  induction parts with
  | nil => rfl
  | cons part rest ih =>
    rw [List.flatMap_cons, evaluateAny_append, evaluateAny, evaluate, evaluateAny_disjuncts, ih,
      evaluateAny]

/-- Taking disjunctions among the parts of a disjunction apart has no effect. -/
theorem evaluate_anyOf (parts : List Predicate) :
    evaluate row (anyOf parts) = evaluate row (or parts) := by
  unfold anyOf
  rw [evaluate, evaluate, evaluateAny_flatMap_disjuncts]

/-- A true part in front decides a disjunction. -/
theorem evaluate_anyOf_of_true {p q : Predicate} (h : evaluate row p = .ok (some true)) :
    evaluate row (anyOf [p, q]) = .ok (some true) := by
  rw [evaluate_anyOf, evaluate, evaluateAny, h]
  rfl

/-- A false part in front leaves a disjunction to the other. -/
theorem evaluate_anyOf_of_false {p q : Predicate} (h : evaluate row p = .ok (some false)) :
    evaluate row (anyOf [p, q]) = evaluate row q := by
  rw [evaluate_anyOf, evaluate, evaluateAny, h]
  exact evaluateAny_singleton q

/-- A disjunction fails as the first of its parts that fails before a true one. -/
theorem evaluateAny_eq_error_iff (parts : List Predicate) (e : Error) :
    evaluateAny row parts = .error e ↔
      ∃ before part after, parts = before ++ part :: after ∧
        (∀ other ∈ before, ∃ value, evaluate row other = .ok value ∧ ¬value = some true) ∧
        evaluate row part = .error e := by
  refine eq_error_iff_first (evaluateAny row) (by simp [evaluateAny]) ?_ parts
  intro part rest
  rw [evaluateAny, bind_eq_error_iff]
  refine or_congr_right (exists_congr fun value => and_congr_right fun _ => ?_)
  rcases value with _ | _ | _
  · rw [bind_eq_error_iff, and_iff_right (by simp)]
    refine or_iff_left ?_
    rintro ⟨tail, -, h⟩
    rcases tail with _ | _ | _ <;> cases h
  · simp
  · simp [pure_eq_ok]

end DocumentStore.Predicate
