import DocumentStore.Predicate.OfFilter
import DocumentStore.Proofs.Outcome

/-!
# What comparisons become

The predicate of a comparison, or the cause why there is none, by the operator and the kind of its
operand. Whatever is said of the predicates of comparisons is said once for each of these kinds.
-/

set_option autoImplicit false

namespace DocumentStore

/-- Only the null operand is null. -/
theorem Operand.isNull_iff (operand : Operand) : operand.isNull = true ↔ operand = .null := by
  cases operand <;> simp [isNull]

namespace Predicate

/-- What a comparison of a field with the given target becomes. -/
inductive Lowering (field : String) (target : FilterTarget) :
    Comparator → Operand → Except Error Predicate → Prop where
  | vector {comparator : Comparator} {operand : Operand} (htarget : target = .vector)
      (hnull : operand.isNull = false) :
    Lowering field target comparator operand (.error (.filter (.vectorComparison field)))
  | absence : Lowering field target .eq .null (.ok target.absence)
  | presence : Lowering field target .notEq .null (.ok target.presence)
  | unordered {comparator : Comparator} (hordering : comparator.isOrdering = true) :
    Lowering field target comparator .null (.ok (.constant false))
  | equality {comparator : Comparator} {operand : Operand} (relation : Relation)
      (plain : target ≠ .vector) (hnull : operand.isNull = false)
      (hequality : comparator = .eq ∨ comparator = .notEq)
      (hrelation : comparator.relation = .ok relation) :
    Lowering field target comparator operand
      ((operand.scalar field comparator).map (gated target relation))
  | ordering {comparator : Comparator} {operand : Operand} (relation : Relation)
      (plain : target ≠ .vector) (hnull : operand.isNull = false)
      (hordering : comparator.isOrdering = true) (hrelation : comparator.relation = .ok relation) :
    Lowering field target comparator operand
      ((operand.orderedScalar field comparator).map (gated target relation))
  | emptyList {comparator : Comparator} (plain : target ≠ .vector)
      (hmembership : comparator = .isIn ∨ comparator = .notIn) :
    Lowering field target comparator (.list []) (.ok (.constant (comparator = .notIn)))
  | list {comparator : Comparator} {operands : List Operand} (plain : target ≠ .vector)
      (hne : operands ≠ []) (hmembership : comparator = .isIn ∨ comparator = .notIn) :
    Lowering field target comparator (.list operands)
      ((Operand.members field comparator operands).map fun literals =>
        membership target literals (comparator = .notIn))
  | noList {comparator : Comparator} {operand : Operand}
      (hlist : ∀ operands, operand ≠ .list operands)
      (hmembership : comparator = .isIn ∨ comparator = .notIn) :
    Lowering field target comparator operand
      (.error (.filter (.listExpected field comparator.text operand.kind)))

/-- A comparison of a field that has a target becomes what is said of it. -/
theorem lowering_ofComparison {field : String} {target : FilterTarget}
    (hparse : FilterTarget.parse field = .ok target) (comparator : Comparator) (operand : Operand) :
    Lowering field target comparator operand (ofComparison field comparator operand) := by
  unfold ofComparison
  rw [hparse, ok_bind]
  by_cases hnull : operand.isNull = true
  · rw [(Operand.isNull_iff operand).mp hnull, if_neg (by simp [Operand.isNull])]
    cases comparator with
    | eq => exact .absence
    | notEq => exact .presence
    | greater | greaterEq | less | lessEq => exact .unordered rfl
    | isIn | notIn => exact .noList (by simp) (by simp)
  have hsome : operand.isNull = false := by simpa using hnull
  by_cases htarget : target = .vector
  · rw [if_pos ⟨htarget, by simp [hsome]⟩]
    exact .vector htarget hsome
  rw [if_neg fun h => htarget h.1]
  simp only [hsome, Bool.false_eq_true, if_false]
  cases comparator with
  | eq | notEq =>
    dsimp only
    rw [bind_pure_eq_map]
    exact .equality _ htarget hsome (by simp) rfl
  | greater | greaterEq | less | lessEq =>
    simp only [Comparator.relation, ok_bind]
    rw [bind_pure_eq_map]
    exact .ordering _ htarget hsome rfl rfl
  | isIn | notIn =>
    dsimp only
    split
    · exact .emptyList htarget (by simp)
    · next hne =>
      rw [bind_pure_eq_map]
      exact .list htarget hne (by simp)
    · next hlist => exact .noList hlist (by simp)

end Predicate

end DocumentStore
