import DocumentStore.Proofs.Outcome

/-!
# Runs that agree

Two runs agree when they fail with the same error or give related results; whatever goes on alike
from related results is then the same. Two runs are alike when both give related results or both
fail, be it with different errors. This is what remains when the parts of a run come in another order,
because another part may then be the first to fail.
-/

set_option autoImplicit false

namespace DocumentStore

variable {ε α β γ δ : Type} {R : α → β → Prop} {S : γ → δ → Prop}

/-! ## Values that may be missing -/

section Missing

variable {T : α → α → Prop}

/-- Optional values are related to themselves if all values are. -/
theorem optionRel_refl (h : ∀ a, T a a) (value : Option α) : Option.Rel T value value := by
  cases value with
  | none => exact .none
  | some a => exact .some (h a)

/-- Optional values are related over a third one if all values are. -/
theorem optionRel_trans (hcomp : ∀ a b c, T a b → T b c → T a c) {first second third : Option α}
    (h : Option.Rel T first second) (h' : Option.Rel T second third) :
    Option.Rel T first third := by
  cases h with
  | none => exact h'
  | some h =>
    cases h' with
    | some h' => exact .some (hcomp _ _ _ h h')

end Missing

/-! ## The same outcome -/

/-- Both runs give related results, or both fail with one error. -/
inductive Agree (R : α → β → Prop) : Except ε α → Except ε β → Prop
  | ok {a : α} {b : β} (h : R a b) : Agree R (.ok a) (.ok b)
  | error (e : ε) : Agree R (.error e) (.error e)

namespace Agree

variable {x : Except ε α} {y : Except ε β}

/-- What goes on alike from related results has one outcome. -/
theorem bind_eq (h : Agree R x y) {f : α → Except ε γ} {g : β → Except ε γ}
    (hfg : ∀ a b, R a b → f a = g b) : (x >>= f) = (y >>= g) := by
  cases h with
  | ok h => exact hfg _ _ h
  | error e => rfl

/-- Agreement is kept by continuations that agree on related results. -/
theorem bind (h : Agree R x y) {f : α → Except ε γ} {g : β → Except ε δ}
    (hfg : ∀ a b, R a b → Agree S (f a) (g b)) : Agree S (x >>= f) (y >>= g) := by
  cases h with
  | ok h => exact hfg _ _ h
  | error e => exact .error e

/-- Runs that agree on equal results are equal. -/
theorem eq {x y : Except ε α} (h : Agree Eq x y) : x = y := by
  cases h with
  | ok h => rw [h]
  | error e => rfl

end Agree

/-! ## A result or none -/

/-- Both runs give related results, or both fail. -/
inductive Alike (R : α → β → Prop) : Except ε α → Except ε β → Prop
  | ok {a : α} {b : β} (h : R a b) : Alike R (.ok a) (.ok b)
  | error (e e' : ε) : Alike R (.error e) (.error e')

namespace Alike

variable {x : Except ε α} {y : Except ε β}

/-- A run is like itself. -/
theorem refl {R : α → α → Prop} (h : ∀ a, R a a) (x : Except ε α) : Alike R x x := by
  cases x with
  | ok a => exact .ok (h a)
  | error e => exact .error e e

/-- The relation of the results may be weakened where both runs succeed. -/
theorem imp {R' : α → β → Prop} (h : Alike R x y)
    (himp : ∀ a b, x = .ok a → y = .ok b → R a b → R' a b) : Alike R' x y := by
  cases h with
  | ok h => exact .ok (himp _ _ rfl rfl h)
  | error e e' => exact .error e e'

/-- Likeness passes on over a third run. -/
theorem trans {T : β → γ → Prop} {U : α → γ → Prop} {z : Except ε γ} (h : Alike R x y)
    (h' : Alike T y z) (hcomp : ∀ a b c, R a b → T b c → U a c) : Alike U x z := by
  cases h with
  | ok h =>
    cases h' with
    | ok h' => exact .ok (hcomp _ _ _ h h')
  | error e =>
    cases h' with
    | error _ e' => exact .error e e'

/-- Likeness is kept by continuations that are alike on related results. -/
theorem bind (h : Alike R x y) {f : α → Except ε γ} {g : β → Except ε δ}
    (hfg : ∀ a b, x = .ok a → y = .ok b → R a b → Alike S (f a) (g b)) :
    Alike S (x >>= f) (y >>= g) := by
  cases h with
  | ok h => exact hfg _ _ rfl rfl h
  | error e e' => exact .error e e'

/-- What goes on alike from equal results is alike. -/
theorem bind_right (x : Except ε α) {f : α → Except ε γ} {g : α → Except ε δ}
    (hfg : ∀ a, Alike S (f a) (g a)) : Alike S (x >>= f) (x >>= g) := by
  cases x with
  | ok a => exact hfg a
  | error e => exact .error e e

/-- Likeness is kept when results are mapped to related ones. -/
theorem map (h : Alike R x y) {f : α → γ} {g : β → δ}
    (hfg : ∀ a b, x = .ok a → y = .ok b → R a b → S (f a) (g b)) :
    Alike S (x.map f) (y.map g) := by
  cases h with
  | ok h => exact .ok (hfg _ _ rfl rfl h)
  | error e e' => exact .error e e'

/-- An injective map of the results hides no difference. -/
theorem of_map {f : α → β} (hf : f.Injective) {x y : Except ε α}
    (h : Alike Eq (x.map f) (y.map f)) : Alike Eq x y := by
  cases x with
  | error e =>
    cases y with
    | error e' => exact .error e e'
    | ok b => cases h
  | ok a =>
    cases y with
    | error e' => cases h
    | ok b =>
      generalize hleft : Except.map f (.ok a : Except ε α) = left at h
      generalize hright : Except.map f (.ok b : Except ε α) = right at h
      cases h with
      | ok h =>
        cases hleft
        cases hright
        exact .ok (hf h)
      | error => cases hleft

/-- Runs that are alike succeed together, with related results, or fail together. -/
theorem cases (h : Alike R x y) :
    (∃ a b, x = .ok a ∧ y = .ok b ∧ R a b) ∨ ∃ e e', x = .error e ∧ y = .error e' := by
  cases h with
  | ok h => exact Or.inl ⟨_, _, rfl, rfl, h⟩
  | error e e' => exact Or.inr ⟨e, e', rfl, rfl⟩

/-- Alike runs with equal results have the same results. -/
theorem eq_ok_iff {x y : Except ε α} (h : Alike Eq x y) (a : α) : x = .ok a ↔ y = .ok a := by
  cases h with
  | ok h => rw [h]
  | error e e' => exact iff_of_false (by simp) (by simp)

/-- The order of a list does not matter to whether runs over it have results, and the results come in
the order of the list. -/
theorem mapM_perm {f : α → Except ε γ} {left right : List α} (h : left.Perm right) :
    Alike List.Perm (left.mapM f) (right.mapM f) := by
  induction h with
  | nil => exact .ok (List.Perm.refl _)
  | cons a _ ih =>
    rw [List.mapM_cons, List.mapM_cons]
    refine (refl (fun _ => rfl) (f a)).bind fun b b' _ _ hb => ih.bind fun _ _ _ _ hrest => ?_
    subst hb
    exact .ok (hrest.cons b)
  | swap a b rest =>
    rw [List.mapM_cons, List.mapM_cons, List.mapM_cons, List.mapM_cons]
    cases f a <;> cases f b <;> cases rest.mapM f
    case ok.ok.ok => exact .ok (List.Perm.swap ..)
    all_goals exact .error _ _
  | trans _ _ ih ih' => exact ih.trans ih' fun _ _ _ => List.Perm.trans

/-- Runs over two lists that differ in one member differ in one result. -/
theorem mapM_replaced {f g : α → Except ε γ} {T : γ → γ → Prop} {before after : List α} {a b : α}
    (hab : Alike T (f a) (g b)) (hbefore : ∀ c ∈ before, f c = g c) (hafter : ∀ c ∈ after, f c = g c) :
    Alike (fun left right => ∃ front x y back, left = front ++ x :: back ∧
        right = front ++ y :: back ∧ T x y)
      ((before ++ a :: after).mapM f) ((before ++ b :: after).mapM g) := by
  rw [List.mapM_append, List.mapM_append, mapM_congr_mem f g before hbefore, List.mapM_cons,
    List.mapM_cons, mapM_congr_mem f g after hafter]
  generalize f a = left at hab ⊢
  generalize g b = right at hab ⊢
  cases before.mapM g with
  | error e => exact .error e e
  | ok front =>
    cases hab with
    | error e e' => exact .error e e'
    | @ok x y hxy =>
      cases after.mapM g with
      | error e => exact .error e e
      | ok back => exact .ok ⟨front, x, y, back, rfl, rfl, hxy⟩

end Alike

end DocumentStore
