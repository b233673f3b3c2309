import Mathlib.Data.List.Forall2

/-!
# Outcomes of operations that can fail

An operation that runs others one after the other succeeds when each of them does, and otherwise
fails as the first that fails. The lemmas open a successful or failed sequence, and a list of runs
of one operation, into the runs that it is made of.
-/

set_option autoImplicit false

namespace DocumentStore

variable {ε α β γ : Type}

/-- A sequence succeeds when both of its steps do. -/
theorem bind_eq_ok_iff (x : Except ε α) (f : α → Except ε β) (b : β) :
    (x >>= f) = .ok b ↔ ∃ a, x = .ok a ∧ f a = .ok b := by
  cases x with
  | error e => simp [bind, Except.bind]
  | ok a => simp [bind, Except.bind]

/-- A sequence fails when its first step does, or its second one after it. -/
theorem bind_eq_error_iff (x : Except ε α) (f : α → Except ε β) (e : ε) :
    (x >>= f) = .error e ↔ x = .error e ∨ ∃ a, x = .ok a ∧ f a = .error e := by
  cases x with
  | error e' => simp [bind, Except.bind]
  | ok a => simp [bind, Except.bind]

/-- A step that cannot fail does not decide whether there is a result. -/
theorem bind_isOk_iff (x : Except ε α) (f : α → Except ε β) (total : ∀ a, ∃ b, f a = .ok b) :
    (∃ b, (x >>= f) = .ok b) ↔ ∃ a, x = .ok a := by
  cases x with
  | error e => simp [bind, Except.bind]
  | ok a => simpa [bind, Except.bind] using total a

/-- What follows a result goes on with it. -/
theorem ok_bind (a : α) (f : α → Except ε β) : (Except.ok a >>= f) = f a := rfl

/-- What follows an error is not run. -/
theorem error_bind (e : ε) (f : α → Except ε β) : (Except.error e >>= f) = .error e := rfl

/-- Nothing is done to return a value. -/
theorem pure_eq_ok (a : α) : (pure a : Except ε α) = .ok a := rfl

/-- A step that only maps the result is a map. -/
theorem bind_pure_eq_map (x : Except ε α) (f : α → β) : (x >>= fun a => pure (f a)) = x.map f := by
  cases x <;> rfl

/-- A mapped run succeeds with the mapped result. -/
theorem map_eq_ok_iff (x : Except ε α) (f : α → β) (b : β) :
    x.map f = .ok b ↔ ∃ a, x = .ok a ∧ f a = b := by
  cases x with
  | error e => simp [Except.map]
  | ok a => simp [Except.map]

/-- A mapped run fails as the run does. -/
theorem map_eq_error_iff (x : Except ε α) (f : α → β) (e : ε) :
    x.map f = .error e ↔ x = .error e := by
  cases x with
  | error e' => simp [Except.map]
  | ok a => simp [Except.map]

/-- A mapped run succeeds when the run does. -/
theorem map_isOk_iff (x : Except ε α) (f : α → β) :
    (∃ b, x.map f = .ok b) ↔ ∃ a, x = .ok a := by
  cases x with
  | error e => simp [Except.map]
  | ok a => simp [Except.map]

/-- Runs of one operation over a list succeed together exactly when each of them does. -/
theorem mapM_eq_ok_iff (f : α → Except ε β) (inputs : List α) (results : List β) :
    inputs.mapM f = .ok results ↔ List.Forall₂ (fun a b => f a = .ok b) inputs results := by
  induction inputs generalizing results with
  | nil =>
    rw [List.mapM_nil, List.forall₂_nil_left_iff, pure_eq_ok, Except.ok.injEq]
    exact eq_comm
  | cons a rest ih =>
    rw [List.mapM_cons, bind_eq_ok_iff]
    constructor
    · rintro ⟨b, hb, h⟩
      obtain ⟨others, hothers, h⟩ := (bind_eq_ok_iff _ _ _).mp h
      cases h
      exact .cons hb ((ih others).mp hothers)
    · intro h
      cases h with
      | @cons _ b _ others hb hothers =>
        refine ⟨b, hb, ?_⟩
        rw [(ih others).mpr hothers]
        rfl

/-- Runs over a list that stop at a result which decides the whole fail exactly as the first run that
fails without a deciding one before it. -/
theorem eq_error_iff_first {run : α → Except ε β} {Decides : β → Prop}
    (whole : List α → Except ε γ) {e : ε} (nil : whole [] ≠ .error e)
    (cons : ∀ a rest, whole (a :: rest) = .error e ↔
      run a = .error e ∨ ∃ b, run a = .ok b ∧ ¬Decides b ∧ whole rest = .error e)
    (inputs : List α) : whole inputs = .error e ↔
      ∃ before a after, inputs = before ++ a :: after ∧
        (∀ x ∈ before, ∃ b, run x = .ok b ∧ ¬Decides b) ∧ run a = .error e := by
  induction inputs with
  | nil =>
    refine iff_of_false nil ?_
    rintro ⟨before, a, after, h, -⟩
    simp at h
  | cons first rest ih =>
    rw [cons, ih]
    constructor
    · rintro (h | ⟨b, hb, hopen, before, a, after, rfl, hbefore, h⟩)
      · exact ⟨[], first, rest, rfl, by simp, h⟩
      · refine ⟨first :: before, a, after, rfl, ?_, h⟩
        exact List.forall_mem_cons.mpr ⟨⟨b, hb, hopen⟩, hbefore⟩
    · rintro ⟨before, a, after, h, hbefore, ha⟩
      cases before with
      | nil =>
        cases h
        exact Or.inl ha
      | cons x before =>
        cases h
        obtain ⟨⟨b, hb, hopen⟩, hbefore⟩ := List.forall_mem_cons.mp hbefore
        exact Or.inr ⟨b, hb, hopen, before, a, after, rfl, hbefore, ha⟩

/-- Runs of one operation over a list fail together exactly as the first that fails. -/
theorem mapM_eq_error_iff (f : α → Except ε β) (inputs : List α) (e : ε) :
    inputs.mapM f = .error e ↔
      ∃ before a after, inputs = before ++ a :: after ∧
        (∀ x ∈ before, ∃ b, f x = .ok b) ∧ f a = .error e := by
  have hcons : ∀ a rest, (a :: rest).mapM f = .error e ↔
      f a = .error e ∨ ∃ b, f a = .ok b ∧ ¬False ∧ rest.mapM f = .error e := by
    intro a rest
    simp only [List.mapM_cons, bind_eq_error_iff, pure_eq_ok, reduceCtorEq, and_false,
      exists_false, or_false, not_false_eq_true, true_and]
  simpa using eq_error_iff_first (List.mapM f) (by simp [pure_eq_ok]) hcons inputs

/-- Each item of the left list is related to one of the right list. -/
theorem exists_related {R : α → β → Prop} {left : List α} {right : List β}
    (h : List.Forall₂ R left right) {a : α} (ha : a ∈ left) : ∃ b ∈ right, R a b := by
  induction h with
  | nil => cases ha
  | @cons x y left right hxy _ ih =>
    rcases List.mem_cons.mp ha with rfl | ha
    · exact ⟨y, List.mem_cons_self .., hxy⟩
    · obtain ⟨b, hb, hab⟩ := ih ha
      exact ⟨b, List.mem_cons_of_mem _ hb, hab⟩

/-- Runs of one operation over a list succeed together when each of them can. -/
theorem mapM_isOk_iff (f : α → Except ε β) (inputs : List α) :
    (∃ results, inputs.mapM f = .ok results) ↔ ∀ a ∈ inputs, ∃ b, f a = .ok b := by
  constructor
  · rintro ⟨results, h⟩ a ha
    obtain ⟨b, -, hb⟩ := exists_related ((mapM_eq_ok_iff f inputs results).mp h) ha
    exact ⟨b, hb⟩
  · intro h
    cases hm : inputs.mapM f with
    | ok results => exact ⟨results, rfl⟩
    | error e =>
      obtain ⟨before, a, after, rfl, -, ha⟩ := (mapM_eq_error_iff f inputs e).mp hm
      obtain ⟨b, hb⟩ := h a (by simp)
      rw [hb] at ha
      cases ha

/-- If each run has one possible result, under a condition, so have all of them together. -/
theorem mapM_eq_ok_iff_of_forall₂ {f : α → Except ε β} {Q : α → Prop} {inputs : List α}
    {results : List β} (h : List.Forall₂ (fun a b => ∀ b', f a = .ok b' ↔ b' = b ∧ Q a) inputs results)
    (others : List β) :
    inputs.mapM f = .ok others ↔ others = results ∧ ∀ a ∈ inputs, Q a := by
  induction h generalizing others with
  | nil =>
    rw [List.mapM_nil, pure_eq_ok, Except.ok.injEq]
    simp [eq_comm]
  | @cons a b inputs results hab _ ih =>
    rw [List.mapM_cons, bind_eq_ok_iff, List.forall_mem_cons]
    constructor
    · rintro ⟨b', hb', hrest⟩
      obtain ⟨rest, hrest, hpure⟩ := (bind_eq_ok_iff _ _ _).mp hrest
      obtain ⟨rfl, ha⟩ := (hab b').mp hb'
      obtain ⟨rfl, hinputs⟩ := (ih rest).mp hrest
      cases hpure
      exact ⟨rfl, ha, hinputs⟩
    · rintro ⟨rfl, ha, hinputs⟩
      refine ⟨b, (hab b).mpr ⟨rfl, ha⟩, ?_⟩
      rw [(ih results).mpr ⟨rfl, hinputs⟩]
      rfl

/-- Results may as well be mapped one by one. -/
theorem mapM_map_result (f : α → Except ε β) (g : β → γ) (inputs : List α) :
    (inputs.mapM fun a => (f a).map g) = (inputs.mapM f).map (List.map g) := by
  induction inputs with
  | nil => rfl
  | cons a rest ih =>
    rw [List.mapM_cons, List.mapM_cons, ih]
    cases f a with
    | error e => rfl
    | ok b => cases rest.mapM f <;> rfl

/-- A selection tests every input, fails as the first test that fails, and otherwise keeps the inputs
that passed. -/
theorem filterM_eq_map (test : α → Except ε Bool) (inputs : List α) :
    inputs.filterM test = (inputs.mapM test).map fun _ =>
      inputs.filter fun a => (test a).toOption.getD false := by
  -- what has been kept so far stands in front, the last one first
  have step : ∀ (inputs kept : List α), inputs.filterAuxM test kept =
      (inputs.mapM test).map fun _ =>
        (inputs.filter fun a => (test a).toOption.getD false).reverse ++ kept := by
    intro inputs
    induction inputs with
    | nil => exact fun kept => rfl
    | cons a rest ih =>
      intro kept
      rw [List.filterAuxM, List.mapM_cons]
      cases ha : test a with
      | error e => rfl
      | ok passed =>
        rw [ok_bind, ok_bind, ih]
        cases rest.mapM test with
        | error e => rfl
        | ok results =>
          cases passed <;> simp [Except.map, Except.toOption, ha, bind, Except.bind, pure, Except.pure]
  unfold List.filterM
  rw [step inputs []]
  cases inputs.mapM test with
  | error e => rfl
  | ok results => simp [Except.map, bind, Except.bind, pure, Except.pure]

/-- A test that fails nowhere keeps what it holds of, in order. -/
theorem filterM_eq_ok {test : α → Except ε Bool} {holds : α → Bool} {inputs : List α}
    (h : ∀ a ∈ inputs, test a = .ok (holds a)) :
    inputs.filterM test = .ok (inputs.filter holds) := by
  obtain ⟨results, hresults⟩ := (mapM_isOk_iff test inputs).mpr fun a ha => ⟨_, h a ha⟩
  have hfilter : (inputs.filter fun a => (test a).toOption.getD false) = inputs.filter holds :=
    List.filter_congr fun a ha => by rw [h a ha]; rfl
  rw [filterM_eq_map, hresults, ← hfilter]
  rfl

/-- Operations that do the same to each input do the same to the list. -/
theorem mapM_congr_mem (f g : α → Except ε β) (inputs : List α) (h : ∀ a ∈ inputs, f a = g a) :
    inputs.mapM f = inputs.mapM g := by
  induction inputs with
  | nil => rfl
  | cons a rest ih =>
    rw [List.mapM_cons, List.mapM_cons, h a (List.mem_cons_self ..),
      ih fun x hx => h x (List.mem_cons_of_mem _ hx)]

/-- Where each run of a first operation succeeds, a second one may as well wait for all of them. -/
theorem mapM_bind_of_mapM (f : α → Except ε β) (g : β → Except ε γ) {inputs : List α}
    {middle : List β} (h : inputs.mapM f = .ok middle) :
    (inputs.mapM fun a => f a >>= g) = middle.mapM g := by
  induction (mapM_eq_ok_iff f inputs middle).mp h with
  | nil => rfl
  | cons hb hrest ih =>
    rw [List.mapM_cons, List.mapM_cons, hb, ok_bind, ih ((mapM_eq_ok_iff f _ _).mpr hrest)]

end DocumentStore
