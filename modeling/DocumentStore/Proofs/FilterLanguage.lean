import DocumentStore.Proofs.FilterOperands

/-!
# The language of filters

Which JSON values are filters is said here without reading them: a comparison names a field of
documents and an operator that takes the value for it, and a combination has at least one condition
and only filters among its conditions. The main theorem says that these values have an SQL text and
no others do, and that all others are refused as filters; only a date outside the calendar is refused
in another way. A filter that was made otherwise may hold native instants. If it becomes a predicate,
this can be written exactly when they belong to the calendar.
-/

set_option autoImplicit false

namespace DocumentStore

namespace Json

/-- The value is a filter: a comparison if it has a member `field`, and else a combination. -/
inductive IsFilter : Json → Prop where
  | comparison {members : List (String × Json)} {field : DocumentField} {comparator : Comparator}
      {value : Json} (writable : field.Writable)
      (hfield : members.lookup "field" = some (.string field.text))
      (hoperator : members.lookup "operator" = some (.string comparator.text))
      (hvalue : members.lookup "value" = some value)
      (suits : Suits field.isVector comparator value) : IsFilter (.object members)
  | combination {members : List (String × Json)} {connective : Connective} {conditions : List Json}
      (hfield : members.lookup "field" = none)
      (hoperator : members.lookup "operator" = some (.string connective.text))
      (hconditions : members.lookup "conditions" = some (.array conditions))
      (nonempty : conditions ≠ []) (filters : ∀ condition ∈ conditions, IsFilter condition) :
    IsFilter (.object members)

/-- A comparison by order somewhere in the value has a date outside the calendar. -/
inductive LeavesCalendar : Json → Prop where
  | comparison {members : List (String × Json)} {comparator : Comparator} {s : String}
      (hfield : (members.lookup "field").isSome = true)
      (hoperator : members.lookup "operator" = some (.string comparator.text))
      (ordering : comparator.isOrdering = true) (hvalue : members.lookup "value" = some (.string s))
      (outside : Time.read s = .outside) : LeavesCalendar (.object members)
  | combination {members : List (String × Json)} {conditions : List Json} {condition : Json}
      (hfield : members.lookup "field" = none)
      (hconditions : members.lookup "conditions" = some (.array conditions))
      (hcondition : condition ∈ conditions) (leaves : LeavesCalendar condition) :
    LeavesCalendar (.object members)

/-- A property of values holds of all of them when it holds of each value whose conditions all have
it. -/
theorem conditions_induction {P : Json → Prop}
    (step : ∀ value, (∀ members conditions, value = .object members →
      members.lookup "conditions" = some (.array conditions) →
        ∀ condition ∈ conditions, P condition) → P value) (value : Json) : P value := by
  apply step
  intro members conditions hvalue hlookup condition hcondition
  have hmember : sizeOf ("conditions", Json.array conditions) < sizeOf members :=
    List.sizeOf_lt_of_mem (mem_of_lookup hlookup)
  have hitem : sizeOf condition < sizeOf conditions := List.sizeOf_lt_of_mem hcondition
  have hsize : sizeOf condition < sizeOf value := by
    rw [hvalue, Json.object.sizeOf_spec]
    rw [Prod.mk.sizeOf_spec, Json.array.sizeOf_spec] at hmember
    omega
  exact conditions_induction step condition
termination_by sizeOf value
decreasing_by exact hsize

end Json

/-! ## Members of a node -/

/-- A spelling is read as the comparator that has it. -/
theorem Comparator.parse_eq_ok_iff (text : String) (comparator : Comparator) :
    parse text = .ok comparator ↔ comparator.text = text := by
  constructor
  · intro h
    unfold parse at h
    split at h
    · next found hfound =>
      cases h
      have hmem := mem_of_lookup hfound
      simp only [spellings, List.mem_cons, List.not_mem_nil, or_false, Prod.mk.injEq] at hmem
      rcases hmem with ⟨rfl, rfl⟩ | ⟨rfl, rfl⟩ | ⟨rfl, rfl⟩ | ⟨rfl, rfl⟩ | ⟨rfl, rfl⟩ | ⟨rfl, rfl⟩ |
        ⟨rfl, rfl⟩ | ⟨rfl, rfl⟩ <;> rfl
    · cases h
  · rintro rfl
    exact parse_text comparator

/-- A text that spells no comparator is refused as a filter. -/
theorem Comparator.parse_eq_error {text : String} {e : Error} (h : parse text = .error e) :
    ∃ cause, e = .filter cause := by
  unfold parse at h
  split at h <;> cases h
  exact ⟨_, rfl⟩

/-- A spelling is read as the connective that has it. -/
theorem Connective.parse_eq_ok_iff (text : String) (connective : Connective) :
    parse text = .ok connective ↔ connective.text = text := by
  constructor
  · intro h
    unfold parse at h
    split at h <;> cases h <;> rfl
  · rintro rfl
    exact parse_text connective

/-- A text that spells no connective is refused as a filter. -/
theorem Connective.parse_eq_error {text : String} {e : Error} (h : parse text = .error e) :
    ∃ cause, e = .filter cause := by
  unfold parse at h
  split at h <;> cases h
  exact ⟨_, rfl⟩

namespace Filter

variable {members : List (String × Json)} {key : String}

/-- A required member is the one found under its name. -/
theorem requiredMember_eq_ok_iff (value : Json) :
    requiredMember members key = .ok value ↔ members.lookup key = some value := by
  unfold requiredMember
  split <;> simp [*]

/-- A node without a required member is refused as a filter. -/
theorem requiredMember_eq_error {e : Error} (h : requiredMember members key = .error e) :
    ∃ cause, e = .filter cause := by
  unfold requiredMember at h
  split at h <;> cases h
  exact ⟨_, rfl⟩

/-- A required text is the text found under its name. -/
theorem requiredText_eq_ok_iff (text : String) :
    requiredText members key = .ok text ↔ members.lookup key = some (.string text) := by
  unfold requiredText
  rw [bind_eq_ok_iff]
  constructor
  · rintro ⟨value, hvalue, h⟩
    split at h <;> cases h
    exact (requiredMember_eq_ok_iff _).mp hvalue
  · intro h
    exact ⟨.string text, (requiredMember_eq_ok_iff _).mpr h, rfl⟩

/-- A node without a required text is refused as a filter. -/
theorem requiredText_eq_error {e : Error} (h : requiredText members key = .error e) :
    ∃ cause, e = .filter cause := by
  rcases (bind_eq_error_iff _ _ _).mp h with h | ⟨value, -, h⟩
  · exact requiredMember_eq_error h
  · split at h <;> cases h
    exact ⟨_, rfl⟩

/-! ## Reading a node -/

/-- A comparison has a field, an operator and a value. -/
theorem comparisonOf_eq_ok_iff (filter : Filter) : comparisonOf members = .ok filter ↔
    ∃ field comparator value, members.lookup "field" = some (.string field) ∧
      members.lookup "operator" = some (.string (Comparator.text comparator)) ∧
      members.lookup "value" = some value ∧
      filter = .comparison field comparator (Operand.ofJson value) := by
  unfold comparisonOf
  simp only [bind_eq_ok_iff, requiredText_eq_ok_iff, requiredMember_eq_ok_iff, pure_eq_ok,
    Comparator.parse_eq_ok_iff, Except.ok.injEq]
  constructor
  · rintro ⟨field, hfield, _, hoperator, comparator, rfl, value, hvalue, rfl⟩
    exact ⟨field, comparator, value, hfield, hoperator, hvalue, rfl⟩
  · rintro ⟨field, comparator, value, hfield, hoperator, hvalue, rfl⟩
    exact ⟨field, hfield, _, hoperator, comparator, rfl, value, hvalue, rfl⟩

/-- A node that is no comparison is refused as a filter. -/
theorem comparisonOf_eq_error {e : Error} (h : comparisonOf members = .error e) :
    ∃ cause, e = .filter cause := by
  rcases (bind_eq_error_iff _ _ _).mp h with h | ⟨field, -, h⟩
  · exact requiredText_eq_error h
  rcases (bind_eq_error_iff _ _ _).mp h with h | ⟨operator, -, h⟩
  · exact requiredText_eq_error h
  rcases (bind_eq_error_iff _ _ _).mp h with h | ⟨comparator, -, h⟩
  · exact Comparator.parse_eq_error h
  rcases (bind_eq_error_iff _ _ _).mp h with h | ⟨value, -, h⟩
  · exact requiredMember_eq_error h
  · cases h

/-- The conditions of a combination are read one by one. -/
theorem ofItems_eq_mapM (items : List Json) : ofItems items = items.mapM ofJson := by
  induction items with
  | nil => rfl
  | cons item rest ih => rw [ofItems, List.mapM_cons, ih]

/-- The conditions of a node are the filters of the items of its member `conditions`. -/
theorem conditionsOf_eq (members : List (String × Json)) :
    conditionsOf members = (members.lookup "conditions").map fun value =>
      match value with
      | .array items => items.mapM ofJson
      | _ => .error (.filter .conditionsNotList) := by
  induction members with
  | nil => rfl
  | cons member rest ih =>
    obtain ⟨name, value⟩ := member
    rw [lookup_cons_eq_ite]
    by_cases hname : name = "conditions"
    · rw [if_pos hname.symm]
      cases value <;> simp [conditionsOf, hname, ofItems_eq_mapM]
    · rw [if_neg (Ne.symm hname), ← ih]
      cases value <;> simp [conditionsOf, hname]

/-- A node with a member `field` is read as a comparison. -/
theorem ofJson_of_field (h : (members.lookup "field").isSome = true) :
    ofJson (.object members) = comparisonOf members := by
  rw [ofJson, if_pos h]

/-- A node without a member `field` is read as a combination of what its conditions are read as. -/
theorem ofJson_eq_ok_iff_of_not_field (h : members.lookup "field" = none) (filter : Filter) :
    ofJson (.object members) = .ok filter ↔ ∃ connective conditions filters,
      members.lookup "operator" = some (.string (Connective.text connective)) ∧
      members.lookup "conditions" = some (.array conditions) ∧
      conditions.mapM ofJson = .ok filters ∧ filter = .combination connective filters := by
  rw [ofJson, if_neg (by simp [h]), conditionsOf_eq]
  simp only [bind_eq_ok_iff, requiredText_eq_ok_iff, Connective.parse_eq_ok_iff]
  constructor
  · rintro ⟨_, hoperator, connective, rfl, h⟩
    cases hlookup : members.lookup "conditions" with
    | none =>
      rw [hlookup] at h
      cases h
    | some value =>
      rw [hlookup] at h
      cases value with
      | array items =>
        obtain ⟨filters, hfilters, h⟩ := (bind_eq_ok_iff _ _ _).mp h
        cases h
        exact ⟨connective, items, filters, hoperator, rfl, hfilters, rfl⟩
      | _ => cases h
  · rintro ⟨connective, conditions, filters, hoperator, hconditions, hfilters, rfl⟩
    refine ⟨_, hoperator, connective, rfl, ?_⟩
    rw [hconditions]
    dsimp only [Option.map_some]
    rw [hfilters]
    rfl

/-- A value that is not read as a filter is refused as one. -/
theorem ofJson_eq_error (value : Json) :
    ∀ e, ofJson value = .error e → ∃ cause, e = .filter cause := by
  induction value using Json.conditions_induction with
  | step value ih =>
  intro e h
  cases value with
  | object members =>
    cases hfield : members.lookup "field" with
    | some field =>
      rw [ofJson_of_field (by simp [hfield])] at h
      exact comparisonOf_eq_error h
    | none =>
      rw [ofJson, if_neg (by simp [hfield]), conditionsOf_eq] at h
      rcases (bind_eq_error_iff _ _ _).mp h with h | ⟨operator, -, h⟩
      · exact requiredText_eq_error h
      rcases (bind_eq_error_iff _ _ _).mp h with h | ⟨connective, -, h⟩
      · exact Connective.parse_eq_error h
      cases hlookup : members.lookup "conditions" with
      | none =>
        rw [hlookup] at h
        cases h
        exact ⟨_, rfl⟩
      | some value =>
        rw [hlookup] at h
        cases value with
        | array items =>
          rcases (bind_eq_error_iff _ _ _).mp h with h | ⟨filters, -, h⟩
          · obtain ⟨before, item, after, rfl, -, h⟩ := (mapM_eq_error_iff _ _ _).mp h
            exact ih members _ rfl hlookup item (by simp) e h
          · cases h
        | _ =>
          cases h
          exact ⟨_, rfl⟩
  | _ =>
    cases h
    exact ⟨_, rfl⟩

/-! ## The language -/

/-- The value is read as a filter that has a predicate. -/
def Lowers (value : Json) : Prop :=
  ∃ filter predicate, ofJson value = .ok filter ∧ Predicate.ofFilter filter = .ok predicate

/-- Every filter has a predicate. -/
theorem lowers_of_isFilter {value : Json} (h : value.IsFilter) : Lowers value := by
  induction h with
  | @comparison members field comparator value writable hfield hoperator hvalue suits =>
    have hparse : FilterTarget.parse field.text = .ok field.target :=
      (FilterTarget.parse_eq_ok_iff _ _).mpr ⟨field, writable, rfl, rfl⟩
    obtain ⟨predicate, hpredicate⟩ := ((Predicate.lowering_ofComparison hparse comparator _).isOk_iff
      (DocumentField.target_eq_vector_iff field) rfl).mpr suits
    refine ⟨.comparison field.text comparator (Operand.ofJson value), predicate, ?_, ?_⟩
    · rw [ofJson_of_field (by simp [hfield]), comparisonOf_eq_ok_iff]
      exact ⟨_, _, _, hfield, hoperator, hvalue, rfl⟩
    · rw [Predicate.ofFilter]
      exact hpredicate
  | @combination members connective conditions hfield hoperator hconditions nonempty _ ih =>
    have hread : ∀ condition ∈ conditions, ∃ filter, ofJson condition = .ok filter := by
      intro condition hcondition
      obtain ⟨filter, -, hfilter, -⟩ := ih condition hcondition
      exact ⟨filter, hfilter⟩
    obtain ⟨filters, hfilters⟩ := (mapM_isOk_iff ofJson conditions).mpr hread
    have hparts : ∀ filter ∈ filters, ∃ part, Predicate.ofFilter filter = .ok part := by
      intro filter hfilter
      obtain ⟨condition, hcondition, hof⟩ :=
        exists_related ((mapM_eq_ok_iff _ _ _).mp hfilters).flip hfilter
      obtain ⟨found, part, hfound, hpart⟩ := ih condition hcondition
      rw [show ofJson condition = .ok filter from hof] at hfound
      cases hfound
      exact ⟨part, hpart⟩
    obtain ⟨parts, hparts⟩ := (mapM_isOk_iff Predicate.ofFilter filters).mpr hparts
    have hne : filters ≠ [] := by
      rintro rfl
      cases (mapM_eq_ok_iff _ _ _).mp hfilters
      exact nonempty rfl
    refine ⟨.combination connective filters, Predicate.joined connective parts, ?_, ?_⟩
    · rw [ofJson_eq_ok_iff_of_not_field hfield]
      exact ⟨_, _, _, hoperator, hconditions, hfilters, rfl⟩
    · rw [Predicate.ofFilter_combination hne, hparts]
      rfl

/-- What has a predicate is a filter. -/
theorem isFilter_of_lowers (value : Json) : Lowers value → value.IsFilter := by
  induction value using Json.conditions_induction with
  | step value ih =>
  rintro ⟨filter, predicate, hread, hlower⟩
  cases value with
  | object members =>
    cases hfield : members.lookup "field" with
    | some field =>
      rw [ofJson_of_field (by simp [hfield]), comparisonOf_eq_ok_iff] at hread
      obtain ⟨text, comparator, operand, htext, hoperator, hvalue, rfl⟩ := hread
      rw [Predicate.ofFilter] at hlower
      obtain ⟨target, hparse, -⟩ := (bind_eq_ok_iff _ _ _).mp hlower
      obtain ⟨named, writable, rfl, rfl⟩ := (FilterTarget.parse_eq_ok_iff _ _).mp hparse
      exact .comparison writable htext hoperator hvalue
        (((Predicate.lowering_ofComparison hparse comparator _).isOk_iff
          (DocumentField.target_eq_vector_iff named) rfl).mp ⟨predicate, hlower⟩)
    | none =>
      rw [ofJson_eq_ok_iff_of_not_field hfield] at hread
      obtain ⟨connective, conditions, filters, hoperator, hconditions, hfilters, rfl⟩ := hread
      have hall := (mapM_eq_ok_iff _ _ _).mp hfilters
      have hne : filters ≠ [] := by
        rintro rfl
        cases hlower
      rw [Predicate.ofFilter_combination hne, map_eq_ok_iff] at hlower
      obtain ⟨parts, hparts, -⟩ := hlower
      refine .combination hfield hoperator hconditions ?_ ?_
      · rintro rfl
        cases hall
        exact hne rfl
      · intro condition hcondition
        obtain ⟨part, hpart, hof⟩ := exists_related hall hcondition
        obtain ⟨lowered, hlowered⟩ := (mapM_isOk_iff _ _).mp ⟨parts, hparts⟩ part hpart
        exact ih members conditions rfl hconditions condition hcondition
          ⟨part, lowered, hof, hlowered⟩
  | _ => cases hread

/-- The filters of JSON values are refused as filters, unless they have a date outside the
calendar. -/
theorem ofFilter_eq_error (value : Json) : ∀ filter e, ofJson value = .ok filter →
    Predicate.ofFilter filter = .error e →
      (∃ cause, e = .filter cause) ∨ (e = .beyondCalendar ∧ value.LeavesCalendar) := by
  induction value using Json.conditions_induction with
  | step value ih =>
  intro filter e hread hlower
  cases value with
  | object members =>
    cases hfield : members.lookup "field" with
    | some field =>
      have hsome : (members.lookup "field").isSome = true := by simp [hfield]
      rw [ofJson_of_field hsome, comparisonOf_eq_ok_iff] at hread
      obtain ⟨text, comparator, operand, htext, hoperator, hvalue, rfl⟩ := hread
      rw [Predicate.ofFilter] at hlower
      cases hparse : FilterTarget.parse text with
      | error cause =>
        rw [Predicate.ofComparison, hparse] at hlower
        cases hlower
        exact Or.inl (FilterTarget.parse_eq_error hparse)
      | ok target =>
      refine ((Predicate.lowering_ofComparison hparse comparator _).eq_error rfl hlower).imp_right ?_
      rintro ⟨rfl, ordering, s, rfl, outside⟩
      exact ⟨rfl, .comparison hsome hoperator ordering hvalue outside⟩
    | none =>
      rw [ofJson_eq_ok_iff_of_not_field hfield] at hread
      obtain ⟨connective, conditions, filters, hoperator, hconditions, hfilters, rfl⟩ := hread
      by_cases hne : filters = []
      · rw [hne] at hlower
        cases hlower
        exact Or.inl ⟨_, rfl⟩
      rw [Predicate.ofFilter_combination hne, map_eq_error_iff, mapM_eq_error_iff] at hlower
      obtain ⟨before, part, after, rfl, -, hpart⟩ := hlower
      obtain ⟨condition, hcondition, hof⟩ :=
        exists_related ((mapM_eq_ok_iff _ _ _).mp hfilters).flip (a := part) (by simp)
      refine (ih members conditions rfl hconditions condition hcondition part e hof hpart).imp_right ?_
      rintro ⟨he, leaves⟩
      exact ⟨he, .combination hfield hconditions hcondition leaves⟩
  | _ => cases hread

/-! ## Native instants -/

/-- What a JSON value stands for holds no native instant. -/
theorem not_holdsInstant_operand (value : Json) (t : Instant) :
    ¬ (Operand.ofJson value).HoldsInstant t := by
  have hsingle : ∀ value : Json, Operand.ofJson value ≠ .timestamp t := by
    intro value
    cases value with
    | number n =>
      cases n with
      | integer n fits =>
        rw [Operand.ofJson]
        split <;> simp
      | float x finite => simp [Operand.ofJson]
    | _ => simp [Operand.ofJson]
  generalize hoperand : Operand.ofJson value = operand
  rintro (_ | hitem)
  · exact hsingle value hoperand
  · obtain ⟨items, rfl, rfl⟩ := (Operand.ofJson_eq_list_iff value _).mp hoperand
    rw [Operand.ofItems_eq_map] at hitem
    obtain ⟨item, -, hitem⟩ := List.mem_map.mp hitem
    exact hsingle item hitem

/-- The filter of a JSON value holds no native instant. -/
theorem not_holdsInstant_of_ofJson (value : Json) : ∀ filter, ofJson value = .ok filter →
    ∀ t, ¬ filter.HoldsInstant t := by
  induction value using Json.conditions_induction with
  | step value ih =>
  intro filter hread t hheld
  cases value with
  | object members =>
    cases hfield : members.lookup "field" with
    | some field =>
      rw [ofJson_of_field (by simp [hfield]), comparisonOf_eq_ok_iff] at hread
      obtain ⟨text, comparator, operand, -, -, -, rfl⟩ := hread
      obtain ⟨hheld⟩ := hheld
      exact not_holdsInstant_operand operand t hheld
    | none =>
      rw [ofJson_eq_ok_iff_of_not_field hfield] at hread
      obtain ⟨connective, conditions, filters, -, hconditions, hfilters, rfl⟩ := hread
      rcases hheld with _ | ⟨hcondition, hheld⟩
      obtain ⟨condition, hmem, hof⟩ :=
        exists_related ((mapM_eq_ok_iff _ _ _).mp hfilters).flip hcondition
      exact ih members conditions rfl hconditions condition hmem _ hof t hheld
  | _ => cases hread

/-! ## Writing filters -/

/-- The predicate of the filter of a JSON value has an SQL text. -/
theorem sql_isOk {value : Json} {filter : Filter} {predicate : Predicate}
    (hread : ofJson value = .ok filter) (h : Predicate.ofFilter filter = .ok predicate) :
    ∃ text, predicate.sql = .ok text :=
  (Predicate.writesBut_ofFilter filter predicate h).outcome.1.mpr fun t ht =>
    absurd ht (not_holdsInstant_of_ofJson value filter hread t)

/-- The values with an SQL text are those that are read as a filter that has a predicate. -/
theorem sqlOfJson_isOk_iff (value : Json) : (∃ text, sqlOfJson value = .ok text) ↔ Lowers value := by
  constructor
  · rintro ⟨text, h⟩
    obtain ⟨filter, hread, h⟩ := (bind_eq_ok_iff _ _ _).mp h
    obtain ⟨predicate, hlower, -⟩ := (bind_eq_ok_iff _ _ _).mp h
    exact ⟨filter, predicate, hread, hlower⟩
  · rintro ⟨filter, predicate, hread, hlower⟩
    obtain ⟨text, htext⟩ := sql_isOk hread hlower
    refine ⟨text, ?_⟩
    unfold sqlOfJson sql
    rw [hread, ok_bind, hlower, ok_bind, htext]

/-- A value without an SQL text is refused as a filter, unless it has a date outside the calendar. -/
theorem sqlOfJson_eq_error {value : Json} {e : Error} (h : sqlOfJson value = .error e) :
    (∃ cause, e = .filter cause) ∨ (e = .beyondCalendar ∧ value.LeavesCalendar) := by
  rcases (bind_eq_error_iff _ _ _).mp h with h | ⟨filter, hread, h⟩
  · exact Or.inl (ofJson_eq_error value e h)
  rcases (bind_eq_error_iff _ _ _).mp h with h | ⟨predicate, hlower, h⟩
  · exact ofFilter_eq_error value filter e hread h
  · obtain ⟨text, htext⟩ := sql_isOk hread hlower
    rw [htext] at h
    cases h

/-- The JSON values with an SQL text are the filters; every other value is refused as a filter,
unless it compares by order with a date outside the calendar. Every filter that has a predicate, of a
JSON value or not, has an SQL text exactly if its native instants belong to the calendar, and is
refused with one of them otherwise. -/
theorem sqlOfJson_accepts_exactly_filters (value : Json) (filter : Filter) :
    ((∃ text, sqlOfJson value = .ok text) ↔ value.IsFilter) ∧
    (∀ e, sqlOfJson value = .error e →
      (∃ cause, e = .filter cause) ∨ (e = .beyondCalendar ∧ value.LeavesCalendar)) ∧
    (∀ predicate, Predicate.ofFilter filter = .ok predicate →
      ((∃ text, predicate.sql = .ok text) ↔ ∀ t, filter.HoldsInstant t → t.InCalendar) ∧
      ∀ e, predicate.sql = .error e → ∃ t, filter.HoldsInstant t ∧ ¬ t.InCalendar ∧
        e = .validation (.timestampRange t.seconds)) := by
  refine ⟨?_, fun e => sqlOfJson_eq_error, fun predicate h =>
    (Predicate.writesBut_ofFilter filter predicate h).outcome⟩
  rw [sqlOfJson_isOk_iff]
  exact ⟨isFilter_of_lowers value, lowers_of_isFilter⟩

/-- A comparison with the last second of the year 9999, given an hour west of Greenwich, becomes a
predicate that cannot be written. -/
theorem sql_beyondCalendar :
    ∃ (t : Instant) (predicate : Predicate), t.seconds = 253402304399 ∧
      Predicate.ofFilter (.comparison "meta.t" .greater (.timestamp t)) = .ok predicate ∧
      predicate.sql = .error (.validation (.timestampRange 253402304399)) :=
  ⟨⟨253402304399000000000, by decide, by decide⟩, _, rfl, rfl, rfl⟩

end Filter

end DocumentStore
