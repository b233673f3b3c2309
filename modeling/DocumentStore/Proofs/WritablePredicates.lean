import DocumentStore.Proofs.Comparisons
import DocumentStore.Proofs.NormalForm

/-!
# Predicates that can be written as SQL

Only three things cannot be written: a number that is not finite, a second outside the calendar and
a membership in an empty list. The literals of operands are checked for the first, and a filter with
an empty list becomes a constant. A date that a filter gives as a text names an instant of the
calendar, so the predicate of a filter can be written unless the filter holds a native instant that
lies outside.
-/

set_option autoImplicit false

namespace DocumentStore

/-! ## Filters by induction -/

section Induction

variable {P : Filter → Prop}

mutual

/-- A property of filters holds of all of them when it holds of the comparisons, and of a
combination whenever it holds of its conditions. -/
theorem Filter.conditions_induction
    (comparison : ∀ field comparator operand, P (.comparison field comparator operand))
    (combination : ∀ connective conditions, (∀ condition ∈ conditions, P condition) →
      P (.combination connective conditions)) : ∀ filter, P filter
  | .comparison field comparator operand => comparison field comparator operand
  | .combination connective conditions =>
    combination connective conditions
      (Filter.allConditions_induction comparison combination conditions)

/-- The conditions of a combination have the property one by one. -/
theorem Filter.allConditions_induction
    (comparison : ∀ field comparator operand, P (.comparison field comparator operand))
    (combination : ∀ connective conditions, (∀ condition ∈ conditions, P condition) →
      P (.combination connective conditions)) :
    ∀ conditions : List Filter, ∀ condition ∈ conditions, P condition
  | [], _, h => absurd h List.not_mem_nil
  | first :: rest, condition, h => by
    rcases List.mem_cons.mp h with heq | h
    · exact heq ▸ Filter.conditions_induction comparison combination first
    · exact Filter.allConditions_induction comparison combination rest condition h

end

end Induction

namespace Predicate

/-! ## The predicate of a combination -/

/-- The predicates of filters are made one by one. -/
theorem ofFilters_eq_mapM (filters : List Filter) : ofFilters filters = filters.mapM ofFilter := by
  induction filters with
  | nil => rfl
  | cons filter rest ih => rw [ofFilters, List.mapM_cons, ih]

/-- How a connective joins predicates. -/
def joined : DocumentStore.Connective → List Predicate → Predicate
  | .and, parts => .and parts
  | .or, parts => .or parts
  | .not, parts => .not (.and parts)

/-- A combination of at least one condition joins their predicates. -/
theorem ofFilter_combination {conditions : List Filter} (hne : conditions ≠ [])
    (connective : DocumentStore.Connective) : ofFilter (.combination connective conditions) =
      (conditions.mapM ofFilter).map (joined connective) := by
  cases connective with
  | and | or | not =>
    rw [ofFilter, ofFilters_eq_mapM]
    · cases conditions.mapM ofFilter <;> rfl
    · exact fun h => hne h

/-! ## Literals of predicates -/

/-- The literal occurs in the predicate. -/
inductive HoldsLiteral (literal : Scalar) : Predicate → Prop
  | compare {column : ColumnPath} {relation : Relation} :
      HoldsLiteral literal (.compare column relation literal)
  | inList {column : ColumnPath} {values : List Scalar} {negated : Bool} (h : literal ∈ values) :
      HoldsLiteral literal (.inList column values negated)
  | and {parts : List Predicate} {part : Predicate} (h : part ∈ parts)
      (below : HoldsLiteral literal part) : HoldsLiteral literal (.and parts)
  | or {parts : List Predicate} {part : Predicate} (h : part ∈ parts)
      (below : HoldsLiteral literal part) : HoldsLiteral literal (.or parts)
  | not {inner : Predicate} (below : HoldsLiteral literal inner) : HoldsLiteral literal (.not inner)

/-- No list in the predicate is empty. -/
inductive FilledLists : Predicate → Prop
  | constant (b : Bool) : FilledLists (.constant b)
  | isNull (column : ColumnPath) : FilledLists (.isNull column)
  | isNotNull (column : ColumnPath) : FilledLists (.isNotNull column)
  | compare (column : ColumnPath) (relation : Relation) (value : Scalar) :
      FilledLists (.compare column relation value)
  | inList (column : ColumnPath) {values : List Scalar} (h : values ≠ []) (negated : Bool) :
      FilledLists (.inList column values negated)
  | and {parts : List Predicate} (h : ∀ part ∈ parts, FilledLists part) : FilledLists (.and parts)
  | or {parts : List Predicate} (h : ∀ part ∈ parts, FilledLists part) : FilledLists (.or parts)
  | not {inner : Predicate} (h : FilledLists inner) : FilledLists (.not inner)

variable {parts : List Predicate} {literal : Scalar}

/-- A conjunction has the literals of its members. -/
theorem holdsLiteral_and_iff :
    (and parts).HoldsLiteral literal ↔ ∃ part ∈ parts, part.HoldsLiteral literal := by
  constructor
  · rintro (_ | _ | ⟨h, below⟩)
    exact ⟨_, h, below⟩
  · rintro ⟨part, h, below⟩
    exact .and h below

/-- A disjunction has the literals of its members. -/
theorem holdsLiteral_or_iff :
    (or parts).HoldsLiteral literal ↔ ∃ part ∈ parts, part.HoldsLiteral literal := by
  constructor
  · rintro (_ | _ | _ | ⟨h, below⟩)
    exact ⟨_, h, below⟩
  · rintro ⟨part, h, below⟩
    exact .or h below

/-- A negation has the literals of what it denies. -/
theorem holdsLiteral_not_iff {inner : Predicate} :
    (Predicate.not inner).HoldsLiteral literal ↔ inner.HoldsLiteral literal := by
  constructor
  · rintro (_ | _ | _ | _ | below)
    exact below
  · exact .not

/-- A comparison has one literal. -/
theorem holdsLiteral_compare_iff {column : ColumnPath} {relation : Relation} {value : Scalar} :
    (Predicate.compare column relation value).HoldsLiteral literal ↔ literal = value := by
  constructor
  · rintro (_ | _)
    rfl
  · rintro rfl
    exact .compare

/-- A membership has the literals of its list. -/
theorem holdsLiteral_inList_iff {column : ColumnPath} {values : List Scalar} {negated : Bool} :
    (Predicate.inList column values negated).HoldsLiteral literal ↔ literal ∈ values := by
  constructor
  · rintro (_ | h)
    exact h
  · exact .inList

/-- Taking conjunctions apart keeps the literals. -/
theorem holdsLiteral_allOf_iff :
    (allOf parts).HoldsLiteral literal ↔ ∃ part ∈ parts, part.HoldsLiteral literal := by
  have hconjuncts : ∀ part : Predicate,
      (∃ conjunct ∈ part.conjuncts, conjunct.HoldsLiteral literal) ↔
        part.HoldsLiteral literal := by
    intro part
    cases part with
    | and inner => exact holdsLiteral_and_iff.symm
    | _ => simp [conjuncts]
  unfold allOf
  rw [holdsLiteral_and_iff]
  constructor
  · rintro ⟨conjunct, hconjunct, held⟩
    obtain ⟨part, hpart, hconjunct⟩ := List.mem_flatMap.mp hconjunct
    exact ⟨part, hpart, (hconjuncts part).mp ⟨conjunct, hconjunct, held⟩⟩
  · rintro ⟨part, hpart, held⟩
    obtain ⟨conjunct, hconjunct, held⟩ := (hconjuncts part).mpr held
    exact ⟨conjunct, List.mem_flatMap.mpr ⟨part, hpart, hconjunct⟩, held⟩

/-- Taking disjunctions apart keeps the literals. -/
theorem holdsLiteral_anyOf_iff :
    (anyOf parts).HoldsLiteral literal ↔ ∃ part ∈ parts, part.HoldsLiteral literal := by
  have hdisjuncts : ∀ part : Predicate,
      (∃ disjunct ∈ part.disjuncts, disjunct.HoldsLiteral literal) ↔
        part.HoldsLiteral literal := by
    intro part
    cases part with
    | or inner => exact holdsLiteral_or_iff.symm
    | _ => simp [disjuncts]
  unfold anyOf
  rw [holdsLiteral_or_iff]
  constructor
  · rintro ⟨disjunct, hdisjunct, held⟩
    obtain ⟨part, hpart, hdisjunct⟩ := List.mem_flatMap.mp hdisjunct
    exact ⟨part, hpart, (hdisjuncts part).mp ⟨disjunct, hdisjunct, held⟩⟩
  · rintro ⟨part, hpart, held⟩
    obtain ⟨disjunct, hdisjunct, held⟩ := (hdisjuncts part).mpr held
    exact ⟨disjunct, List.mem_flatMap.mpr ⟨part, hpart, hdisjunct⟩, held⟩

/-- Taking conjunctions apart leaves no empty list if there was none. -/
theorem filledLists_allOf (h : ∀ part ∈ parts, part.FilledLists) : (allOf parts).FilledLists := by
  refine .and fun conjunct hconjunct => ?_
  obtain ⟨part, hpart, hconjunct⟩ := List.mem_flatMap.mp hconjunct
  have hfilled := h part hpart
  cases hfilled with
  | and h => exact h conjunct hconjunct
  | _ =>
    cases List.mem_singleton.mp hconjunct
    exact h _ hpart

/-- Taking disjunctions apart leaves no empty list if there was none. -/
theorem filledLists_anyOf (h : ∀ part ∈ parts, part.FilledLists) : (anyOf parts).FilledLists := by
  refine .or fun disjunct hdisjunct => ?_
  obtain ⟨part, hpart, hdisjunct⟩ := List.mem_flatMap.mp hdisjunct
  have hfilled := h part hpart
  cases hfilled with
  | or h => exact h disjunct hdisjunct
  | _ =>
    cases List.mem_singleton.mp hdisjunct
    exact h _ hpart

/-! ## Writing -/

/-- The members of a group are written one by one. -/
theorem sqlParts_eq_mapM (parts : List Predicate) : sqlParts parts = parts.mapM sqlChars := by
  induction parts with
  | nil => rfl
  | cons part rest ih => rw [sqlParts, List.mapM_cons, ih]

/-- A conjunction is written when its members are, between parentheses if there are any. -/
theorem sqlChars_and (parts : List Predicate) : ∃ write : List (List Char) → List Char,
    (and parts).sqlChars = (parts.mapM sqlChars).map write := by
  cases parts with
  | nil => exact ⟨fun _ => Sql.bool true, rfl⟩
  | cons part rest =>
    refine ⟨grouped " AND ", ?_⟩
    rw [sqlChars, sqlParts_eq_mapM]
    · exact bind_pure_eq_map _ _
    · simp

/-- A disjunction is written when its members are, between parentheses if there are any. -/
theorem sqlChars_or (parts : List Predicate) : ∃ write : List (List Char) → List Char,
    (or parts).sqlChars = (parts.mapM sqlChars).map write := by
  cases parts with
  | nil => exact ⟨fun _ => Sql.bool false, rfl⟩
  | cons part rest =>
    refine ⟨grouped " OR ", ?_⟩
    rw [sqlChars, sqlParts_eq_mapM]
    · exact bind_pure_eq_map _ _
    · simp

/-- A negation is written when what it denies is. -/
theorem sqlChars_not (inner : Predicate) : ∃ write : List Char → List Char,
    (Predicate.not inner).sqlChars = inner.sqlChars.map write := by
  rw [sqlChars]
  split
  · exact ⟨_, bind_pure_eq_map _ _⟩
  · exact ⟨_, bind_pure_eq_map _ _⟩

/-- The predicate can be written when each of its literals can, and fails with the error of one of
them otherwise. -/
def WritesLiterals (predicate : Predicate) : Prop :=
  ((∃ text, predicate.sqlChars = .ok text) ↔
    ∀ literal, predicate.HoldsLiteral literal → ∃ text, literal.sql = .ok text) ∧
  ∀ e, predicate.sqlChars = .error e →
    ∃ literal, predicate.HoldsLiteral literal ∧ literal.sql = .error e

/-- What is written by writing its members can be written when the literals of these can. -/
theorem writesLiterals_of_parts {predicate : Predicate} {write : List (List Char) → List Char}
    (hwrite : predicate.sqlChars = (parts.mapM sqlChars).map write)
    (hliteral : ∀ literal, predicate.HoldsLiteral literal ↔
      ∃ part ∈ parts, part.HoldsLiteral literal)
    (h : ∀ part ∈ parts, part.WritesLiterals) : predicate.WritesLiterals := by
  unfold WritesLiterals
  rw [hwrite, map_isOk_iff, mapM_isOk_iff]
  constructor
  · constructor
    · intro hall literal hheld
      obtain ⟨part, hpart, hheld⟩ := (hliteral literal).mp hheld
      exact (h part hpart).1.mp (hall part hpart) literal hheld
    · intro hall part hpart
      exact (h part hpart).1.mpr fun literal hheld =>
        hall literal ((hliteral literal).mpr ⟨part, hpart, hheld⟩)
  · intro e he
    rw [map_eq_error_iff, mapM_eq_error_iff] at he
    obtain ⟨before, part, after, rfl, -, he⟩ := he
    have hpart : part ∈ before ++ part :: after := by simp
    obtain ⟨literal, hheld, hfails⟩ := (h part hpart).2 e he
    exact ⟨literal, (hliteral literal).mpr ⟨part, hpart, hheld⟩, hfails⟩

/-- A predicate without empty lists is written literal by literal. -/
theorem FilledLists.writesLiterals {predicate : Predicate} (filled : predicate.FilledLists) :
    predicate.WritesLiterals := by
  induction filled with
  | constant | isNull | isNotNull =>
    exact ⟨iff_of_true ⟨_, rfl⟩ fun _ h => by (cases h), fun e h => by cases h⟩
  | compare column relation value =>
    unfold WritesLiterals
    simp only [holdsLiteral_compare_iff, forall_eq, exists_eq_left]
    rw [sqlChars, bind_pure_eq_map, map_isOk_iff]
    exact ⟨Iff.rfl, fun e => (map_eq_error_iff _ _ _).mp⟩
  | @inList column values h negated =>
    unfold WritesLiterals
    simp only [holdsLiteral_inList_iff]
    rw [sqlChars, if_neg (by simpa using h), bind_pure_eq_map, map_isOk_iff, mapM_isOk_iff]
    refine ⟨Iff.rfl, fun e he => ?_⟩
    rw [map_eq_error_iff, mapM_eq_error_iff] at he
    obtain ⟨before, literal, after, rfl, -, he⟩ := he
    exact ⟨literal, by simp, he⟩
  | @and parts _ ih =>
    obtain ⟨write, hwrite⟩ := sqlChars_and parts
    exact writesLiterals_of_parts hwrite (fun _ => holdsLiteral_and_iff) ih
  | @or parts _ ih =>
    obtain ⟨write, hwrite⟩ := sqlChars_or parts
    exact writesLiterals_of_parts hwrite (fun _ => holdsLiteral_or_iff) ih
  | @not inner _ ih =>
    obtain ⟨write, hwrite⟩ := sqlChars_not inner
    unfold WritesLiterals
    simp only [hwrite, map_isOk_iff, map_eq_error_iff, holdsLiteral_not_iff]
    exact ih

end Predicate

/-! ## Literals of operands -/

/-- The native instant is the operand or one of its items. -/
inductive Operand.HoldsInstant (t : Instant) : Operand → Prop
  | single : HoldsInstant t (.timestamp t)
  | item {items : List Operand} (h : .timestamp t ∈ items) : HoldsInstant t (.list items)

/-- The native instant is given somewhere in the filter. -/
inductive Filter.HoldsInstant (t : Instant) : Filter → Prop
  | comparison {field : String} {comparator : Comparator} {operand : Operand}
      (h : operand.HoldsInstant t) : HoldsInstant t (.comparison field comparator operand)
  | combination {connective : DocumentStore.Connective} {conditions : List Filter}
      {condition : Filter} (h : condition ∈ conditions) (below : HoldsInstant t condition) :
      HoldsInstant t (.combination connective conditions)

/-- The literal can be written whatever it is, or it is the second of one of the instants. -/
def Scalar.WritesBut (literal : Scalar) (Holds : Instant → Prop) : Prop :=
  (∃ text, literal.sql = .ok text) ∨ ∃ t, Holds t ∧ literal = .timestamp t.seconds

/-- The second of an instant is written if the instant belongs to the calendar. -/
theorem Scalar.exists_sql_timestamp {t : Instant} (h : t.InCalendar) :
    ∃ text, (Scalar.timestamp t.seconds).sql = .ok text := by
  rw [Scalar.sql, Sql.timestamp, Time.sqlText_eq, if_pos ((Instant.inCalendar_iff t).mp h)]
  exact ⟨_, rfl⟩

/-- The second of an instant outside the calendar is refused. -/
theorem Scalar.sql_timestamp_eq_error {t : Instant} (h : ¬ t.InCalendar) :
    (Scalar.timestamp t.seconds).sql = .error (.validation (.timestampRange t.seconds)) := by
  rw [Scalar.sql, Sql.timestamp, Time.sqlText_eq, if_neg (mt (Instant.inCalendar_iff t).mpr h)]
  rfl

namespace Operand

variable {field : String} {comparator : Comparator}

/-- The literal of an operand can be written, or the operand is a native instant. -/
theorem writesBut_scalar {operand : Operand} {literal : Scalar}
    (h : operand.scalar field comparator = .ok literal) :
    literal.WritesBut (HoldsInstant · operand) ∧
      ∀ t, operand.HoldsInstant t → literal = .timestamp t.seconds := by
  cases operand with
  | timestamp t =>
    cases h
    refine ⟨.inr ⟨t, .single, rfl⟩, ?_⟩
    rintro _ ⟨⟩
    rfl
  | float x =>
    rw [scalar] at h
    split at h
    · next hfinite =>
      cases h
      exact ⟨.inl ⟨_, if_pos hfinite⟩, by rintro _ ⟨⟩⟩
    · cases h
  | bool | int | string | dataframe =>
    cases h
    exact ⟨.inl ⟨_, rfl⟩, by rintro _ ⟨⟩⟩
  | null | list | map => cases h

/-- The literal of an operand that is compared by order can be written, or the operand is a native
instant. -/
theorem writesBut_orderedScalar {operand : Operand} {literal : Scalar}
    (h : operand.orderedScalar field comparator = .ok literal) :
    literal.WritesBut (HoldsInstant · operand) ∧
      ∀ t, operand.HoldsInstant t → literal = .timestamp t.seconds := by
  obtain ⟨plain, hplain, h⟩ := (bind_eq_ok_iff _ _ _).mp h
  have hscalar := writesBut_scalar hplain
  split at h
  · next s =>
    obtain ⟨t, ht, h⟩ := (bind_eq_ok_iff _ _ _).mp h
    cases h
    have hcalendar := Time.inCalendar_of_read (Instant.read_of_ofText ht)
    exact ⟨.inl (Scalar.exists_sql_timestamp hcalendar), fun t' h' => by cases hscalar.2 t' h'⟩
  · cases h
    exact hscalar

/-- The literals of a list operand, one for each of its members. -/
theorem members_eq_ok {operands : List Operand} {literals : List Scalar}
    (h : Operand.members field comparator operands = .ok literals) :
    List.Forall₂ (fun operand literal => operand.scalar field comparator = .ok literal)
      operands literals := by
  induction operands generalizing literals with
  | nil =>
    cases h
    exact .nil
  | cons operand rest ih =>
    rw [members] at h
    split at h
    · cases h
    · obtain ⟨literal, hliteral, h⟩ := (bind_eq_ok_iff _ _ _).mp h
      obtain ⟨others, hothers, h⟩ := (bind_eq_ok_iff _ _ _).mp h
      cases h
      exact .cons hliteral (ih hothers)

/-- The literals of a list operand can be written, but for its native instants. -/
theorem writesBut_members {operands : List Operand} {literals : List Scalar}
    (h : Operand.members field comparator operands = .ok literals) :
    (∀ literal ∈ literals, literal.WritesBut (HoldsInstant · (.list operands))) ∧
      ∀ t, HoldsInstant t (.list operands) → .timestamp t.seconds ∈ literals := by
  have hall := members_eq_ok h
  constructor
  · intro literal hliteral
    obtain ⟨operand, hoperand, hscalar⟩ := exists_related hall.flip hliteral
    refine (writesBut_scalar hscalar).1.imp_right ?_
    rintro ⟨t, hheld, rfl⟩
    cases hheld with
    | single => exact ⟨t, .item hoperand, rfl⟩
    | item => cases hscalar
  · rintro t (_ | hitem)
    obtain ⟨literal, hliteral, hscalar⟩ := exists_related hall hitem
    rwa [(writesBut_scalar hscalar).2 t .single] at hliteral

end Operand

/-! ## Predicates of filters -/

namespace Predicate

/-- The predicate can be written but for the seconds of the instants, all of which are among its
literals. -/
structure WritesBut (predicate : Predicate) (Holds : Instant → Prop) : Prop where
  filled : predicate.FilledLists
  literals : ∀ literal, predicate.HoldsLiteral literal → literal.WritesBut Holds
  held : ∀ t, Holds t → predicate.HoldsLiteral (.timestamp t.seconds)

/-- A predicate can be written exactly if the instants in it belong to the calendar. If it cannot,
one of them is refused. -/
theorem WritesBut.outcome {predicate : Predicate} {Holds : Instant → Prop}
    (h : predicate.WritesBut Holds) :
    ((∃ text, predicate.sql = .ok text) ↔ ∀ t, Holds t → t.InCalendar) ∧
    ∀ e, predicate.sql = .error e →
      ∃ t, Holds t ∧ ¬ t.InCalendar ∧ e = .validation (.timestampRange t.seconds) := by
  obtain ⟨hok, herror⟩ := h.filled.writesLiterals
  unfold sql
  rw [map_isOk_iff, hok]
  constructor
  · constructor
    · intro hall t ht
      obtain ⟨text, htext⟩ := hall _ (h.held t ht)
      by_contra hout
      rw [Scalar.sql_timestamp_eq_error hout] at htext
      cases htext
    · intro hall literal hliteral
      rcases h.literals literal hliteral with hwrites | ⟨t, ht, rfl⟩
      · exact hwrites
      · exact Scalar.exists_sql_timestamp (hall t ht)
  · intro e he
    obtain ⟨literal, hliteral, hfails⟩ := herror e ((map_eq_error_iff _ _ _).mp he)
    rcases h.literals literal hliteral with ⟨text, htext⟩ | ⟨t, ht, rfl⟩
    · rw [htext] at hfails
      cases hfails
    · by_cases hcalendar : t.InCalendar
      · obtain ⟨text, htext⟩ := Scalar.exists_sql_timestamp hcalendar
        rw [htext] at hfails
        cases hfails
      · rw [Scalar.sql_timestamp_eq_error hcalendar] at hfails
        cases hfails
        exact ⟨t, ht, hcalendar, rfl⟩

/-- A null test has no literals. -/
theorem writesBut_isNull (column : ColumnPath) : (isNull column).WritesBut fun _ => False :=
  ⟨.isNull _, fun _ h => by (cases h), fun _ h => h.elim⟩

/-- The opposite null test has no literals. -/
theorem writesBut_isNotNull (column : ColumnPath) : (isNotNull column).WritesBut fun _ => False :=
  ⟨.isNotNull _, fun _ h => by (cases h), fun _ h => h.elim⟩

/-- A test of a flag has a truth value for a literal. -/
theorem writesBut_flagIs (path : ColumnPath) (b : Bool) :
    (FilterTarget.flagIs path b).WritesBut fun _ => False := by
  refine ⟨.compare .., fun literal h => ?_, fun _ h => h.elim⟩
  rw [holdsLiteral_compare_iff.mp h]
  exact .inl ⟨_, rfl⟩

section Pairs

variable {gate part : Predicate} {Holds : Instant → Prop}

/-- Of a test without instants and another part, only the part has instants. -/
theorem WritesBut.pair (hgate : gate.WritesBut fun _ => False) (h : part.WritesBut Holds) :
    (∀ p ∈ [gate, part], p.FilledLists) ∧
    (∀ literal, (∃ p ∈ [gate, part], p.HoldsLiteral literal) → literal.WritesBut Holds) ∧
    ∀ t, Holds t → ∃ p ∈ [gate, part], p.HoldsLiteral (.timestamp t.seconds) := by
  refine ⟨List.forall_mem_cons.mpr ⟨hgate.filled, List.forall_mem_singleton.mpr h.filled⟩,
    ?_, fun t ht => ⟨_, List.mem_pair.mpr (.inr rfl), h.held t ht⟩⟩
  rintro literal ⟨p, hp, hheld⟩
  rcases List.mem_pair.mp hp with rfl | rfl
  · exact (hgate.literals literal hheld).imp_right fun ⟨_, h, _⟩ => h.elim
  · exact h.literals literal hheld

/-- A conjunction with a test has the instants of its other part. -/
theorem WritesBut.allOf (hgate : gate.WritesBut fun _ => False) (h : part.WritesBut Holds) :
    (allOf [gate, part]).WritesBut Holds := by
  obtain ⟨hfilled, hliterals, hheld⟩ := hgate.pair h
  exact ⟨filledLists_allOf hfilled,
    fun literal h => hliterals literal (holdsLiteral_allOf_iff.mp h),
    fun t ht => holdsLiteral_allOf_iff.mpr (hheld t ht)⟩

/-- A disjunction with a test has the instants of its other part. -/
theorem WritesBut.anyOf (hgate : gate.WritesBut fun _ => False) (h : part.WritesBut Holds) :
    (anyOf [gate, part]).WritesBut Holds := by
  obtain ⟨hfilled, hliterals, hheld⟩ := hgate.pair h
  exact ⟨filledLists_anyOf hfilled,
    fun literal h => hliterals literal (holdsLiteral_anyOf_iff.mp h),
    fun t ht => holdsLiteral_anyOf_iff.mpr (hheld t ht)⟩

end Pairs

/-- The tests of whether a field is there have truth values for literals. -/
theorem writesBut_presence (target : FilterTarget) :
    target.presence.WritesBut fun _ => False := by
  cases target with
  | vector => exact writesBut_flagIs _ _
  | metadata structs leaf =>
    exact (writesBut_flagIs (FilterTarget.metadataFlag structs leaf) false).allOf
      (writesBut_isNotNull (FilterTarget.metadata structs leaf).column)
  | root column => exact writesBut_isNotNull _

/-- The tests of whether a field is missing have truth values for literals. -/
theorem writesBut_absence (target : FilterTarget) :
    target.absence.WritesBut fun _ => False := by
  cases target with
  | vector => exact writesBut_flagIs _ _
  | metadata structs leaf =>
    exact (writesBut_flagIs (FilterTarget.metadataFlag structs leaf) true).anyOf
      (writesBut_isNull (FilterTarget.metadata structs leaf).column)
  | root column => exact writesBut_isNull _

variable {target : FilterTarget}

/-- A comparison of a field that is there has the literal of the operand. -/
theorem writesBut_gated {literal : Scalar} {Holds : Instant → Prop}
    (h : literal.WritesBut Holds ∧ ∀ t, Holds t → literal = .timestamp t.seconds)
    (target : FilterTarget) (relation : Relation) :
    (gated target relation literal).WritesBut Holds := by
  refine (writesBut_presence target).allOf ⟨.compare .., fun other hother => ?_, fun t ht => ?_⟩
  · rw [holdsLiteral_compare_iff.mp hother]
    exact h.1
  · exact holdsLiteral_compare_iff.mpr (h.2 t ht).symm

/-- A membership has the literals of the list. -/
theorem writesBut_membership {literals : List Scalar} {Holds : Instant → Prop} (hne : literals ≠ [])
    (h : (∀ literal ∈ literals, literal.WritesBut Holds) ∧
      ∀ t, Holds t → .timestamp t.seconds ∈ literals)
    (target : FilterTarget) (negated : Bool) :
    (membership target literals negated).WritesBut Holds := by
  have hlist : (inList target.column literals negated).WritesBut Holds :=
    ⟨.inList _ hne _, fun literal hheld => h.1 literal (holdsLiteral_inList_iff.mp hheld),
      fun t ht => holdsLiteral_inList_iff.mpr (h.2 t ht)⟩
  unfold membership
  split
  · exact (writesBut_absence target).anyOf hlist
  · exact (writesBut_presence target).allOf hlist

/-- What a comparison becomes can be written, but for the native instants of the operand. -/
theorem Lowering.writesBut {field : String} {comparator : Comparator} {operand : Operand}
    {result : Except Error Predicate} (lowering : Lowering field target comparator operand result) :
    ∀ predicate, result = .ok predicate → predicate.WritesBut (operand.HoldsInstant ·) := by
  -- null and the empty list hold no instants
  have hnone : ∀ {predicate : Predicate} {operand : Operand}, (∀ t, ¬ operand.HoldsInstant t) →
      (predicate.WritesBut fun _ => False) → predicate.WritesBut (operand.HoldsInstant ·) :=
    fun hempty h => ⟨h.filled, fun literal hliteral =>
      (h.literals literal hliteral).imp_right fun ⟨_, h, _⟩ => h.elim,
      fun t ht => absurd ht (hempty t)⟩
  have hnull : ∀ t, ¬ Operand.null.HoldsInstant t := by rintro t ⟨⟩
  have hconstant : ∀ b, (constant b).WritesBut fun _ => False :=
    fun b => ⟨.constant b, fun _ h => by (cases h), fun _ h => h.elim⟩
  intro predicate h
  cases lowering with
  | vector | noList => cases h
  | absence =>
    cases h
    exact hnone hnull (writesBut_absence target)
  | presence =>
    cases h
    exact hnone hnull (writesBut_presence target)
  | unordered =>
    cases h
    exact hnone hnull (hconstant false)
  | emptyList =>
    cases h
    refine hnone ?_ (hconstant _)
    rintro t (_ | hitem)
    cases hitem
  | equality relation =>
    obtain ⟨literal, hliteral, rfl⟩ := (map_eq_ok_iff _ _ _).mp h
    exact writesBut_gated (Operand.writesBut_scalar hliteral) target relation
  | ordering relation =>
    obtain ⟨literal, hliteral, rfl⟩ := (map_eq_ok_iff _ _ _).mp h
    exact writesBut_gated (Operand.writesBut_orderedScalar hliteral) target relation
  | @list _ operands plain hne =>
    obtain ⟨literals, hliterals, rfl⟩ := (map_eq_ok_iff _ _ _).mp h
    refine writesBut_membership ?_ (Operand.writesBut_members hliterals) target _
    rintro rfl
    cases Operand.members_eq_ok hliterals
    exact hne rfl

/-- Joined predicates have the instants of all of them. -/
theorem writesBut_joined (connective : DocumentStore.Connective) {conditions : List Filter}
    {parts : List Predicate}
    (h : List.Forall₂ (fun condition part => part.WritesBut (condition.HoldsInstant ·))
      conditions parts) :
    (joined connective parts).WritesBut
      fun t => ∃ condition ∈ conditions, condition.HoldsInstant t := by
  have hfilled : ∀ part ∈ parts, part.FilledLists := by
    intro part hpart
    obtain ⟨condition, -, hwrites⟩ := exists_related h.flip hpart
    exact hwrites.filled
  have hliterals : ∀ literal, (∃ part ∈ parts, part.HoldsLiteral literal) →
      literal.WritesBut fun t => ∃ condition ∈ conditions, condition.HoldsInstant t := by
    rintro literal ⟨part, hpart, hheld⟩
    obtain ⟨condition, hcondition, hwrites⟩ := exists_related h.flip hpart
    exact (hwrites.literals literal hheld).imp_right
      fun ⟨t, ht, heq⟩ => ⟨t, ⟨condition, hcondition, ht⟩, heq⟩
  have hheld : ∀ t, (∃ condition ∈ conditions, condition.HoldsInstant t) →
      ∃ part ∈ parts, part.HoldsLiteral (.timestamp t.seconds) := by
    rintro t ⟨condition, hcondition, ht⟩
    obtain ⟨part, hpart, hwrites⟩ := exists_related h hcondition
    exact ⟨part, hpart, hwrites.held t ht⟩
  cases connective with
  | and =>
    exact ⟨.and hfilled, fun literal h => hliterals literal (holdsLiteral_and_iff.mp h),
      fun t ht => holdsLiteral_and_iff.mpr (hheld t ht)⟩
  | or =>
    exact ⟨.or hfilled, fun literal h => hliterals literal (holdsLiteral_or_iff.mp h),
      fun t ht => holdsLiteral_or_iff.mpr (hheld t ht)⟩
  | not =>
    exact ⟨.not (.and hfilled), fun literal h =>
      hliterals literal (holdsLiteral_and_iff.mp (holdsLiteral_not_iff.mp h)),
      fun t ht => .not (holdsLiteral_and_iff.mpr (hheld t ht))⟩

/-- The predicate of a filter can be written, but for the native instants of the filter. -/
theorem writesBut_ofFilter (filter : Filter) :
    ∀ predicate, ofFilter filter = .ok predicate →
      predicate.WritesBut (filter.HoldsInstant ·) := by
  induction filter using Filter.conditions_induction with
  | comparison field comparator operand =>
    intro predicate h
    rw [ofFilter] at h
    obtain ⟨target, hparse, -⟩ := (bind_eq_ok_iff _ _ _).mp h
    have hwrites := (lowering_ofComparison hparse comparator operand).writesBut predicate h
    refine ⟨hwrites.filled, fun literal hliteral => ?_, ?_⟩
    · exact (hwrites.literals literal hliteral).imp_right
        fun ⟨t, ht, heq⟩ => ⟨t, .comparison ht, heq⟩
    · rintro t ⟨ht⟩
      exact hwrites.held t ht
  | combination connective conditions ih =>
    intro predicate h
    cases conditions with
    | nil => cases h
    | cons condition rest =>
      rw [ofFilter_combination (List.cons_ne_nil condition rest), map_eq_ok_iff] at h
      obtain ⟨parts, hparts, rfl⟩ := h
      have hall : List.Forall₂ (fun condition part => part.WritesBut (condition.HoldsInstant ·))
          (condition :: rest) parts := by
        have hmade := (List.forall₂_and_left _ _).mpr ⟨ih, (mapM_eq_ok_iff _ _ _).mp hparts⟩
        exact hmade.imp fun condition part ⟨hwrites, hpart⟩ => hwrites part hpart
      have hwrites := writesBut_joined connective hall
      refine ⟨hwrites.filled, fun literal hliteral => ?_, ?_⟩
      · exact (hwrites.literals literal hliteral).imp_right
          fun ⟨t, ⟨inner, hinner, ht⟩, heq⟩ => ⟨t, .combination hinner ht, heq⟩
      · rintro t (_ | ⟨hinner, ht⟩)
        exact hwrites.held t ⟨_, hinner, ht⟩

end Predicate

end DocumentStore
