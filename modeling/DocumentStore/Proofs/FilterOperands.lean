import DocumentStore.Proofs.FilterFields
import DocumentStore.Proofs.Rounding
import DocumentStore.Proofs.WritablePredicates

/-!
# Values that the operators of filters take

An embedding is only compared with null. Any other field may equal a single value, an order asks for
a single value that has one, which a text has only as a date, and membership asks for a list of
single values. A comparison becomes a predicate exactly when its operator takes its value, and is
refused as a filter otherwise; only a date outside the calendar is refused in another way.
-/

set_option autoImplicit false

namespace DocumentStore

namespace Json

/-- A single value that is not null. -/
inductive IsLiteral : Json → Prop where
  | bool (b : Bool) : IsLiteral (.bool b)
  | number (n : Number) : IsLiteral (.number n)
  | string (s : String) : IsLiteral (.string s)

/-- A single value that has an order; a text has to be a date. -/
inductive IsOrdered : Json → Prop where
  | bool (b : Bool) : IsOrdered (.bool b)
  | number (n : Number) : IsOrdered (.number n)
  | date {s : String} {t : Instant} (h : Time.read s = .instant t) : IsOrdered (.string s)

/-- The operator takes the value for a field. An embedding can only be compared with null. -/
inductive Suits (isVector : Bool) : Comparator → Json → Prop where
  | null {comparator : Comparator} (single : comparator ≠ .isIn ∧ comparator ≠ .notIn) :
    Suits isVector comparator .null
  | equality {comparator : Comparator} {value : Json} (plain : isVector = false)
      (equality : comparator = .eq ∨ comparator = .notEq) (literal : value.IsLiteral) :
    Suits isVector comparator value
  | ordering {comparator : Comparator} {value : Json} (plain : isVector = false)
      (ordering : comparator.isOrdering = true) (ordered : value.IsOrdered) :
    Suits isVector comparator value
  | membership {comparator : Comparator} {items : List Json} (plain : isVector = false)
      (membership : comparator = .isIn ∨ comparator = .notIn)
      (literals : ∀ item ∈ items, item.IsLiteral) : Suits isVector comparator (.array items)

end Json

/-! ## Operands -/

namespace Operand

/-- The items of a list are read one by one. -/
theorem ofItems_eq_map (items : List Json) : ofItems items = items.map ofJson := by
  induction items with
  | nil => rfl
  | cons item rest ih => rw [ofItems, ih, List.map_cons]

/-- Only null is read as the null operand. -/
theorem isNull_ofJson (value : Json) : (ofJson value).isNull = true ↔ value = .null := by
  cases value with
  | number n =>
    cases n with
    | integer n fits =>
      rw [ofJson]
      split <;> simp [isNull]
    | float x finite => simp [ofJson, isNull]
  | _ => simp [ofJson, isNull]

/-- Only an array is read as a list, of its items. -/
theorem ofJson_eq_list_iff (value : Json) (operands : List Operand) :
    ofJson value = .list operands ↔ ∃ items, value = .array items ∧ ofItems items = operands := by
  cases value with
  | number n =>
    cases n with
    | integer n fits =>
      rw [ofJson]
      split <;> simp
    | float x finite => simp [ofJson]
  | _ => simp [ofJson]

variable {field : String} {comparator : Comparator}

/-- Every number has a literal, since no number of 64 bits is rounded to infinity. -/
theorem exists_scalar_of_number (n : Json.Number) :
    ∃ literal, (ofJson (.number n)).scalar field comparator = .ok literal ∧
      ∀ s, literal ≠ .string s := by
  cases n with
  | integer n fits =>
    rw [ofJson]
    split
    · exact ⟨.int (Int64.ofInt n), rfl, by simp⟩
    · have hfinite : (Floating.ofInt n : Binary64).isFinite = true :=
        Floating.isFinite_ofInt (by omega)
      exact ⟨.float (Floating.ofInt n), if_pos hfinite, by simp⟩
  | float x finite => exact ⟨.float x, if_pos finite, by simp⟩

/-- The values with a literal are the single values. -/
theorem scalar_isOk_iff (value : Json) :
    (∃ literal, (ofJson value).scalar field comparator = .ok literal) ↔ value.IsLiteral := by
  constructor
  · rintro ⟨literal, h⟩
    cases value with
    | bool b => exact .bool b
    | number n => exact .number n
    | string s => exact .string s
    | null | array items | object members => cases h
  · intro h
    cases h with
    | bool b => exact ⟨_, rfl⟩
    | number n =>
      obtain ⟨literal, hliteral, -⟩ := exists_scalar_of_number n
      exact ⟨literal, hliteral⟩
    | string s => exact ⟨_, rfl⟩

/-- An operand that is no literal is refused as a filter. -/
theorem scalar_eq_error {operand : Operand} {e : Error}
    (h : operand.scalar field comparator = .error e) : ∃ cause, e = .filter cause := by
  cases operand with
  | float x =>
    rw [scalar] at h
    split at h <;> cases h
    exact ⟨_, rfl⟩
  | null | list items | map entries =>
    cases h
    exact ⟨_, rfl⟩
  | bool b | int n | string s | timestamp t | dataframe frame => cases h

/-- A literal that is no text is the literal of an ordering as well. -/
theorem orderedScalar_of_scalar {operand : Operand} {literal : Scalar}
    (h : operand.scalar field comparator = .ok literal) (plain : ∀ s, literal ≠ .string s) :
    operand.orderedScalar field comparator = .ok literal := by
  unfold orderedScalar
  rw [h, ok_bind]
  split
  · next s => exact absurd rfl (plain s)
  · rfl

/-- A text is compared by order as the date that it names. -/
theorem orderedScalar_string (s : String) : (string s).orderedScalar field comparator =
    match Time.read s with
    | .instant t => .ok (.timestamp t.seconds)
    | .invalid => .error (.filter (.dateExpected field comparator.text s))
    | .outside => .error .beyondCalendar := by
  unfold orderedScalar Instant.ofText
  rw [scalar, ok_bind]
  dsimp only
  cases Time.read s <;> rfl

/-- The values with a literal for a comparison by order are the ordered values. -/
theorem orderedScalar_isOk_iff (value : Json) :
    (∃ literal, (ofJson value).orderedScalar field comparator = .ok literal) ↔
      value.IsOrdered := by
  constructor
  · rintro ⟨literal, h⟩
    cases value with
    | bool b => exact .bool b
    | number n => exact .number n
    | string s =>
      rw [ofJson, orderedScalar_string] at h
      split at h
      · next t ht => exact .date ht
      · cases h
      · cases h
    | null | array items | object members => cases h
  · intro h
    cases h with
    | bool b => exact ⟨_, rfl⟩
    | number n =>
      obtain ⟨literal, hliteral, hplain⟩ := exists_scalar_of_number n
      exact ⟨literal, orderedScalar_of_scalar hliteral hplain⟩
    | @date s t ht =>
      refine ⟨.timestamp t.seconds, ?_⟩
      rw [ofJson, orderedScalar_string, ht]

/-- An operand that cannot be ordered is refused as a filter, or it is a text past the calendar. -/
theorem orderedScalar_eq_error {value : Json} {e : Error}
    (h : (ofJson value).orderedScalar field comparator = .error e) :
    (∃ cause, e = .filter cause) ∨
      (e = .beyondCalendar ∧ ∃ s, value = .string s ∧ Time.read s = .outside) := by
  cases value with
  | string s =>
    rw [ofJson, orderedScalar_string] at h
    split at h
    · cases h
    · cases h
      exact Or.inl ⟨_, rfl⟩
    · next houtside =>
      cases h
      exact Or.inr ⟨rfl, s, rfl, houtside⟩
  | number n =>
    obtain ⟨literal, hliteral, hplain⟩ := exists_scalar_of_number n
    rw [orderedScalar_of_scalar hliteral hplain] at h
    cases h
  | bool b => cases h
  | null | array items | object members =>
    cases h
    exact Or.inl ⟨_, rfl⟩

/-- The members of a list are its items, each with a literal of its own. -/
theorem members_eq_mapM (operands : List Operand) : members field comparator operands =
    operands.mapM fun operand =>
      if operand.isNull then .error (.filter (.nullMember field comparator.text))
      else operand.scalar field comparator := by
  induction operands with
  | nil => rfl
  | cons operand rest ih =>
    rw [members, List.mapM_cons, ih]
    split <;> rfl

/-- The lists of which every member has a literal are those of single values. -/
theorem members_isOk_iff (items : List Json) :
    (∃ literals, members field comparator (ofItems items) = .ok literals) ↔
      ∀ item ∈ items, item.IsLiteral := by
  rw [members_eq_mapM, mapM_isOk_iff, ofItems_eq_map, List.forall_mem_map]
  refine forall₂_congr fun item _ => ?_
  by_cases hnull : item = .null
  · subst hnull
    constructor
    · rintro ⟨literal, h⟩
      cases h
    · intro h
      cases h
  · rw [if_neg (mt (isNull_ofJson item).mp hnull)]
    exact scalar_isOk_iff item

/-- A list with an item that is no literal is refused as a filter. -/
theorem members_eq_error {operands : List Operand} {e : Error}
    (h : members field comparator operands = .error e) : ∃ cause, e = .filter cause := by
  rw [members_eq_mapM, mapM_eq_error_iff] at h
  obtain ⟨before, operand, after, -, -, h⟩ := h
  split at h
  · cases h
    exact ⟨_, rfl⟩
  · exact scalar_eq_error h

end Operand

/-! ## Comparisons -/

namespace Json

variable {comparator : Comparator} {value : Json}

/-- Null suits all operators but membership. -/
theorem suits_null_iff {isVector : Bool} :
    Suits isVector comparator .null ↔ comparator ≠ .isIn ∧ comparator ≠ .notIn := by
  constructor
  · rintro (single | ⟨-, -, ⟨⟩⟩ | ⟨-, -, ⟨⟩⟩)
    exact single
  · exact .null

/-- A vector suits only the null tests. -/
theorem suits_vector_iff : Suits true comparator value ↔
    value = .null ∧ comparator ≠ .isIn ∧ comparator ≠ .notIn := by
  constructor
  · rintro (single | ⟨plain, -, -⟩ | ⟨plain, -, -⟩ | ⟨plain, -, -⟩)
    · exact ⟨rfl, single⟩
    all_goals cases plain
  · rintro ⟨rfl, single⟩
    exact .null single

/-- An equality suits literals. -/
theorem suits_equality_iff (hnull : value ≠ .null)
    (equality : comparator = .eq ∨ comparator = .notEq) :
    Suits false comparator value ↔ value.IsLiteral := by
  constructor
  · rintro (_ | ⟨-, -, literal⟩ | ⟨-, ordering, -⟩ | ⟨-, membership, -⟩)
    · exact absurd rfl hnull
    · exact literal
    · rcases equality with rfl | rfl <;> cases ordering
    · rcases equality with rfl | rfl <;> simp at membership
  · exact .equality rfl equality

/-- An ordering suits what has an order. -/
theorem suits_ordering_iff (hnull : value ≠ .null) (ordering : comparator.isOrdering = true) :
    Suits false comparator value ↔ value.IsOrdered := by
  constructor
  · rintro (_ | ⟨-, equality, -⟩ | ⟨-, -, ordered⟩ | ⟨-, membership, -⟩)
    · exact absurd rfl hnull
    · rcases equality with rfl | rfl <;> cases ordering
    · exact ordered
    · rcases membership with rfl | rfl <;> cases ordering
  · exact .ordering rfl ordering

/-- A membership suits lists of literals. -/
theorem suits_membership_iff (membership : comparator = .isIn ∨ comparator = .notIn) :
    Suits false comparator value ↔
      ∃ items, value = .array items ∧ ∀ item ∈ items, item.IsLiteral := by
  constructor
  · rintro (single | ⟨-, equality, -⟩ | ⟨-, ordering, -⟩ | ⟨-, -, literals⟩)
    · rcases membership with rfl | rfl <;> simp at single
    · rcases membership with rfl | rfl <;> simp at equality
    · rcases membership with rfl | rfl <;> cases ordering
    · exact ⟨_, rfl, literals⟩
  · rintro ⟨items, rfl, literals⟩
    exact .membership rfl membership literals

end Json

namespace Predicate

variable {comparator : Comparator} {value : Json}

/-- A comparison becomes a predicate exactly when its operator takes the value. -/
theorem Lowering.isOk_iff {field : String} {target : FilterTarget} {isVector : Bool}
    (hvector : target = .vector ↔ isVector = true) {operand : Operand}
    {result : Except Error Predicate} (lowering : Lowering field target comparator operand result)
    (hvalue : operand = Operand.ofJson value) :
    (∃ predicate, result = .ok predicate) ↔ Json.Suits isVector comparator value := by
  have hplain (plain : target ≠ .vector) : isVector = false := by
    simpa using mt hvector.mpr plain
  have hsome (hnull : operand.isNull = false) : value ≠ .null := by
    rintro rfl
    rw [hvalue] at hnull
    cases hnull
  cases lowering with
  | vector htarget hnull =>
    rw [hvector.mp htarget, Json.suits_vector_iff]
    simp [hsome hnull]
  | absence | presence =>
    rw [(Operand.isNull_ofJson value).mp (by rw [← hvalue]; rfl), Json.suits_null_iff]
    simp
  | unordered hordering =>
    rw [(Operand.isNull_ofJson value).mp (by rw [← hvalue]; rfl), Json.suits_null_iff]
    refine ⟨fun _ => ⟨?_, ?_⟩, fun _ => ⟨_, rfl⟩⟩ <;> rintro rfl <;> cases hordering
  | equality relation plain hnull hequality hrelation =>
    rw [map_isOk_iff, hvalue, Operand.scalar_isOk_iff, hplain plain,
      Json.suits_equality_iff (hsome hnull) hequality]
  | ordering relation plain hnull hordering hrelation =>
    rw [map_isOk_iff, hvalue, Operand.orderedScalar_isOk_iff, hplain plain,
      Json.suits_ordering_iff (hsome hnull) hordering]
  | emptyList plain hmembership =>
    obtain ⟨items, rfl, hitems⟩ := (Operand.ofJson_eq_list_iff value []).mp hvalue.symm
    rw [hplain plain, Json.suits_membership_iff hmembership]
    rw [Operand.ofItems_eq_map, List.map_eq_nil_iff] at hitems
    simp [hitems]
  | list plain hne hmembership =>
    obtain ⟨items, rfl, rfl⟩ := (Operand.ofJson_eq_list_iff value _).mp hvalue.symm
    rw [map_isOk_iff, Operand.members_isOk_iff, hplain plain,
      Json.suits_membership_iff hmembership]
    simp
  | noList hlist hmembership =>
    constructor
    · rintro ⟨predicate, h⟩
      cases h
    · rintro (single | ⟨-, equality, -⟩ | ⟨-, ordering, -⟩ | ⟨-, -, literals⟩)
      · rcases hmembership with rfl | rfl <;> simp at single
      · rcases hmembership with rfl | rfl <;> simp at equality
      · rcases hmembership with rfl | rfl <;> cases ordering
      · exact absurd hvalue (hlist _)

/-- A comparison that does not become a predicate is refused as a filter, unless it compares by order
with a date outside the calendar. -/
theorem Lowering.eq_error {field : String} {target : FilterTarget} {operand : Operand}
    {result : Except Error Predicate} (lowering : Lowering field target comparator operand result)
    (hvalue : operand = Operand.ofJson value) {e : Error} (h : result = .error e) :
    (∃ cause, e = .filter cause) ∨ (e = .beyondCalendar ∧ comparator.isOrdering = true ∧
      ∃ s, value = .string s ∧ Time.read s = .outside) := by
  cases lowering with
  | vector | noList =>
    cases h
    exact Or.inl ⟨_, rfl⟩
  | absence | presence | unordered | emptyList => cases h
  | equality => exact Or.inl (Operand.scalar_eq_error ((map_eq_error_iff _ _ _).mp h))
  | list => exact Or.inl (Operand.members_eq_error ((map_eq_error_iff _ _ _).mp h))
  | ordering relation plain hnull hordering hrelation =>
    rw [hvalue, map_eq_error_iff] at h
    refine (Operand.orderedScalar_eq_error h).imp_right ?_
    rintro ⟨he, hdate⟩
    exact ⟨he, hordering, hdate⟩

end Predicate

end DocumentStore
