import DocumentStore.Proofs.Membership
import DocumentStore.Proofs.StoredLeaves

/-!
# One order behind six operators

Equality takes the literal of its operand as it stands, an order reads the date that a text names
first, and a stored number is compared with an integer exactly, with a floating-point number in double
precision. For operands that a leaf can be compared with, all six operators nevertheless rest on one
order of the stored value to one literal: a date as text stands for the second of its instant, whether
it is read while the filter becomes a predicate or while the predicate is evaluated.
-/

set_option autoImplicit false

namespace DocumentStore

/-! ## Relations -/

namespace Relation

/-- The comparator that asks for the relation. -/
def comparator : Relation → Comparator
  | .eq => .eq
  | .notEq => .notEq
  | .less => .less
  | .lessEq => .lessEq
  | .greater => .greater
  | .greaterEq => .greaterEq

/-- The relations that hold are those of one order: exactly one of less, equal and greater holds, and
the others follow from these. -/
structure Consistent (selected : Relation → Bool) : Prop where
  exactlyOne : [selected .less, selected .eq, selected .greater].count true = 1
  lessEq : selected .lessEq = (selected .less || selected .eq)
  greaterEq : selected .greaterEq = (selected .greater || selected .eq)
  notEq : selected .notEq = !selected .eq

/-- The relations that hold of one order are consistent. -/
theorem consistent_holds (order : Ordering) : Consistent fun relation => relation.holds order := by
  cases order <;> constructor <;> rfl

end Relation

/-! ## Operands -/

namespace DataType

/-- Whether the values of a type are numbers. -/
def isNumeric : DataType → Bool
  | .int32 | .int64 | .float32 | .float64 => true
  | _ => false

end DataType

/-- A date as text is compared as the second of its instant. -/
theorem Cell.compareTo_date (second : Int64) {s : String} {t : Instant}
    (h : Instant.parse s = .ok t) :
    (Cell.timestamp second).compareTo (.string s) =
      (Cell.timestamp second).compareTo (.timestamp t.seconds) := by
  have hread : Instant.ofText s (.filter (.notDate s)) = .ok t := by
    unfold Instant.ofText
    rw [Instant.read_of_ofText h]
  show (do
    let t ← Instant.ofText s (.filter (.notDate s))
    return some (compare second.toInt t.seconds.toInt) : Except Error (Option Ordering)) = _
  rw [hread]
  rfl

namespace Operand

/-- The operand can be compared with values of the type, and stands for the literal then. -/
inductive Means : DataType → Operand → Scalar → Prop
  | int {type : DataType} (numeric : type.isNumeric = true) (n : Int64) :
    Means type (.int n) (.int n)
  | float {type : DataType} (numeric : type.isNumeric = true) {x : Binary64}
      (finite : x.isFinite = true) : Means type (.float x) (.float x)
  | bool (b : Bool) : Means .boolean (.bool b) (.bool b)
  | timestamp (zone : Option String) (t : Instant) :
    Means (.timestamp .second zone) (.timestamp t) (.timestamp t.seconds)
  | date (zone : Option String) {s : String} {t : Instant} (h : Instant.parse s = .ok t) :
    Means (.timestamp .second zone) (.string s) (.timestamp t.seconds)

variable {type : DataType} {operand : Operand} {literal : Scalar}

/-- An operand that means a literal is not null. -/
theorem Means.isNull_eq (h : Means type operand literal) : operand.isNull = false := by
  cases h <;> rfl

/-- An operand means a literal only of a leaf. -/
theorem Means.members?_eq_none (h : Means type operand literal) : type.members? = none := by
  cases h with
  | int numeric | float numeric => cases type <;> first | rfl | cases numeric
  | bool | timestamp | date => rfl

/-- For a comparison by order the literal of an operand is what it stands for. -/
theorem Means.orderedScalar_eq (h : Means type operand literal) (field : String)
    (comparator : Comparator) : operand.orderedScalar field comparator = .ok literal := by
  cases h with
  | float _ finite => exact orderedScalar_of_scalar (if_pos finite) (by simp)
  | date zone h =>
    rw [orderedScalar_string, Instant.read_of_ofText h]
  | _ => rfl

/-- For an equality the literal of an operand is compared as what it stands for. -/
theorem Means.exists_scalar (h : Means type operand literal) (field : String)
    (comparator : Comparator) :
    ∃ plain, operand.scalar field comparator = .ok plain ∧
      ∀ {nullable value cell}, Cell.Encodes type nullable value cell →
        cell.compareTo plain = cell.compareTo literal := by
  cases h with
  | float _ finite => exact ⟨_, if_pos finite, fun _ => rfl⟩
  | @date zone s t h =>
    refine ⟨.string s, rfl, fun hencodes => ?_⟩
    cases hencodes with
    | null => rfl
    | timestamp | timestampText => exact Cell.compareTo_date _ h
  | _ => exact ⟨_, rfl, fun _ => rfl⟩

end Operand

/-! ## Stored values -/

/-- Two numbers can be compared unless one of them is no number. -/
theorem Floating.isSome_compare? {f : Floating.Format} (x y : Floating f) :
    (x.compare? y).isSome = (x.units?.isSome && y.units?.isSome) := by
  unfold Floating.compare?
  cases x.units? <;> cases y.units? <;> rfl

/-- A finite number has its units. -/
theorem Floating.isSome_units?_of_isFinite {f : Floating.Format} {x : Floating f}
    (h : x.isFinite = true) : x.units?.isSome = true := by
  cases x with
  | nan => cases h
  | signed => rfl

/-- Conversion keeps what is not a number, and makes nothing else of that kind. -/
theorem Floating.isSome_units?_convert {f g : Floating.Format} (x : Floating f) :
    (x.convert g).units?.isSome = x.units?.isSome := by
  cases x with
  | nan => rfl
  | signed negative code =>
    unfold Floating.convert
    dsimp only
    split <;> rfl

/-- Whether a value has an order to others of its kind: it is not null, and it is a number if it is a
floating-point datum. -/
def MetaValue.isOrdered : MetaValue → Bool
  | .null => false
  | .float x => x.units?.isSome
  | _ => true

/-- A stored number has an order to a finite number exactly when it is a number itself. -/
theorem Cell.Encodes.exists_compare_number {type : DataType} {nullable : Bool} {value : MetaValue}
    {cell : Cell} (h : Cell.Encodes type nullable value cell) (numeric : type.isNumeric = true)
    {literal : Scalar}
    (hliteral : (∃ n, literal = .int n) ∨ ∃ x, literal = .float x ∧ x.units?.isSome = true) :
    ∃ order, cell.compareTo literal = .ok order ∧ order.isSome = value.isOrdered := by
  have hordered : ∀ x y : Binary64, x.units?.isSome = value.isOrdered → y.units?.isSome = true →
      (x.compare? y).isSome = value.isOrdered := by
    intro x y hx hy
    rw [Floating.isSome_compare?, hx, hy, Bool.and_true]
  rcases hliteral with ⟨n, rfl⟩ | ⟨x, rfl, hx⟩
  · cases h with
    | null => exact ⟨none, rfl, rfl⟩
    | int32 | int64 => exact ⟨_, rfl, rfl⟩
    | float32 y =>
      refine ⟨_, rfl, hordered _ _ ?_ rfl⟩
      rw [Floating.isSome_units?_convert, Floating.isSome_units?_convert]
      rfl
    | float32OfInt => exact ⟨_, rfl, hordered _ _ (Floating.isSome_units?_convert _) rfl⟩
    | float64 | float64OfInt => exact ⟨_, rfl, hordered _ _ rfl rfl⟩
    | utf8 | boolean | binary | timestamp | timestampText => cases numeric
  · cases h with
    | null => exact ⟨none, rfl, rfl⟩
    | int32 | int64 | float64 | float64OfInt => exact ⟨_, rfl, hordered _ _ rfl hx⟩
    | float32 y =>
      refine ⟨_, rfl, hordered _ _ ?_ hx⟩
      rw [Floating.isSome_units?_convert, Floating.isSome_units?_convert]
      rfl
    | float32OfInt => exact ⟨_, rfl, hordered _ _ (Floating.isSome_units?_convert _) hx⟩
    | utf8 | boolean | binary | timestamp | timestampText => cases numeric

/-- A stored value has an order to what an operand stands for exactly when it has one to anything. -/
theorem Cell.Encodes.exists_compare {type : DataType} {nullable : Bool} {value : MetaValue}
    {cell : Cell} (h : Cell.Encodes type nullable value cell) {operand : Operand} {literal : Scalar}
    (means : operand.Means type literal) :
    ∃ order, cell.compareTo literal = .ok order ∧ order.isSome = value.isOrdered := by
  cases means with
  | int numeric n => exact h.exists_compare_number numeric (Or.inl ⟨n, rfl⟩)
  | float numeric finite =>
    exact h.exists_compare_number numeric
      (Or.inr ⟨_, rfl, Floating.isSome_units?_of_isFinite finite⟩)
  | bool =>
    cases h with
    | null => exact ⟨none, rfl, rfl⟩
    | boolean => exact ⟨_, rfl, rfl⟩
  | timestamp | date =>
    cases h with
    | null => exact ⟨none, rfl, rfl⟩
    | timestamp | timestampText => exact ⟨_, rfl, rfl⟩

/-- Whether a stored value has the relation to a literal; without an order it has none. -/
def Cell.relatesTo (cell : Cell) (literal : Scalar) (relation : Relation) : Bool :=
  match cell.compareTo literal with
  | .ok order => order.any relation.holds
  | .error _ => false

/-- A cell relates to a literal as their order does. -/
theorem Cell.relatesTo_eq {cell : Cell} {literal : Scalar} {order : Option Ordering}
    (h : cell.compareTo literal = .ok order) :
    cell.relatesTo literal = fun relation => order.any relation.holds := by
  unfold relatesTo
  rw [h]

/-- Stored instants are compared by their seconds. -/
theorem Cell.Encodes.relatesTo_timestamp {zone : Option String} {nullable : Bool}
    {value : MetaValue} {cell : Cell} (h : Cell.Encodes (.timestamp .second zone) nullable value cell)
    {t : Instant} (hvalue : value = .timestamp t ∨ ∃ s, value = .string s ∧ Instant.parse s = .ok t)
    (second : Int64) (relation : Relation) :
    cell.relatesTo (.timestamp second) relation =
      relation.holds (compare t.seconds.toInt second.toInt) := by
  rcases hvalue with rfl | ⟨s, rfl, hparse⟩
  · cases h
    rfl
  · cases h with
    | timestampText _ reads =>
      rw [Instant.read_of_ofText hparse] at reads
      cases reads
      rfl

/-! ## Predicates -/

namespace Predicate

variable {field : String} {target : FilterTarget} {row : Row}

/-- A comparison with an operand that stands for a literal is gated, and its literal is compared as
what the operand stands for. -/
theorem exists_ofComparison (hparse : FilterTarget.parse field = .ok target)
    (plain : target ≠ .vector) {type : DataType} {operand : Operand} {literal : Scalar}
    (means : operand.Means type literal) (relation : Relation) :
    ∃ other, ofComparison field relation.comparator operand = .ok (gated target relation other) ∧
      ∀ {nullable value cell}, Cell.Encodes type nullable value cell →
        cell.compareTo other = cell.compareTo literal := by
  obtain ⟨other, hother, hsame⟩ := means.exists_scalar field relation.comparator
  have hordered := means.orderedScalar_eq field relation.comparator
  unfold ofComparison
  rw [hparse, ok_bind, if_neg fun hv => plain hv.1, means.isNull_eq]
  cases relation with
  | eq | notEq =>
    refine ⟨other, ?_, hsame⟩
    dsimp only [Relation.comparator] at hother ⊢
    rw [hother]
    rfl
  | less | lessEq | greater | greaterEq =>
    refine ⟨literal, ?_, fun _ => rfl⟩
    dsimp only [Relation.comparator] at hordered ⊢
    rw [hordered]
    rfl

/-- A comparison behind the null tests of a missing field selects nothing. -/
theorem selects_gated_of_false (decides : target.Decides row false) (relation : Relation)
    (literal : Scalar) : (gated target relation literal).selects row = .ok false := by
  have hgated : (gated target relation literal).evaluate row = .ok (some false) :=
    evaluate_allOf_of_false decides.presence
  rw [selects_eq_map, hgated]
  rfl

/-- Where the field is there, the relation has to hold for the order of its value to the literal. -/
theorem selects_gated_of_true (decides : target.Decides row true) {cell : Cell}
    (hcell : Row.path? row target.column = some cell) (relation : Relation) {literal : Scalar}
    {order : Option Ordering} (horder : cell.compareTo literal = .ok order) :
    (gated target relation literal).selects row = .ok (order.any relation.holds) := by
  rw [selects_eq_map, evaluate_gated_of_true decides hcell, horder]
  cases order with
  | none => rfl
  | some order =>
    show Except.ok (decide (some (relation.holds order) = some true)) = _
    simp

end Predicate

/-! ## Rows of documents -/

namespace DocumentField

/-- A document has a value in a metadata field when one stands at its path that is not null. -/
theorem isIn_metadata (document : Document) (names : List String) :
    (DocumentField.metadata names).isIn document =
      ((MetaValue.map document.metadata).at? names).any fun value => !value.isNull := by
  show MetaValue.hasAt _ _ = _
  unfold MetaValue.hasAt
  rw [Option.bind_some]
  cases (MetaValue.map document.metadata).at? names <;> rfl

section DeclaredLeaf

variable {document : Document} {row : Row} {fields : List Field} {width : Int64} {schema : Schema}
  {names : List String} {leaf : DataType}
  (hschema : Schema.ofMetadata fields width = .ok schema) (hrow : document.toRow schema = .ok row)
  (declared : (DataType.struct fields).DeclaresAs names leaf)
  (pointFree : ∀ name ∈ names, '.' ∉ name.toList)

include hschema hrow declared pointFree

/-- Where the document has no value that is not null, nothing is selected. -/
theorem selects_of_absent
    (habsent : (MetaValue.map document.metadata).at? names = none ∨
      (MetaValue.map document.metadata).at? names = some .null)
    {operand : Operand} {literal : Scalar} (means : operand.Means leaf literal)
    (relation : Relation) :
    ∃ p, Predicate.ofFilter (.comparison (DocumentField.metadata names).text relation.comparator
      operand) = .ok p ∧ p.selects row = .ok false := by
  have hparse := parse_text_of_declares hschema declared.declares pointFree
  have hdecides : (DocumentField.metadata names).target.Decides row _ :=
    decides_toRow hschema hrow declared.declares
  have hhas : (DocumentField.metadata names).isIn document = false := by
    rw [isIn_metadata]
    rcases habsent with h | h <;> rw [h] <;> rfl
  have htarget : (DocumentField.metadata names).target ≠ .vector := nofun
  obtain ⟨other, hp, -⟩ := Predicate.exists_ofComparison hparse htarget means relation
  rw [hhas] at hdecides
  exact ⟨_, hp, Predicate.selects_gated_of_false hdecides _ _⟩

/-- Where the document has a value that is not null, the stored value is compared. -/
theorem exists_compareTo {value : MetaValue}
    (hvalue : (MetaValue.map document.metadata).at? names = some value)
    (hnull : value.isNull = false) (hleaf : leaf.members? = none) :
    ∃ nullable cell, Cell.Encodes leaf nullable value cell ∧
      ∀ {operand literal order}, Operand.Means leaf operand literal →
        cell.compareTo literal = .ok order → ∀ relation : Relation,
          ∃ p, Predicate.ofFilter (.comparison (DocumentField.metadata names).text
              relation.comparator operand) = .ok p ∧
            p.selects row = .ok (order.any relation.holds) := by
  have hparse := parse_text_of_declares hschema declared.declares pointFree
  have hdecides : (DocumentField.metadata names).target.Decides row _ :=
    decides_toRow hschema hrow declared.declares
  have hhas : (DocumentField.metadata names).isIn document = true := by
    rw [isIn_metadata, hvalue, Option.any_some, hnull]
    rfl
  obtain ⟨hcolumn, htarget⟩ :
      (DocumentField.metadata names).target.column = (DocumentField.metadata names).names ∧
        (DocumentField.metadata names).target ≠ .vector := column_target rfl declared.declares
  obtain ⟨nullable, cell, hcell, hencodes⟩ :=
    exists_encoded hschema hrow declared hleaf hvalue
  rw [hhas] at hdecides
  rw [← hcolumn] at hcell
  refine ⟨nullable, cell, hencodes, fun means horder relation => ?_⟩
  obtain ⟨other, hp, hsame⟩ := Predicate.exists_ofComparison hparse htarget means relation
  refine ⟨_, hp, Predicate.selects_gated_of_true hdecides hcell relation ?_⟩
  rw [hsame hencodes, horder]

/-- The six operators form one order. For a declared leaf and an operand that it can be compared with,
what each of them selects is decided by the literal that the operand stands for, so a date selects the
same as the instant that it names. Where the document has a value that has an order, the relations are
consistent; where it has none, nothing is selected. For a stored instant they are the relations of the
seconds. -/
theorem comparisons_consistent :
    ∃ selected : Scalar → Relation → Bool, ∀ operand literal, Operand.Means leaf operand literal →
      (∀ relation : Relation, ∃ p, Predicate.ofFilter (.comparison
          (DocumentField.metadata names).text relation.comparator operand) = .ok p ∧
        p.selects row = .ok (selected literal relation)) ∧
      (((MetaValue.map document.metadata).at? names).any MetaValue.isOrdered = true →
        Relation.Consistent (selected literal)) ∧
      (((MetaValue.map document.metadata).at? names).any MetaValue.isOrdered = false →
        ∀ relation, selected literal relation = false) ∧
      ∀ (t : Instant) (second : Int64), literal = .timestamp second →
        ((MetaValue.map document.metadata).at? names = some (.timestamp t) ∨
          ∃ s, (MetaValue.map document.metadata).at? names = some (.string s) ∧
            Instant.parse s = .ok t) →
        ∀ relation, selected literal relation =
          relation.holds (compare t.seconds.toInt second.toInt) := by
  have hcases : ((MetaValue.map document.metadata).at? names = none ∨
      (MetaValue.map document.metadata).at? names = some .null) ∨
      ∃ value, (MetaValue.map document.metadata).at? names = some value ∧ value.isNull = false := by
    rcases (MetaValue.map document.metadata).at? names with _ | value
    · exact Or.inl (Or.inl rfl)
    · cases value <;> simp [MetaValue.isNull]
  rcases hcases with habsent | ⟨value, hvalue, hnull⟩
  · refine ⟨fun _ _ => false, fun operand literal means => ⟨fun relation => ?_, fun hordered => ?_,
      fun _ _ => rfl, fun t second _ hvalue => ?_⟩⟩
    · exact selects_of_absent hschema hrow declared pointFree habsent means relation
    · rcases habsent with h | h <;> rw [h] at hordered <;> cases hordered
    · rcases habsent with h | h <;> rw [h] at hvalue <;> simp at hvalue
  · by_cases hleaf : leaf.members? = none
    · obtain ⟨nullable, cell, hencodes, hcompare⟩ :=
        exists_compareTo hschema hrow declared pointFree hvalue hnull hleaf
      refine ⟨cell.relatesTo, fun operand literal means => ?_⟩
      obtain ⟨order, horder, hordered⟩ := hencodes.exists_compare means
      rw [hvalue, Option.any_some, ← hordered]
      refine ⟨?_, ?_, ?_, ?_⟩
      · rw [Cell.relatesTo_eq horder]
        exact hcompare means horder
      · intro hsome
        obtain ⟨order, rfl⟩ := Option.isSome_iff_exists.mp hsome
        rw [Cell.relatesTo_eq horder]
        exact Relation.consistent_holds order
      · intro hnone relation
        rw [Option.isSome_eq_false_iff, Option.isNone_iff_eq_none] at hnone
        rw [Cell.relatesTo_eq horder, hnone]
        rfl
      · rintro t second rfl hinstant
        simp only [Option.some.injEq] at hinstant
        cases means with
        | timestamp | date => exact hencodes.relatesTo_timestamp hinstant _
    · exact ⟨fun _ _ => false, fun operand literal means => absurd means.members?_eq_none hleaf⟩

end DeclaredLeaf

/-- The beginning of 1970, compared with itself as a local time ahead of universal time. -/
theorem comparisons_consistent_localTime :
    ∃ schema row, Schema.ofMetadata [.plain "due" (.timestamp .second none) true] 2 = .ok schema ∧
      Document.toRow ⟨"a", none, none, none, none,
        ⟨[("due", .timestamp ⟨0, by decide, by decide⟩)]⟩, none⟩ schema = .ok row ∧
      ∀ relation : Relation, ∃ p, Predicate.ofFilter (.comparison
          (DocumentField.metadata ["due"]).text relation.comparator
          (.string "1970-01-01T01:30:00+01:30")) = .ok p ∧
        p.selects row = .ok (relation.holds .eq) := by
  have declared : (DataType.struct [.plain "due" (.timestamp .second none) true]).DeclaresAs
      ["due"] (.timestamp .second none) := DataType.declaresAs_plain (by decide) _ _
  have hnanos : Time.nanos? (Text.trim "1970-01-01T01:30:00+01:30".toList) = some 0 := by decide
  have hparse : Instant.parse "1970-01-01T01:30:00+01:30" = .ok ⟨0, by decide, by decide⟩ := by
    unfold Instant.parse Instant.ofText Time.read
    rw [hnanos]
    rfl
  refine ⟨_, _, rfl, rfl, fun relation => ?_⟩
  obtain ⟨selected, hselected⟩ := @comparisons_consistent ⟨"a", none, none, none, none,
    ⟨[("due", .timestamp ⟨0, by decide, by decide⟩)]⟩, none⟩ _ _ 2 _ _ _ rfl rfl declared (by decide)
  obtain ⟨hp, -, -, hinstant⟩ := hselected _ _ (.date none hparse)
  obtain ⟨p, hp, hselects⟩ := hp relation
  refine ⟨p, hp, hselects.trans ?_⟩
  rw [hinstant _ _ rfl (Or.inl rfl)]
  rfl

end DocumentField

end DocumentStore
