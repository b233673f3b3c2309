import DocumentStore.Proofs.ComparisonOrder
import DocumentStore.Proofs.JsonText

/-!
# Comparing integers

A stored integer is compared exactly with any integer of a filter that fits 64 bits with a sign. One
beyond them becomes a floating-point number, and then the stored integer is rounded to one as well. As
every stored integer is below `2 ^ 63` and every such number of a filter is not, rounding cannot turn
their order round; it can only take both to `2 ^ 63`, which it does from 512 below and from 1024 above.
-/

set_option autoImplicit false

namespace DocumentStore

namespace Floating

/-! ## Rounding of whole numbers -/

/-- A quotient is rounded alike in larger steps. -/
theorem nearestQuotient_mul_right {num den c : Nat} (hc : 0 < c) :
    nearestQuotient (num * c) (den * c) = nearestQuotient num den := by
  have hdouble : 2 * (num % den * c) = 2 * (num % den) * c := (Nat.mul_assoc ..).symm
  unfold nearestQuotient
  dsimp only
  rw [Nat.mul_div_mul_right _ _ hc, Nat.mul_mod_mul_right, hdouble]
  simp only [Nat.mul_lt_mul_right hc]

namespace Format

variable (f : Format)

/-- The magnitude that a whole number is rounded to, in units. -/
def roundedUnits (m : Nat) : Nat := f.units (f.roundedCode (m * f.scale) 1)

/-- A whole number with more digits than the format has is rounded to a multiple of the power of two
that is too much. -/
theorem roundedUnits_eq {m t : Nat} (hlow : f.binade * 2 ^ t ≤ m) (hhigh : m < 2 * f.binade * 2 ^ t) :
    f.roundedUnits m = nearestQuotient m (2 ^ t) * 2 ^ t * f.scale := by
  have hscale := f.scale_pos
  have hsteps : 2 ^ (f.scaleBits + t) = 2 ^ t * f.scale := by
    rw [Nat.pow_add, Nat.mul_comm]
    rfl
  have hquotient : nearestQuotient (m * f.scale) (1 * 2 ^ (f.scaleBits + t)) =
      nearestQuotient m (2 ^ t) := by
    rw [hsteps, Nat.one_mul, nearestQuotient_mul_right hscale]
  have hcode : f.roundedCode (m * f.scale) 1 =
      (f.scaleBits + t) * f.binade + nearestQuotient m (2 ^ t) := by
    rw [← hquotient]
    apply f.roundedCode_scaled Nat.one_pos
    · right
      rw [hsteps, Nat.mul_one, ← Nat.mul_assoc]
      exact Nat.mul_le_mul_right _ hlow
    · rw [hsteps, Nat.mul_one, ← Nat.mul_assoc]
      exact Nat.mul_lt_mul_of_pos_right hhigh hscale
  have hpow := Nat.two_pow_pos t
  have hle : nearestQuotient m (2 ^ t) ≤ 2 * f.binade := nearestQuotient_le hpow hhigh.le
  have hge : f.binade ≤ nearestQuotient m (2 ^ t) := by
    have hdown : f.binade ≤ m / 2 ^ t := (Nat.le_div_iff_mul_le hpow).mpr hlow
    unfold nearestQuotient
    dsimp only
    split
    · exact hdown
    · split <;> omega
  unfold roundedUnits
  rw [hcode, f.units_scaled hle (Or.inr hge), hsteps, Nat.mul_assoc]

/-- A whole number with fewer digits than some power of two is rounded to that power at most. -/
theorem roundedUnits_le {m t : Nat} (h : m < 2 * f.binade * 2 ^ t) :
    f.roundedUnits m ≤ 2 * f.binade * 2 ^ t * f.scale := by
  have hsteps : 2 ^ (f.scaleBits + t) = 2 ^ t * f.scale := by
    rw [Nat.pow_add, Nat.mul_comm]
    rfl
  have hcode : f.roundedCode (m * f.scale) 1 ≤ (f.scaleBits + t + 2) * f.binade := by
    apply f.roundedCode_le Nat.one_pos
    rw [hsteps, Nat.mul_one, ← Nat.mul_assoc]
    exact Nat.mul_lt_mul_of_pos_right h f.scale_pos
  have hlast : (f.scaleBits + t + 2) * f.binade = (f.scaleBits + t) * f.binade + 2 * f.binade := by
    ring
  rw [hlast] at hcode
  have hmono := f.units_mono hcode
  rw [f.units_scaled (Nat.le_refl _) (Or.inr (by omega)), hsteps, ← Nat.mul_assoc] at hmono
  exact hmono

end Format

/-! ## The edge of 63 bits -/

open Format (binary64)

/-- The greatest integers below `2 ^ 63`, from 512 below it on, are rounded to it, and none is rounded
to more. -/
theorem roundedUnits_below {m : Nat} (h : m < 2 ^ 63) :
    binary64.roundedUnits m ≤ 2 ^ 63 * binary64.scale ∧
      (binary64.roundedUnits m = 2 ^ 63 * binary64.scale ↔ 2 ^ 63 - 512 ≤ m) := by
  have hscale := binary64.scale_pos
  by_cases hlow : 2 ^ 62 ≤ m
  · have hquotient : nearestQuotient m 1024 ≤ 2 ^ 53 ∧
        (nearestQuotient m 1024 = 2 ^ 53 ↔ 2 ^ 63 - 512 ≤ m) := by
      unfold nearestQuotient
      dsimp only
      split
      · omega
      · split <;> omega
    have hrounded : binary64.roundedUnits m = nearestQuotient m 1024 * 1024 * binary64.scale :=
      binary64.roundedUnits_eq (t := 10) hlow h
    rw [hrounded, Nat.mul_le_mul_right_iff hscale, Nat.mul_left_inj hscale.ne']
    omega
  · have hpow : 2 * binary64.binade * 2 ^ 9 = 2 ^ 62 := by decide
    have hrounded : binary64.roundedUnits m ≤ 2 ^ 62 * binary64.scale := by
      rw [← hpow]
      exact binary64.roundedUnits_le (hpow ▸ Nat.lt_of_not_le hlow)
    have hless : 2 ^ 62 * binary64.scale < 2 ^ 63 * binary64.scale :=
      Nat.mul_lt_mul_of_pos_right (by decide) hscale
    exact ⟨by omega, iff_of_false (by omega) (by omega)⟩

/-- The least integers from `2 ^ 63` on, up to 1024 above it, are rounded to it, and none is rounded
to less. -/
theorem roundedUnits_above {m : Nat} (hlow : 2 ^ 63 ≤ m) (hhigh : m < 2 ^ 64) :
    2 ^ 63 * binary64.scale ≤ binary64.roundedUnits m ∧
      (binary64.roundedUnits m = 2 ^ 63 * binary64.scale ↔ m ≤ 2 ^ 63 + 1024) := by
  have hscale := binary64.scale_pos
  have hquotient : 2 ^ 52 ≤ nearestQuotient m 2048 ∧
      (nearestQuotient m 2048 = 2 ^ 52 ↔ m ≤ 2 ^ 63 + 1024) := by
    unfold nearestQuotient
    dsimp only
    split
    · omega
    · split <;> omega
  have hrounded : binary64.roundedUnits m = nearestQuotient m 2048 * 2048 * binary64.scale :=
    binary64.roundedUnits_eq (t := 11) hlow hhigh
  rw [hrounded, Nat.mul_le_mul_right_iff hscale, Nat.mul_left_inj hscale.ne']
  omega

/-- An integer that is rounded to a finite number is rounded to its rounded magnitude. -/
theorem units?_ofInt_of_isFinite {f : Format} {n : Int}
    (h : (ofInt n : Floating f).isFinite = true) :
    (ofInt n : Floating f).units? = some (if n < 0 then -(f.roundedUnits n.natAbs : Int)
      else f.roundedUnits n.natAbs) := by
  have hcode : (f.nearestCode (n.natAbs * f.scale) 1).val =
      f.roundedCode (n.natAbs * f.scale) 1 := by
    unfold ofInt ofQuotient isFinite Format.nearestCode at h
    unfold Format.nearestCode
    simp only [decide_eq_true_eq] at h ⊢
    omega
  unfold ofInt ofQuotient units? Format.roundedUnits
  simp only [hcode, decide_eq_true_eq]

/-- An integer of 64 bits is rounded to a finite double-precision number. -/
theorem units?_ofInt {n : Int} (h : n.natAbs < 2 ^ 64) :
    (ofInt n : Binary64).units? = some (if n < 0 then -(binary64.roundedUnits n.natAbs : Int)
      else binary64.roundedUnits n.natAbs) :=
  units?_ofInt_of_isFinite (isFinite_ofInt h)

/-- Between an integer of 64 bits with a sign and a greater one beyond them, rounding keeps the order
or makes them equal. -/
theorem compare?_ofInt_beyond {a n : Int} (ha : -2 ^ 63 ≤ a ∧ a < 2 ^ 63)
    (hn : 2 ^ 63 ≤ n ∧ n < 2 ^ 64) :
    (ofInt a : Binary64).compare? (ofInt n) =
      some (if 2 ^ 63 - 512 ≤ a ∧ n ≤ 2 ^ 63 + 1024 then .eq else .lt) := by
  obtain ⟨habove, hmeets⟩ := roundedUnits_above (show 2 ^ 63 ≤ n.natAbs by omega) (by omega)
  unfold compare?
  rw [units?_ofInt (by omega), units?_ofInt (by omega), if_neg (show ¬ n < 0 by omega)]
  dsimp only
  rw [Option.some.injEq]
  by_cases hneg : a < 0
  · have hpos : 0 < 2 ^ 63 * binary64.scale := Nat.mul_pos (by decide) binary64.scale_pos
    rw [if_pos hneg, if_neg (by omega), Int.compare_eq_lt]
    omega
  · obtain ⟨hbelow, hmeets'⟩ := roundedUnits_below (show a.natAbs < 2 ^ 63 by omega)
    rw [if_neg hneg]
    split
    · rw [Int.compare_eq_eq]
      omega
    · rw [Int.compare_eq_lt]
      omega

end Floating

/-! ## Stored integers -/

/-- A stored integer is compared as itself with integers and rounded with other numbers. -/
theorem Cell.Encodes.compareTo_number {type : DataType} {nullable : Bool} {a : Int64} {cell : Cell}
    (h : Cell.Encodes type nullable (.int a) cell) (integer : type = .int32 ∨ type = .int64) :
    (∀ n, cell.compareTo (.int n) = .ok (some (compare a.toInt n.toInt))) ∧
      ∀ x, cell.compareTo (.float x) = .ok ((Floating.ofInt a.toInt).compare? x) := by
  cases h with
  | int32 _ range =>
    have hexact : (Int32.ofInt a.toInt).toInt = a.toInt := by
      rw [Int32.toInt_ofInt_of_le]
      · exact range.1
      · have hmax : Int32.maxValue.toInt = 2 ^ 31 - 1 := by decide
        omega
    refine ⟨fun n => ?_, fun x => ?_⟩
    · show Except.ok (some (compare (Int32.ofInt a.toInt).toInt n.toInt)) = _
      rw [hexact]
    · show Except.ok ((Floating.ofInt (Int32.ofInt a.toInt).toInt).compare? x) = _
      rw [hexact]
  | int64 => exact ⟨fun _ => rfl, fun _ => rfl⟩
  | float32OfInt | float64OfInt => simp at integer

/-- An integer of a JSON number stands for itself, or for the number that it is rounded to when it does
not fit 64 bits with a sign. -/
theorem Operand.means_integer {type : DataType} (numeric : type.isNumeric = true) (n : Int)
    (fits : -9223372036854775808 ≤ n ∧ n < 18446744073709551616) :
    (Operand.ofJson (.number (.integer n fits))).Means type
      (if n ≤ Int64.maxValue.toInt then .int (Int64.ofInt n) else .float (Floating.ofInt n)) := by
  rw [Operand.ofJson]
  split
  · exact .int numeric _
  · exact .float numeric (Floating.isFinite_ofInt (by omega))

/-- The order that a comparison sees between a stored integer and one of a filter: that of the integers,
unless rounding takes both to `2 ^ 63`. -/
def integerOrder (a n : Int) : Ordering :=
  if 2 ^ 63 - 512 ≤ a ∧ 2 ^ 63 ≤ n ∧ n ≤ 2 ^ 63 + 1024 then .eq else compare a n

/-- Stored integers have the order to what an integer stands for. -/
theorem Cell.Encodes.compareTo_integer {type : DataType} {nullable : Bool} {a : Int64} {cell : Cell}
    (h : Cell.Encodes type nullable (.int a) cell) (integer : type = .int32 ∨ type = .int64) {n : Int}
    (fits : -9223372036854775808 ≤ n ∧ n < 18446744073709551616) :
    cell.compareTo
        (if n ≤ Int64.maxValue.toInt then .int (Int64.ofInt n) else .float (Floating.ofInt n)) =
      .ok (some (integerOrder a.toInt n)) := by
  obtain ⟨hint, hfloat⟩ := h.compareTo_number integer
  have hmax : Int64.maxValue.toInt = 2 ^ 63 - 1 := by decide
  have hlow := a.le_toInt
  have hhigh := a.toInt_lt
  unfold integerOrder
  split
  · next hle =>
    have hexact : (Int64.ofInt n).toInt = n := by
      apply Int64.toInt_ofInt_of_le <;> omega
    rw [hint, hexact, if_neg (by omega)]
  · next hgt =>
    have hless : compare a.toInt n = .lt := by
      rw [Int.compare_eq_lt]
      omega
    rw [hfloat, Floating.compare?_ofInt_beyond ⟨by omega, by omega⟩ ⟨by omega, by omega⟩, hless]
    congr 3
    simp only [eq_iff_iff]
    omega

/-! ## Filters -/

/-- A node with a field, the operator of a relation and a value is the comparison of the three. -/
theorem Filter.ofJson_comparison {members : List (String × Json)} {field : String}
    {relation : Relation} {value : Json} (hfield : members.lookup "field" = some (.string field))
    (hoperator : members.lookup "operator" = some (.string relation.comparator.text))
    (hvalue : members.lookup "value" = some value) :
    Filter.ofJson (.object members) =
      .ok (.comparison field relation.comparator (Operand.ofJson value)) := by
  unfold Filter.ofJson
  rw [hfield, if_pos Option.isSome_some]
  unfold comparisonOf requiredText requiredMember
  rw [hfield, hoperator, hvalue]
  simp only [ok_bind, Comparator.parse_text]
  rfl

/-- The text of a node with a field, an operator and an integer is read as the node. -/
theorem Json.parse_comparison (field operator : String) (n : Int)
    (fits : -9223372036854775808 ≤ n ∧ n < 18446744073709551616) :
    Json.parse (Json.object [("field", .string field), ("operator", .string operator),
        ("value", .number (.integer n fits))]).text =
      .ok (.object [("field", .string field), ("operator", .string operator),
        ("value", .number (.integer n fits))]) := by
  have hless : "field" < "operator" ∧ "field" < "value" ∧ "operator" < "value" := by decide
  have canonical : (Json.object [("field", .string field), ("operator", .string operator),
      ("value", .number (.integer n fits))]).Canonical := by
    simp only [Json.Canonical, Json.membersCanonical, and_true, List.pairwise_cons, List.mem_cons,
      List.not_mem_nil, or_false, forall_eq_or_imp, forall_eq, false_implies, implies_true,
      List.Pairwise.nil]
    exact ⟨⟨hless.1, hless.2.1⟩, hless.2.2⟩
  rw [Json.parse_text canonical (by simp [Json.depth, Json.memberDepth, Json.depthLimit])]
  simp only [Json.reread, Json.rereadMembers, Json.Number.reread_integer]

namespace DocumentField

variable {document : Document} {row : Row} {fields : List Field} {width : Int64} {schema : Schema}
  {names : List String} {leaf : DataType}

/-- Comparing a declared leaf of integers with an integer selects a document that has an integer there
when the relation holds for their order, rounding apart. -/
theorem selects_integer (hschema : Schema.ofMetadata fields width = .ok schema)
    (hrow : document.toRow schema = .ok row)
    (declared : (DataType.struct fields).DeclaresAs names leaf)
    (pointFree : ∀ name ∈ names, '.' ∉ name.toList) (integer : leaf = .int32 ∨ leaf = .int64)
    {a : Int64} (hvalue : (MetaValue.map document.metadata).at? names = some (.int a)) {n : Int}
    (fits : -9223372036854775808 ≤ n ∧ n < 18446744073709551616) (relation : Relation) :
    ∃ p, Predicate.ofFilter (.comparison (DocumentField.metadata names).text relation.comparator
        (Operand.ofJson (.number (.integer n fits)))) = .ok p ∧
      p.selects row = .ok (relation.holds (integerOrder a.toInt n)) := by
  have numeric : leaf.isNumeric = true := by
    rcases integer with rfl | rfl <;> rfl
  have hleaf : leaf.members? = none := by
    rcases integer with rfl | rfl <;> rfl
  obtain ⟨nullable, cell, hencodes, hcompare⟩ :=
    exists_compareTo hschema hrow declared pointFree hvalue rfl hleaf
  exact hcompare (Operand.means_integer numeric n fits) (hencodes.compareTo_integer integer fits)
    relation

/-- A filter that compares a declared leaf of integers with an integer selects a document that has an
integer there exactly when the relation holds between the two; there is a filter for the leaf when no
name on the way to it has a point. The exception are integers of a filter
from `2 ^ 63` up to 1024 above it, which are not less than any stored one but count as equal to those
from 512 below it. -/
theorem integers_compare (hschema : Schema.ofMetadata fields width = .ok schema)
    (hrow : document.toRow schema = .ok row)
    (declared : (DataType.struct fields).DeclaresAs names leaf)
    (pointFree : ∀ name ∈ names, '.' ∉ name.toList) (integer : leaf = .int32 ∨ leaf = .int64)
    {a : Int64} (hvalue : (MetaValue.map document.metadata).at? names = some (.int a))
    {text : String} {members : List (String × Json)} {relation : Relation} {n : Int}
    {fits : -9223372036854775808 ≤ n ∧ n < 18446744073709551616}
    (hjson : Json.parse text = .ok (.object members))
    (hfield : members.lookup "field" = some (.string (DocumentField.metadata names).text))
    (hoperator : members.lookup "operator" = some (.string relation.comparator.text))
    (hnumber : members.lookup "value" = some (.number (.integer n fits))) :
    ∃ filter p, Filter.parse text = .ok filter ∧ Predicate.ofFilter filter = .ok p ∧
      p.selects row = .ok (relation.holds
        (if 2 ^ 63 - 512 ≤ a.toInt ∧ 2 ^ 63 ≤ n ∧ n ≤ 2 ^ 63 + 1024 then .eq
        else compare a.toInt n)) := by
  obtain ⟨p, hp, hselects⟩ :=
    selects_integer hschema hrow declared pointFree integer hvalue fits relation
  refine ⟨_, p, ?_, hp, hselects⟩
  unfold Filter.parse
  rw [hjson]
  exact Filter.ofJson_comparison hfield hoperator hnumber

/-- The greatest stored integer that is still less than the integer `2 ^ 63` of a filter. -/
theorem integers_compare_exact :
    ∃ schema row text filter p, Schema.ofMetadata [.plain "n" .int64 true] 2 = .ok schema ∧
      Document.toRow ⟨"a", none, none, none, none, ⟨[("n", .int 9223372036854775295)]⟩, none⟩
        schema = .ok row ∧
      text = (Json.object [("field", .string "meta.n"), ("operator", .string "<"),
        ("value", .number (.integer 9223372036854775808 (by decide)))]).text ∧
      Filter.parse text = .ok filter ∧ Predicate.ofFilter filter = .ok p ∧
      p.selects row = .ok true := by
  have declared : (DataType.struct [.plain "n" .int64 true]).DeclaresAs ["n"] .int64 :=
    DataType.declaresAs_plain (by decide) _ _
  have hfield : (DocumentField.metadata ["n"]).text = "meta.n" := by decide
  obtain ⟨filter, p, hfilter, hp, hselects⟩ := @integers_compare
    ⟨"a", none, none, none, none, ⟨[("n", .int 9223372036854775295)]⟩, none⟩ _ _ 2 _ _ _ rfl rfl
    declared (by decide) (Or.inr rfl) _ rfl _ _ .less _ _
    (Json.parse_comparison "meta.n" "<" 9223372036854775808 (by decide))
    (by rw [hfield]; rfl) rfl rfl
  exact ⟨_, _, _, filter, p, rfl, rfl, rfl, hfilter, hp, hselects⟩

/-- The greatest stored integer is found by a filter that asks for the integer after it, and an integer
in a column with a point in its name makes a filter for it fail. -/
theorem integers_compare_fails :
    (∃ schema row text filter p, Schema.ofMetadata [.plain "n" .int64 true] 2 = .ok schema ∧
      Document.toRow ⟨"a", none, none, none, none, ⟨[("n", .int 9223372036854775807)]⟩, none⟩
        schema = .ok row ∧
      text = (Json.object [("field", .string "meta.n"), ("operator", .string "=="),
        ("value", .number (.integer 9223372036854775808 (by decide)))]).text ∧
      Filter.parse text = .ok filter ∧ Predicate.ofFilter filter = .ok p ∧
      p.selects row = .ok true ∧ (9223372036854775807 : Int64).toInt ≠ 9223372036854775808) ∧
    ∃ schema row text filter p, Schema.ofMetadata [.plain "a.b" .int32 true] 2 = .ok schema ∧
      Document.toRow ⟨"a", none, none, none, none, ⟨[("a.b", .int 1)]⟩, none⟩ schema = .ok row ∧
      text = (Json.object [("field", .string "meta.a.b"), ("operator", .string "=="),
        ("value", .number (.integer 1 (by decide)))]).text ∧
      Filter.parse text = .ok filter ∧ Predicate.ofFilter filter = .ok p ∧
      p.selects row = .error (.filter (.unknownColumn "meta.a._isempty.b")) := by
  constructor
  · have declared : (DataType.struct [.plain "n" .int64 true]).DeclaresAs ["n"] .int64 :=
      DataType.declaresAs_plain (by decide) _ _
    have hfield : (DocumentField.metadata ["n"]).text = "meta.n" := by decide
    obtain ⟨p, hp, hselects⟩ := @selects_integer
      ⟨"a", none, none, none, none, ⟨[("n", .int 9223372036854775807)]⟩, none⟩ _ _ 2 _ _ _ rfl rfl
      declared (by decide) (Or.inr rfl) _ rfl 9223372036854775808 (by decide) .eq
    rw [hfield] at hp
    refine ⟨_, _, _, _, p, rfl, rfl, rfl, ?_, hp, hselects, by decide⟩
    unfold Filter.parse
    rw [Json.parse_comparison]
    exact Filter.ofJson_comparison rfl rfl rfl
  · refine ⟨_, _, _, .comparison "meta.a.b" .eq (.int 1), _, rfl, rfl, rfl, ?_, rfl, rfl⟩
    unfold Filter.parse
    rw [Json.parse_comparison]
    rfl

end DocumentField

end DocumentStore
