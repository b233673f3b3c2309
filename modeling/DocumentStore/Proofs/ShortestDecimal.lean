import DocumentStore.Proofs.Rounding

/-!
# Shortest decimals read back

The shortest decimal of a magnitude lies in the interval around it: both the grid neighbours that
are tried and the exact decimal that is left otherwise are checked or known to lie there. A decimal
that lies in the interval is read as the magnitude, because the two cut-offs for exponents that are
far too large or too small only apply to decimals outside of every finite interval.
-/

set_option autoImplicit false

namespace DocumentStore

open Floating (Format)
open Decimal (Interval Scientific Tie onGrid shortest)

namespace Decimal

/-- The decimal is positive and lies in the interval around the magnitude `code`. -/
def Scientific.Fits (s : Scientific) (f : Format) (code : Nat) : Prop :=
  0 < s.digits ∧ (Interval.of f code).contains
    (s.digits * (2 * f.scale * 10 ^ s.exponent.toNat)) (10 ^ (-s.exponent).toNat) = true

variable {f : Format} {tie : Tie} {code : Nat}

/-- A decimal that a grid offers lies in the interval. -/
theorem fits_of_onGrid {exponent : Int} {digits : Nat}
    (h : onGrid f tie code exponent = some digits) : Scientific.Fits ⟨digits, exponent⟩ f code := by
  -- the two candidates are neighbours, so the even one of them is one of the two
  have heven : ∀ (fits : Nat → Bool) (down : Nat), fits down = true → fits (down + 1) = true →
      fits (down + down % 2) = true := by
    intro fits down hdown hup
    rcases Nat.mod_two_eq_zero_or_one down with hmod | hmod
    · rw [hmod]
      exact hdown
    · rw [hmod]
      exact hup
  have hfits : ∀ (digits : Nat), (decide (0 < digits) && (Interval.of f code).contains
      (digits * (2 * f.scale * Nat.pow 10 exponent.toNat)) (Nat.pow 10 (-exponent).toNat)) =
        true → Scientific.Fits ⟨digits, exponent⟩ f code := by
    intro digits hdigits
    rw [Bool.and_eq_true, decide_eq_true_eq] at hdigits
    exact hdigits
  apply hfits
  unfold onGrid at h
  dsimp only at h
  generalize 2 * f.units code * Nat.pow 10 (-exponent).toNat /
    (2 * f.scale * Nat.pow 10 exponent.toNat) = down at h
  split at h
  · next hdown hup =>
    split at h
    · cases h
      exact hdown
    · split at h
      · cases h
        exact hup
      · split at h
        · cases h
          exact heven (fun digits => decide (0 < digits) && (Interval.of f code).contains
            (digits * (2 * f.scale * Nat.pow 10 exponent.toNat))
            (Nat.pow 10 (-exponent).toNat)) down hdown hup
        · cases h
          exact hup
  · next hdown _ =>
    cases h
    exact hdown
  · next _ hup =>
    cases h
    exact hup
  · cases h

/-- The magnitude itself, written out to its last place, lies in the interval. -/
theorem fits_exact (hcode : 0 < code) :
    Scientific.Fits ⟨f.units code * Nat.pow 5 f.scaleBits, -f.scaleBits⟩ f code := by
  have hpos := f.units_pos hcode
  have hbelow : f.units (code - 1) < f.units code := by
    have hsucc := f.units_lt_succ (code - 1)
    rwa [Nat.sub_add_cancel hcode] at hsucc
  have habove := f.units_lt_succ code
  have hten : 0 < 10 ^ f.scaleBits := Nat.pow_pos (by decide)
  refine ⟨Nat.mul_pos hpos (Nat.pow_pos (by decide)), ?_⟩
  have hvalue : f.units code * Nat.pow 5 f.scaleBits *
      (2 * f.scale * 10 ^ (-(f.scaleBits : Int)).toNat) = 2 * f.units code * 10 ^ f.scaleBits := by
    have hexponent : (-(f.scaleBits : Int)).toNat = 0 := by omega
    have hpow : (5 * 2) ^ f.scaleBits = 5 ^ f.scaleBits * 2 ^ f.scaleBits := Nat.mul_pow 5 2 _
    show f.units code * 5 ^ f.scaleBits * (2 * 2 ^ f.scaleBits * 10 ^ _) =
      2 * f.units code * (5 * 2) ^ f.scaleBits
    rw [hexponent, hpow]
    ring
  have hden : (- -(f.scaleBits : Int)).toNat = f.scaleBits := by omega
  show (Interval.of f code).contains (f.units code * Nat.pow 5 f.scaleBits *
    (2 * f.scale * 10 ^ (-(f.scaleBits : Int)).toNat)) (10 ^ (- -(f.scaleBits : Int)).toNat) = true
  rw [hvalue, hden, Interval.contains_iff]
  have hlower : (Interval.of f code).lower * 10 ^ f.scaleBits <
      2 * f.units code * 10 ^ f.scaleBits := by
    refine Nat.mul_lt_mul_of_pos_right ?_ hten
    show f.units (code - 1) + f.units code < _
    omega
  have hupper : 2 * f.units code * 10 ^ f.scaleBits <
      (Interval.of f code).upper * 10 ^ f.scaleBits := by
    refine Nat.mul_lt_mul_of_pos_right ?_ hten
    show _ < f.units code + f.units (code + 1)
    omega
  exact ⟨Nat.le_of_lt hlower, Nat.le_of_lt hupper, Or.inr ⟨hlower, hupper⟩⟩

/-- The shortest decimal of a positive magnitude lies in the interval around it. -/
theorem fits_shortest (hcode : 0 < code) : (shortest f tie code).Fits f code := by
  unfold shortest
  rw [if_neg (by omega)]
  dsimp only
  generalize hgrids : (List.range (coarsest f code + f.scaleBits + 1).toNat).findSome? _ = found
  cases found with
  | none => exact fits_exact hcode
  | some s =>
    obtain ⟨i, -, hi⟩ := List.exists_of_findSome?_eq_some hgrids
    obtain ⟨digits, hdigits, rfl⟩ := Option.map_eq_some_iff.mp hi
    exact fits_of_onGrid hdigits

/-- Writing out the places of a whole number and one more after the point changes nothing. -/
theorem fits_positional {digits : Nat} {exponent : Int} (hexponent : 0 ≤ exponent)
    (h : Scientific.Fits ⟨digits, exponent⟩ f code) :
    Scientific.Fits ⟨digits * 10 ^ (exponent.toNat + 1), -1⟩ f code := by
  obtain ⟨hpos, h⟩ := h
  refine ⟨Nat.mul_pos hpos (Nat.pow_pos (by decide)), ?_⟩
  have hden : (-exponent).toNat = 0 := by omega
  have h : (Interval.of f code).contains (digits * (2 * f.scale * 10 ^ exponent.toNat))
    (10 ^ (-exponent).toNat) = true := h
  show (Interval.of f code).contains
    (digits * 10 ^ (exponent.toNat + 1) * (2 * f.scale * 10 ^ 0)) (10 ^ 1) = true
  rw [hden, Nat.pow_zero, Interval.contains_iff, Nat.mul_one, Nat.mul_one] at h
  rw [Nat.pow_one, Interval.contains_iff]
  have hvalue : digits * 10 ^ (exponent.toNat + 1) * (2 * f.scale * 10 ^ 0) =
      10 * (digits * (2 * f.scale * 10 ^ exponent.toNat)) := by
    rw [Nat.pow_succ]
    ring
  rw [hvalue]
  obtain ⟨hlow, hhigh, htie⟩ := h
  refine ⟨by omega, by omega, htie.imp id ?_⟩
  rintro ⟨hlt, hgt⟩
  exact ⟨by omega, by omega⟩

end Decimal

namespace Floating

variable {f : Format} {code : Nat}

/-- A quotient that lies in the interval around a magnitude is read as that magnitude. -/
theorem ofQuotient_of_contains (hf : 1 ≤ f.fractionBits) (hcode : 0 < code)
    (hle : code ≤ f.infinityCode) {num den : Nat} (hden : 0 < den)
    (h : (Interval.of f code).contains (2 * (num * f.scale)) den = true) (negative : Bool) :
    (ofQuotient negative num den : Floating f) = signed negative ⟨code, by omega⟩ := by
  unfold ofQuotient Format.nearestCode
  congr 2
  rw [Format.roundedCode_of_contains hf hden hcode h]
  exact Nat.min_eq_left hle

/-- The first magnitude past all finite ones is a power of two. -/
theorem units_infinityCode (he : 2 ≤ f.exponentBits) :
    f.units f.infinityCode = 2 ^ (f.fractionBits + (2 ^ f.exponentBits - 2)) := by
  have hpow : 2 ^ 2 ≤ 2 ^ f.exponentBits := Nat.pow_le_pow_right (by decide) he
  have hcode : f.infinityCode = (2 ^ f.exponentBits - 2) * f.binade + f.binade := by
    show (2 ^ f.exponentBits - 1) * f.binade = _
    rw [← Nat.succ_mul]
    congr 1
    omega
  rw [hcode, f.units_scaled (by omega) (Or.inr (Nat.le_refl _)), Nat.pow_add]
  rfl

/-- No decimal of a finite magnitude has so great an exponent that it is cut off. -/
theorem exponent_lt_of_fits (he : 2 ≤ f.exponentBits) (hlt : code < f.infinityCode)
    {s : Scientific} (h : s.Fits f code) : 3 * s.exponent.toNat < 2 ^ f.exponentBits := by
  by_cases hexponent : 0 ≤ s.exponent
  · obtain ⟨hpos, h⟩ := h
    obtain ⟨-, hupper, -⟩ := (Interval.contains_iff _ _ _).mp h
    have hden : (-s.exponent).toNat = 0 := by omega
    rw [hden, Nat.pow_zero, Nat.mul_one] at hupper
    have hbound : (Interval.of f code).upper ≤ 2 * f.units f.infinityCode := by
      have h₁ := f.units_mono (Nat.le_of_lt hlt)
      have h₂ := f.units_mono (show code + 1 ≤ f.infinityCode from hlt)
      show f.units code + f.units (code + 1) ≤ _
      omega
    have height : 8 ^ s.exponent.toNat ≤ 10 ^ s.exponent.toNat :=
      Nat.pow_le_pow_left (by decide) _
    have hscale : f.scale * 8 ^ s.exponent.toNat ≤ f.units f.infinityCode := by
      have hdigits := Nat.mul_le_mul_right (2 * f.scale * 10 ^ s.exponent.toNat) hpos
      have hmul := Nat.mul_le_mul_left f.scale height
      nlinarith
    rw [units_infinityCode he, show (8 : Nat) = 2 ^ 3 from rfl, ← Nat.pow_mul] at hscale
    have hpow : 2 ^ (f.scaleBits + 3 * s.exponent.toNat) ≤
        2 ^ (f.fractionBits + (2 ^ f.exponentBits - 2)) := by
      rw [Nat.pow_add]
      exact hscale
    have hle := (Nat.pow_le_pow_iff_right (by decide)).mp hpow
    have hhalf : 2 ≤ 2 ^ (f.exponentBits - 1) :=
      Nat.pow_le_pow_right (n := 2) (by decide) (show 1 ≤ f.exponentBits - 1 by omega)
    have hbits : f.scaleBits = 2 ^ (f.exponentBits - 1) - 2 + f.fractionBits := rfl
    have hpos' : 0 < 2 ^ f.exponentBits := Nat.two_pow_pos _
    omega
  · have hzero : s.exponent.toNat = 0 := by omega
    rw [hzero]
    exact Nat.two_pow_pos _

/-- No decimal of a positive magnitude has so small an exponent that it is cut off. -/
theorem places_le_of_fits (hcode : 0 < code) {s : Scientific} (h : s.Fits f code)
    (hexponent : s.exponent < 0) :
    3 * (-s.exponent).toNat ≤ s.digits.log2 + 2 + f.scaleBits := by
  obtain ⟨hpos, h⟩ := h
  obtain ⟨hlower, -, -⟩ := (Interval.contains_iff _ _ _).mp h
  have hzero : s.exponent.toNat = 0 := by omega
  rw [hzero, Nat.pow_zero, Nat.mul_one] at hlower
  have hunits : 0 < (Interval.of f code).lower :=
    Nat.add_pos_right _ (f.units_pos hcode)
  have height : 8 ^ (-s.exponent).toNat ≤ 10 ^ (-s.exponent).toNat :=
    Nat.pow_le_pow_left (by decide) _
  have hdigits : s.digits < 2 ^ (s.digits.log2 + 1) := Nat.lt_log2_self
  have hscale := f.scale_pos
  have hbound : 8 ^ (-s.exponent).toNat < 2 ^ (s.digits.log2 + 2 + f.scaleBits) := by
    have hten : 10 ^ (-s.exponent).toNat ≤ s.digits * (2 * f.scale) := by
      have hmul := Nat.mul_le_mul_right (10 ^ (-s.exponent).toNat) hunits
      omega
    have hmul : s.digits * (2 * f.scale) < 2 ^ (s.digits.log2 + 1) * (2 * f.scale) :=
      Nat.mul_lt_mul_of_pos_right hdigits (by omega)
    have hpow : 2 ^ (s.digits.log2 + 1) * (2 * f.scale) =
        2 ^ (s.digits.log2 + 2 + f.scaleBits) := by
      show 2 ^ (s.digits.log2 + 1) * (2 * 2 ^ f.scaleBits) = _
      ring
    omega
  rw [show (8 : Nat) = 2 ^ 3 from rfl, ← Nat.pow_mul] at hbound
  have hlt := (Nat.pow_lt_pow_iff_right (by decide)).mp hbound
  omega

/-- A decimal that lies in the interval around a finite magnitude is read as that magnitude. -/
theorem ofDecimal_of_fits (hf : 1 ≤ f.fractionBits) (he : 2 ≤ f.exponentBits) (hcode : 0 < code)
    (hlt : code < f.infinityCode) {s : Scientific} (h : s.Fits f code) (negative : Bool) :
    (ofDecimal negative s.digits s.exponent : Floating f) =
      signed negative ⟨code, by omega⟩ := by
  have hdigits : 0 < s.digits := h.1
  unfold ofDecimal
  rw [if_neg (by omega)]
  split
  · next hexponent =>
    have hcut := exponent_lt_of_fits he hlt h
    rw [if_neg (show ¬ Nat.pow 2 f.exponentBits ≤ 3 * s.exponent.toNat from
      Nat.not_le_of_lt hcut)]
    refine ofQuotient_of_contains hf hcode (Nat.le_of_lt hlt) (by decide) ?_ negative
    have hden : (-s.exponent).toNat = 0 := by omega
    have hcontains := h.2
    rw [hden, Nat.pow_zero] at hcontains
    rw [← hcontains]
    congr 1
    show 2 * (s.digits * 10 ^ s.exponent.toNat * f.scale) = _
    ring
  · next hexponent =>
    have hcut := places_le_of_fits hcode h (by omega)
    rw [if_neg (Nat.not_lt_of_le hcut)]
    refine ofQuotient_of_contains hf hcode (Nat.le_of_lt hlt) (Nat.pow_pos (by decide)) ?_ negative
    have hzero : s.exponent.toNat = 0 := by omega
    have hcontains := h.2
    rw [hzero, Nat.pow_zero] at hcontains
    rw [← hcontains]
    congr 1
    ring

end Floating

end DocumentStore
