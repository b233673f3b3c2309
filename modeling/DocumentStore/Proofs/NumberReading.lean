import DocumentStore.Json.Number
import DocumentStore.Proofs.NumberText
import DocumentStore.Proofs.Widening

/-!
# What is read of a written number

A floating-point number is read in steps, each of which rounds: its digits, a power of ten, and their
product or quotient. Its text may therefore be read as a neighbour of the number. It is always read as
some number, though. The digits that are taken up never exceed those that are written, three steps
add three roundings at most, and the few magnitudes that are within reach of infinity have been
looked at one by one. A short decimal, of few digits and a small power of ten, is read without any
rounding but the last, and so as the number that is nearest to it.
-/

set_option autoImplicit false

namespace DocumentStore

open Decimal (Scientific Interval Layout)
open Floating (Format)
open Floating.Format (binary64)

namespace Json

/-! ## Digits that are taken up -/

/-- No more digits are left out than there are. -/
theorem excessDigits_le (limit n : Nat) : excessDigits limit n ≤ limit := by
  induction limit generalizing n with
  | zero => exact Nat.le_refl _
  | succ limit ih =>
    rw [excessDigits]
    split
    · exact Nat.zero_le _
    · exact Nat.succ_le_succ (ih _)

/-- What is left fits 64 bits. -/
theorem div_excessDigits_lt {limit n : Nat} (h : n < 18446744073709551616 * 10 ^ limit) :
    n / 10 ^ excessDigits limit n < 18446744073709551616 := by
  induction limit generalizing n with
  | zero =>
    rw [excessDigits, Nat.pow_zero, Nat.div_one]
    rwa [Nat.pow_zero, Nat.mul_one] at h
  | succ limit ih =>
    rw [excessDigits]
    split
    · next hfits => rwa [Nat.pow_zero, Nat.div_one]
    · rw [Nat.pow_succ', ← Nat.div_div_eq_div_mul]
      refine ih (Nat.div_lt_of_lt_mul ?_)
      calc n < 18446744073709551616 * 10 ^ (limit + 1) := h
        _ = 10 * (18446744073709551616 * 10 ^ limit) := by ring

/-- With one digit less left out, what is left does not fit. -/
theorem le_div_of_excessDigits {limit n k : Nat} (h : excessDigits limit n = k + 1) :
    18446744073709551616 ≤ n / 10 ^ k := by
  induction limit generalizing n k with
  | zero => cases h
  | succ limit ih =>
    rw [excessDigits] at h
    split at h
    · cases h
    · next hexcess =>
      cases k with
      | zero => rw [Nat.pow_zero, Nat.div_one]; omega
      | succ k =>
        rw [Nat.pow_succ', ← Nat.div_div_eq_div_mul]
        exact ih (Nat.succ.inj h)

namespace NumberToken

variable (token : NumberToken)

/-- The digits before the point that are taken up fit 64 bits. -/
theorem whole_lt :
    token.digits / 10 ^ token.places / 10 ^ token.wholeExcess < 18446744073709551616 := by
  refine div_excessDigits_lt ?_
  show token.digits / 10 ^ token.places < _
  generalize token.digits / 10 ^ token.places = whole
  calc whole < 2 ^ (whole.log2 + 1) := Nat.lt_log2_self
    _ = 2 * 2 ^ whole.log2 := by ring
    _ ≤ 18446744073709551616 * 10 ^ whole.log2 :=
      Nat.mul_le_mul (by decide) (Nat.pow_le_pow_left (by decide) _)

/-- The digits that are taken up fit 64 bits. -/
theorem significand_lt : token.significand < 18446744073709551616 := by
  refine div_excessDigits_lt ?_
  have hpos : 0 < 10 ^ token.places := Nat.pow_pos (by decide)
  have hrest : token.digits % 10 ^ token.places < 10 ^ token.places := Nat.mod_lt _ hpos
  have hwhole := Nat.mul_le_mul_right (10 ^ token.places) (Nat.succ_le_of_lt token.whole_lt)
  rw [Nat.succ_mul] at hwhole
  exact Nat.lt_of_lt_of_le (Nat.add_lt_add_left hrest _) hwhole

/-- When no digit before the point is left out, all digits are still there. -/
theorem taken_of_wholeExcess (h : token.wholeExcess = 0) : token.taken = token.digits := by
  unfold taken
  rw [h]
  show token.digits / 10 ^ token.places / 1 * 10 ^ token.places + _ = _
  rw [Nat.div_one]
  exact Nat.div_add_mod' _ _

/-- When all digits after the point are left out, those before it remain. -/
theorem significand_of_placeExcess (h : token.placeExcess = token.places) :
    token.significand = token.digits / 10 ^ token.places / 10 ^ token.wholeExcess := by
  have hpos : 0 < 10 ^ token.places := Nat.pow_pos (by decide)
  unfold significand taken
  rw [h]
  show (_ * 10 ^ token.places + token.digits % 10 ^ token.places) / 10 ^ token.places = _
  rw [Nat.mul_comm, Nat.mul_add_div hpos, Nat.div_eq_of_lt (Nat.mod_lt _ hpos), Nat.add_zero]
  rfl

/-- With one digit less left out, those before the point would not have fitted. -/
theorem le_whole_of_wholeExcess {k : Nat} (h : token.wholeExcess = k + 1) :
    18446744073709551616 * 10 ^ k ≤ token.digits / 10 ^ token.places :=
  (Nat.le_div_iff_mul_le (Nat.pow_pos (by decide))).mp (le_div_of_excessDigits h)

/-- Together with the power of ten for those left out, the digits that are taken up do not exceed
those that are written. -/
theorem significand_mul_le :
    token.significand * 10 ^ (token.wholeExcess + token.placeExcess) ≤ token.digits := by
  cases hexcess : token.wholeExcess with
  | zero =>
    rw [Nat.zero_add, ← token.taken_of_wholeExcess hexcess]
    exact Nat.div_mul_le_self _ _
  | succ k =>
    have hplaces : token.placeExcess ≤ token.places := excessDigits_le _ _
    have hdigits : token.digits / 10 ^ token.places * 10 ^ token.places ≤ token.digits :=
      Nat.div_mul_le_self _ _
    rcases Nat.lt_or_eq_of_le hplaces with hlt | heq
    · calc token.significand * 10 ^ (k + 1 + token.placeExcess)
          ≤ 18446744073709551616 * 10 ^ (k + token.places) :=
            Nat.mul_le_mul token.significand_lt.le (Nat.pow_le_pow_right (by decide) (by omega))
        _ = 18446744073709551616 * 10 ^ k * 10 ^ token.places := by ring
        _ ≤ token.digits / 10 ^ token.places * 10 ^ token.places :=
          Nat.mul_le_mul_right _ (token.le_whole_of_wholeExcess hexcess)
        _ ≤ token.digits := hdigits
    · rw [token.significand_of_placeExcess heq, hexcess, heq]
      calc token.digits / 10 ^ token.places / 10 ^ (k + 1) * 10 ^ (k + 1 + token.places)
          = token.digits / 10 ^ token.places / 10 ^ (k + 1) * 10 ^ (k + 1) *
              10 ^ token.places := by ring
        _ ≤ token.digits / 10 ^ token.places * 10 ^ token.places :=
          Nat.mul_le_mul_right _ (Nat.div_mul_le_self _ _)
        _ ≤ token.digits := hdigits

end NumberToken

end Json

/-! ## Scaling -/

namespace Floating

/-- The magnitude of a code that has been rounded is at most that of the code. -/
theorem units_nearestCode_le (f : Format) (num den : Nat) :
    f.units (f.nearestCode num den).val ≤ f.units (f.roundedCode num den) :=
  f.units_mono (Nat.min_le_left _ _)

/-- A quotient that is at most a magnitude has a code that is at most that of the magnitude. -/
theorem nearestCode_le {f : Format} {num den code : Nat} (hden : 0 < den)
    (h : num ≤ f.units code * den) : (f.nearestCode num den).val ≤ code :=
  (Nat.min_le_left _ _).trans (f.roundedCode_le_of_le_units hden h)

/-- The least magnitude of a binade is a power of two. -/
theorem units_binade (f : Format) (t : Nat) :
    f.units (t * f.binade + f.binade) = 2 ^ (f.fractionBits + t) := by
  have hbinade := f.binade_pos
  rw [f.units_scaled (by omega) (Or.inr (Nat.le_refl _)), Nat.pow_add]
  rfl

/-- One has a power of two of units. -/
theorem scale_eq_pow (f : Format) : f.scale = 2 ^ f.scaleBits := rfl

/-- One has as many units as a binade has codes, or more. -/
theorem binade_le_scale (f : Format) : f.binade ≤ f.scale :=
  Nat.pow_le_pow_right (by decide) (Nat.le_add_left f.fractionBits _)

/-- A positive whole number has a magnitude of one at least. -/
theorem scale_le_units_wholeCode {n : Nat} (h : 0 < n) :
    binary64.scale ≤ binary64.units (binary64.wholeCode n).val := by
  have hone : binary64.units (1022 * binary64.binade + binary64.binade) = binary64.scale := by
    have hbits : binary64.fractionBits + 1022 = binary64.scaleBits := by decide
    rw [units_binade, hbits, scale_eq_pow]
  have hle : 1022 * binary64.binade + binary64.binade ≤ (binary64.wholeCode n).val := by
    refine Nat.le_min.mpr ⟨binary64.le_roundedCode_of_units_le Nat.one_pos ?_, by decide⟩
    rw [hone, Nat.mul_one]
    exact Nat.le_mul_of_pos_left _ h
  rw [← hone]
  exact binary64.units_mono hle

/-- A power of ten has a magnitude of one at least. -/
theorem scale_le_units_tenCode (exponent : Nat) :
    binary64.scale ≤ binary64.units (tenCode exponent).val :=
  scale_le_units_wholeCode (Nat.pow_pos (by decide))

/-- Dividing by a power of ten makes no magnitude greater. -/
theorem quotientCode_tenCode_le (code exponent : Nat) :
    (binary64.quotientCode code (tenCode exponent).val).val ≤ code := by
  have hscale := scale_le_units_tenCode exponent
  exact nearestCode_le (Nat.lt_of_lt_of_le binary64.scale_pos hscale)
    (Nat.mul_le_mul_left _ hscale)

/-- Neither does dividing several times. -/
theorem reducedCode_le (times : Nat) (code : Fin (binary64.infinityCode + 1)) :
    (reducedCode times code).val ≤ code.val := by
  induction times generalizing code with
  | zero => exact Nat.le_refl _
  | succ times ih =>
    rw [reducedCode]
    split
    · exact Nat.le_refl _
    · exact (ih _).trans (quotientCode_tenCode_le code.val greatestTen)

/-- A whole number of not too many bits has a finite magnitude. -/
theorem wholeCode_lt {n bits : Nat} (h : n ≤ 2 ^ bits) (hbits : bits ≤ 1000) :
    (binary64.wholeCode n).val < binary64.infinityCode := by
  have hpower : binary64.units ((1022 + bits) * binary64.binade + binary64.binade) =
      2 ^ bits * binary64.scale := by
    have hsum : binary64.fractionBits + (1022 + bits) = bits + binary64.scaleBits := by
      have hscale : binary64.scaleBits = 1074 := by decide
      have hfraction : binary64.fractionBits = 52 := rfl
      omega
    rw [units_binade, hsum, pow_add, scale_eq_pow]
  have hle : (binary64.wholeCode n).val ≤ (1022 + bits) * binary64.binade + binary64.binade := by
    refine nearestCode_le Nat.one_pos ?_
    rw [hpower, Nat.mul_one]
    exact Nat.mul_le_mul_right _ h
  have hinfinity : 2022 * binary64.binade + binary64.binade < binary64.infinityCode := by decide
  have hcodes := Nat.mul_le_mul_right binary64.binade (show 1022 + bits ≤ 2022 by omega)
  omega

/-- A whole number is rounded up by one part in two binades at most. -/
theorem units_wholeCode_le {n : Nat} (h : 0 < n) :
    binary64.units (binary64.wholeCode n).val * (2 * binary64.binade) ≤
      (2 * binary64.binade + 1) * (n * binary64.scale) := by
  have hnormal : binary64.binade * 1 ≤ n * binary64.scale := by
    rw [Nat.mul_one]
    exact (binade_le_scale _).trans (Nat.le_mul_of_pos_left _ h)
  have hle := binary64.units_roundedCode_le Nat.one_pos hnormal
  rw [Nat.mul_one] at hle
  exact (Nat.mul_le_mul_right _ (units_nearestCode_le _ _ _)).trans hle

/-- A product with a power of ten is rounded up by three parts at most, one for each step. -/
theorem units_productCode_le {n : Nat} (h : 0 < n) (exponent : Nat) :
    binary64.units (binary64.productCode (binary64.wholeCode n).val (tenCode exponent).val).val *
        (2 * binary64.binade) ^ 3 ≤
      (2 * binary64.binade + 1) ^ 3 * (n * 10 ^ exponent * binary64.scale) := by
  have hwhole := units_wholeCode_le h
  have hten : binary64.units (tenCode exponent).val * (2 * binary64.binade) ≤
      (2 * binary64.binade + 1) * (10 ^ exponent * binary64.scale) :=
    units_wholeCode_le (Nat.pow_pos (by decide))
  have hproduct := Nat.mul_le_mul (scale_le_units_wholeCode h)
    (scale_le_units_tenCode exponent)
  have hnormal : binary64.binade * binary64.scale ≤ binary64.scale * binary64.scale :=
    Nat.mul_le_mul_right _ (binade_le_scale _)
  have hrounded := binary64.units_roundedCode_le binary64.scale_pos (hnormal.trans hproduct)
  have hle := Nat.mul_le_mul_right (2 * binary64.binade * binary64.scale)
    (units_nearestCode_le binary64 (binary64.units (binary64.wholeCode n).val *
      binary64.units (tenCode exponent).val) binary64.scale)
  have hscale := binary64.scale_pos
  unfold Format.productCode
  generalize binary64.units (binary64.nearestCode _ _).val = product at *
  generalize binary64.units (binary64.wholeCode n).val = whole at *
  generalize binary64.units (tenCode exponent).val = ten at *
  generalize binary64.scale = scale at *
  generalize 2 * binary64.binade = steps at *
  refine Nat.le_of_mul_le_mul_right ?_ hscale
  calc product * steps ^ 3 * scale = product * (steps * scale) * (steps * steps) := by ring
    _ ≤ (steps + 1) * (whole * ten) * (steps * steps) :=
      Nat.mul_le_mul_right _ (hle.trans hrounded)
    _ = (steps + 1) * ((whole * steps) * (ten * steps)) := by ring
    _ ≤ (steps + 1) * (((steps + 1) * (n * scale)) * ((steps + 1) * (10 ^ exponent * scale))) :=
      Nat.mul_le_mul_left _ (Nat.mul_le_mul hwhole hten)
    _ = (steps + 1) ^ 3 * (n * 10 ^ exponent * scale) * scale := by ring

end Floating

/-! ## Written magnitudes -/

namespace Json

open Floating (scaledCode tenCode reducedCode greatestTen)

variable {token : NumberToken} {code : Nat}

/-- What is taken up of a decimal in the interval around a magnitude lies below its upper end. -/
theorem NumberToken.significand_scaled_le {f : Format}
    (h : Scientific.Fits ⟨token.digits, token.exponent⟩ f code)
    (hexponent : 0 ≤ token.significandExponent) :
    token.significand * 10 ^ token.significandExponent.toNat * (2 * f.scale) ≤
      (Interval.of f code).upper := by
  obtain ⟨-, hupper, -⟩ := (Interval.contains_iff _ _ _).mp h.2
  have htaken := token.significand_mul_le
  have hsum : token.significandExponent =
      token.exponent + (token.wholeExcess + token.placeExcess : Nat) := by
    unfold NumberToken.significandExponent
    push_cast
    ring
  generalize token.wholeExcess + token.placeExcess = excess at *
  dsimp only at hupper
  rcases Int.lt_or_le token.exponent 0 with hneg | hnonneg
  · have hzero : token.exponent.toNat = 0 := by omega
    have hexcess : excess = token.significandExponent.toNat + (-token.exponent).toNat := by omega
    rw [hzero, Nat.pow_zero, Nat.mul_one] at hupper
    refine Nat.le_of_mul_le_mul_right ?_ (Nat.pow_pos (n := (-token.exponent).toNat) (Nat.succ_pos 9))
    calc token.significand * 10 ^ token.significandExponent.toNat * (2 * f.scale) *
          10 ^ (-token.exponent).toNat
        = token.significand * 10 ^ excess * (2 * f.scale) := by rw [hexcess]; ring
      _ ≤ token.digits * (2 * f.scale) := Nat.mul_le_mul_right _ htaken
      _ ≤ (Interval.of f code).upper * 10 ^ (-token.exponent).toNat := hupper
  · have hzero : (-token.exponent).toNat = 0 := by omega
    have hexponents : token.significandExponent.toNat = token.exponent.toNat + excess := by omega
    rw [hzero, Nat.pow_zero, Nat.mul_one] at hupper
    calc token.significand * 10 ^ token.significandExponent.toNat * (2 * f.scale)
        = token.significand * 10 ^ excess * (2 * f.scale * 10 ^ token.exponent.toNat) := by
          rw [hexponents]; ring
      _ ≤ token.digits * (2 * f.scale * 10 ^ token.exponent.toNat) :=
        Nat.mul_le_mul_right _ htaken
      _ ≤ (Interval.of f code).upper := hupper

/-- The magnitude that infinity would have, in the units of the last binade. -/
theorem units_infinityCode_eq :
    binary64.units binary64.infinityCode = 2 * binary64.binade * 2 ^ 2045 := by
  rw [show binary64.infinityCode = 2045 * binary64.binade + 2 * binary64.binade by decide,
    binary64.units_scaled (Nat.le_refl _) (by decide)]

/-- Four codes below infinity, an interval ends three and a half units of the last binade below it. -/
theorem upper_le_of_code_le (hcode : code + 4 ≤ binary64.infinityCode) :
    (Interval.of binary64 code).upper ≤ (4 * binary64.binade - 7) * 2 ^ 2045 := by
  have hfour : code ≤ 2045 * binary64.binade + (2 * binary64.binade - 4) := by
    have hinfinity : binary64.infinityCode =
        2045 * binary64.binade + (2 * binary64.binade - 4) + 4 := by decide
    omega
  have hlow := binary64.units_mono hfour
  have hhigh := binary64.units_mono (Nat.succ_le_succ hfour)
  rw [binary64.units_scaled (by decide) (by decide)] at hlow
  rw [show (2045 * binary64.binade + (2 * binary64.binade - 4)).succ =
    2045 * binary64.binade + (2 * binary64.binade - 3) by decide,
    binary64.units_scaled (by decide) (by decide)] at hhigh
  calc binary64.units code + binary64.units (code + 1)
      ≤ (2 * binary64.binade - 4) * 2 ^ 2045 + (2 * binary64.binade - 3) * 2 ^ 2045 :=
        Nat.add_le_add hlow hhigh
    _ = (4 * binary64.binade - 7) * 2 ^ 2045 := by
      rw [← Nat.add_mul]
      congr 1

/-- Four codes below infinity there is room for the roundings of three steps. -/
theorem productCode_lt_of_le {n exponent : Nat} (hn : 0 < n)
    (hcode : code + 4 ≤ binary64.infinityCode)
    (hle : n * 10 ^ exponent * (2 * binary64.scale) ≤ (Interval.of binary64 code).upper) :
    (binary64.productCode (binary64.wholeCode n).val (tenCode exponent).val).val <
      binary64.infinityCode := by
  have hproduct := Floating.units_productCode_le hn exponent
  have hupper := upper_le_of_code_le hcode
  by_contra hinfinite
  have hunits := binary64.units_mono (Nat.le_of_not_lt hinfinite)
  rw [units_infinityCode_eq] at hunits
  have hpos : 0 < 2 ^ 2045 := by positivity
  generalize 2 ^ 2045 = step at *
  have hsteps : 2 * (2 * binary64.binade * step) * (2 * binary64.binade) ^ 3 ≤
      (2 * binary64.binade + 1) ^ 3 * ((4 * binary64.binade - 7) * step) := by
    calc 2 * (2 * binary64.binade * step) * (2 * binary64.binade) ^ 3
        = 2 * (2 * binary64.binade * step * (2 * binary64.binade) ^ 3) := by ring
      _ ≤ 2 * ((2 * binary64.binade + 1) ^ 3 * (n * 10 ^ exponent * binary64.scale)) :=
        Nat.mul_le_mul_left _ ((Nat.mul_le_mul_right _ hunits).trans hproduct)
      _ = (2 * binary64.binade + 1) ^ 3 * (n * 10 ^ exponent * (2 * binary64.scale)) := by ring
      _ ≤ (2 * binary64.binade + 1) ^ 3 * ((4 * binary64.binade - 7) * step) :=
        Nat.mul_le_mul_left _ (hle.trans hupper)
  have hless : (2 * binary64.binade + 1) ^ 3 * (4 * binary64.binade - 7) <
      2 * (2 * binary64.binade) * (2 * binary64.binade) ^ 3 := by decide
  have hlt := Nat.mul_lt_mul_of_pos_right hless hpos
  nlinarith

/-- No digits are read as zero. -/
theorem wholeCode_zero : (binary64.wholeCode 0).val = 0 :=
  Nat.le_zero.mp (Floating.nearestCode_le Nat.one_pos (by simp))

/-- No digits are zero with any power of ten. -/
theorem scaledCode_zero (exponent : Int) : (scaledCode 0 exponent).val = 0 := by
  unfold scaledCode
  dsimp only
  split
  · refine Nat.le_zero.mp (Nat.le_trans ?_ (Nat.le_of_eq wholeCode_zero))
    exact (Floating.quotientCode_tenCode_le _ _).trans (Floating.reducedCode_le _ _)
  · split
    · refine Nat.le_zero.mp (Floating.nearestCode_le binary64.scale_pos ?_)
      rw [wholeCode_zero]
      exact Nat.le_of_eq (by simp [Format.units])
    · rw [if_pos wholeCode_zero]
      exact wholeCode_zero

/-- Beyond the greatest power of ten there are no finite magnitudes. -/
theorem exponent_le_greatestTen {n exponent : Nat} (hn : 0 < n)
    (hcode : code < binary64.infinityCode)
    (hle : n * 10 ^ exponent * (2 * binary64.scale) ≤ (Interval.of binary64 code).upper) :
    exponent ≤ greatestTen := by
  by_contra hgreat
  have hinterval : (Interval.of binary64 code).upper ≤ 2 * binary64.units binary64.infinityCode := by
    have hlow := binary64.units_mono hcode.le
    have hhigh := binary64.units_mono (show code + 1 ≤ binary64.infinityCode from hcode)
    show binary64.units code + binary64.units (code + 1) ≤ _
    omega
  have hbits : binary64.fractionBits + (2 ^ binary64.exponentBits - 2) =
      1024 + binary64.scaleBits := by decide +kernel
  have hinfinity : binary64.units binary64.infinityCode = 2 ^ 1024 * binary64.scale := by
    rw [Floating.units_infinityCode (by decide), hbits, pow_add, Floating.scale_eq_pow]
  rw [hinfinity] at hinterval
  have hten : 10 ^ (greatestTen + 1) ≤ n * 10 ^ exponent := by
    calc 10 ^ (greatestTen + 1) ≤ 10 ^ exponent :=
          pow_le_pow_right₀ (by decide) (Nat.lt_of_not_le hgreat)
      _ ≤ n * 10 ^ exponent := Nat.le_mul_of_pos_left _ hn
  have hmul : 10 ^ (greatestTen + 1) * (2 * binary64.scale) ≤ 2 ^ 1024 * (2 * binary64.scale) := by
    calc 10 ^ (greatestTen + 1) * (2 * binary64.scale)
        ≤ n * 10 ^ exponent * (2 * binary64.scale) := Nat.mul_le_mul_right _ hten
      _ ≤ 2 * (2 ^ 1024 * binary64.scale) := hle.trans hinterval
      _ = 2 ^ 1024 * (2 * binary64.scale) := Nat.mul_left_comm _ _ _
  have hpowers := Nat.le_of_mul_le_mul_right hmul (Nat.mul_pos (by decide) binary64.scale_pos)
  exact absurd hpowers (by decide +kernel)

/-- The decimal of a magnitude four codes below infinity, or further, is read as a finite one. -/
theorem NumberToken.scaledCode_lt (hcode : code + 4 ≤ binary64.infinityCode)
    (h : Scientific.Fits ⟨token.digits, token.exponent⟩ binary64 code) :
    (scaledCode token.significand token.significandExponent).val < binary64.infinityCode := by
  have hfinite := @Floating.wholeCode_lt _ 64 token.significand_lt.le (by decide)
  rcases Nat.eq_zero_or_pos token.significand with hzero | hpos
  · rw [hzero, scaledCode_zero]
    exact Nat.zero_lt_of_lt hfinite
  unfold scaledCode
  dsimp only
  split
  · exact Nat.lt_of_le_of_lt
      ((Floating.quotientCode_tenCode_le _ _).trans (Floating.reducedCode_le _ _)) hfinite
  · next hexponent =>
    have hscaled := significand_scaled_le h (Int.not_lt.mp hexponent)
    have hgreatest := exponent_le_greatestTen hpos (show code < _ by omega) hscaled
    rw [if_pos (show token.significandExponent ≤ greatestTen by omega)]
    exact productCode_lt_of_le hpos hcode hscaled

/-- The texts of the three greatest magnitudes are read as numbers. -/
theorem value_greatest (negative : Bool) (below : Fin 3) :
    ((Scan.tokens .between (Layout.json.text (Floating.signed negative
      ⟨binary64.infinityCode - 1 - below.val, by omega⟩ : Binary64))).all fun token =>
        match token with
        | .number n => n.value.isOk
        | _ => false) = true := by
  revert negative below
  decide +kernel

/-- Where no digits are written, none are taken up. -/
theorem NumberToken.significand_of_digits (h : token.digits = 0) : token.significand = 0 := by
  have hle := token.significand_mul_le
  rw [h, Nat.le_zero, Nat.mul_eq_zero] at hle
  exact hle.resolve_right (Nat.pow_pos (by decide)).ne'

/-- What is read of a number with a point or an exponent is a floating-point number, or nothing where
it would be infinite. -/
theorem NumberToken.value_of_isWhole (hwhole : token.isWhole = false) :
    (∃ y finite, token.value = .ok (.float y finite)) ∨
      token.value = .error .malformed ∧ (Floating.ofScaled token.negative token.significand
        token.significandExponent).isFinite = false := by
  unfold NumberToken.value
  dsimp only
  rw [dif_neg (by simp [hwhole])]
  split
  · next hfinite => exact .inl ⟨_, hfinite, rfl⟩
  · next hinfinite => exact .inr ⟨rfl, Bool.eq_false_iff.mpr hinfinite⟩

/-- The text of every finite floating-point number is read as a floating-point number. -/
theorem exists_value_of_writes {x : Binary64} (hx : x.isFinite = true)
    (h : Writes (Layout.json.text x) token) :
    ∃ y finite, token.value = .ok (.float y finite) := by
  cases x with
  | nan => cases hx
  | signed negative magnitude =>
    have hlt : magnitude.val < binary64.infinityCode := of_decide_eq_true hx
    obtain ⟨token', hwrites, hspells⟩ :=
      @writes_magnitude binary64 Layout.json (Or.inr rfl) negative magnitude hlt
    rw [h.unique hwrites]
    refine (NumberToken.value_of_isWhole hspells.isWhole_eq).resolve_right ?_
    rintro ⟨hnothing, hinfinite⟩
    by_cases hcode : magnitude.val + 4 ≤ binary64.infinityCode
    · have hfinite : (Floating.scaledCode token'.significand token'.significandExponent).val <
          binary64.infinityCode := by
        rcases hspells.zero_or_fits with ⟨-, hdigits⟩ | ⟨-, hfits⟩
        · rw [NumberToken.significand_of_digits hdigits, scaledCode_zero]
          exact Nat.zero_lt_of_lt hlt
        · exact NumberToken.scaledCode_lt hcode hfits
      exact of_decide_eq_false hinfinite hfinite
    · -- one of the three greatest magnitudes
      have hbelow : binary64.infinityCode - 1 - magnitude.val < 3 := by omega
      have hmagnitude : magnitude = ⟨binary64.infinityCode - 1 -
          (⟨binary64.infinityCode - 1 - magnitude.val, hbelow⟩ : Fin 3).val, by omega⟩ :=
        Fin.ext (by dsimp only; omega)
      have htoken := hwrites [] numberEnd_nil
      have hread := value_greatest negative ⟨binary64.infinityCode - 1 - magnitude.val, hbelow⟩
      rw [← hmagnitude] at hread
      rw [List.append_nil] at htoken
      rw [htoken] at hread
      simp [hnothing, Except.isOk, Except.toBool] at hread

/-! ## Short decimals -/

/-- Digits that fit 64 bits are all taken up. -/
theorem excessDigits_of_lt {limit n : Nat} (h : n < 18446744073709551616) :
    excessDigits limit n = 0 := by
  cases limit with
  | zero => rfl
  | succ limit => rw [excessDigits, if_pos h]

/-- Of a number whose digits fit 64 bits nothing is left out. -/
theorem NumberToken.significand_of_lt (h : token.digits < 18446744073709551616) :
    token.significand = token.digits ∧ token.significandExponent = token.exponent := by
  have hwhole : token.wholeExcess = 0 :=
    excessDigits_of_lt (Nat.lt_of_le_of_lt (Nat.div_le_self _ _) h)
  have htaken : token.taken = token.digits := by
    unfold taken
    rw [hwhole]
    show token.digits / 10 ^ token.places / 1 * 10 ^ token.places + _ = _
    rw [Nat.div_one]
    exact Nat.div_add_mod' _ _
  have hplaces : token.placeExcess = 0 := excessDigits_of_lt (htaken ▸ h)
  unfold significand significandExponent
  rw [hwhole, hplaces, htaken]
  exact ⟨Nat.div_one _, by simp⟩

/-- A whole number that has few digits, zeros at the end of its binary form apart, is not rounded. -/
theorem units_wholeCode_eq {digits zeros : Nat} (hdigits : digits < 2 * binary64.binade)
    (h : digits * 2 ^ zeros ≤ 2 ^ 1000) :
    binary64.units (binary64.wholeCode (digits * 2 ^ zeros)).val =
      digits * 2 ^ zeros * binary64.scale := by
  have hunits := binary64.units_roundedCode (s := zeros + binary64.scaleBits) Nat.one_pos hdigits
  have hnum : digits * 2 ^ (zeros + binary64.scaleBits) * 1 =
      digits * 2 ^ zeros * binary64.scale := by
    rw [Floating.scale_eq_pow, Nat.mul_one, pow_add, Nat.mul_assoc]
  rw [hnum] at hunits
  have hfinite := Floating.wholeCode_lt h (Nat.le_refl _)
  have hcode : (binary64.wholeCode (digits * 2 ^ zeros)).val =
      binary64.roundedCode (digits * 2 ^ zeros * binary64.scale) 1 := by
    have hmin : (binary64.wholeCode (digits * 2 ^ zeros)).val =
      min (binary64.roundedCode (digits * 2 ^ zeros * binary64.scale) 1) binary64.infinityCode := rfl
    omega
  rw [hcode, hunits, ← hnum, Nat.mul_one]

/-- Small powers of ten are not rounded. -/
theorem units_tenCode {exponent : Nat} (h : exponent ≤ 22) :
    binary64.units (tenCode exponent).val = 10 ^ exponent * binary64.scale := by
  have hten : Nat.pow 10 exponent = 5 ^ exponent * 2 ^ exponent := by
    rw [← Nat.mul_pow]
    rfl
  have hfive : 5 ^ exponent < 2 * binary64.binade :=
    Nat.lt_of_le_of_lt (Nat.pow_le_pow_right (by decide) h) (by decide)
  have hsmall : 5 ^ exponent * 2 ^ exponent ≤ 2 ^ 1000 := by
    rw [← Nat.mul_pow]
    exact (Nat.pow_le_pow_right (by decide) h).trans (by decide +kernel)
  unfold tenCode
  rw [hten, units_wholeCode_eq hfive hsmall, ← hten]
  rfl

/-- Common factors do not matter for rounding. -/
theorem nearestCode_mul_right (f : Format) (num den : Nat) {factor : Nat} (h : 0 < factor) :
    f.nearestCode (num * factor) (den * factor) = f.nearestCode num den := by
  have hdiv : num * factor / (den * factor) = num / den := Nat.mul_div_mul_right _ _ h
  have hnearest : ∀ steps, Floating.nearestQuotient (num * factor) (den * factor * steps) =
      Floating.nearestQuotient num (den * steps) := by
    intro steps
    have hsteps : den * factor * steps = den * steps * factor := by ring
    unfold Floating.nearestQuotient
    rw [hsteps, Nat.mul_div_mul_right _ _ h, Nat.mul_mod_mul_right]
    dsimp only
    simp only [← Nat.mul_assoc, Nat.mul_lt_mul_right h]
  apply Fin.ext
  unfold Format.nearestCode Format.roundedCode
  dsimp only
  rw [hdiv, hnearest]

/-- Few digits with a small power of ten are rounded once. -/
theorem ofScaled_eq_ofDecimal {digits : Nat} {exponent : Int} (hdigits : digits < 2 ^ 53)
    (hlow : -22 ≤ exponent) (hhigh : exponent ≤ 22) (negative : Bool) :
    Floating.ofScaled negative digits exponent = Floating.ofDecimal negative digits exponent := by
  rcases Nat.eq_zero_or_pos digits with rfl | hpos
  · unfold Floating.ofScaled Floating.ofDecimal
    rw [if_pos rfl]
    congr 1
    exact Fin.ext (scaledCode_zero exponent)
  have hwhole := @units_wholeCode_eq digits 0 hdigits
    (by rw [Nat.pow_zero, Nat.mul_one]; exact hdigits.le.trans (by decide +kernel))
  rw [Nat.pow_zero, Nat.mul_one] at hwhole
  unfold Floating.ofScaled Floating.ofDecimal scaledCode
  dsimp only
  rw [if_neg hpos.ne']
  split
  · next hexponent =>
    have hplaces : (-exponent).toNat ≤ 22 := by omega
    have htimes : ((-exponent).toNat - 1) / greatestTen = 0 := by
      unfold greatestTen
      omega
    have hbits : binary64.scaleBits = 1074 := by decide
    rw [if_neg (by omega), if_neg (by omega), htimes, reducedCode, Nat.zero_mul, Nat.sub_zero]
    unfold Format.quotientCode Floating.ofQuotient
    rw [hwhole, units_tenCode hplaces, nearestCode_mul_right _ _ _ binary64.scale_pos]
    rfl
  · next hexponent =>
    have hplaces : exponent.toNat ≤ 22 := by omega
    have hcut : ¬ Nat.pow 2 binary64.exponentBits ≤ 3 * exponent.toNat := by
      have hpow : Nat.pow 2 binary64.exponentBits = 2048 := by decide
      omega
    have hproduct : digits * binary64.scale * (10 ^ exponent.toNat * binary64.scale) =
        digits * 10 ^ exponent.toNat * binary64.scale * binary64.scale := by ring
    rw [if_pos (by unfold greatestTen; omega), if_pos (by omega), if_neg hcut]
    unfold Format.productCode Floating.ofQuotient
    rw [hwhole, units_tenCode hplaces, hproduct,
      ← nearestCode_mul_right _ (digits * Nat.pow 10 exponent.toNat * _) 1 binary64.scale_pos,
      Nat.one_mul]
    rfl

/-- The text of a number is read as the number when it has few digits and a small power of ten. -/
theorem value_of_writes_short {x : Binary64} (hx : x.isFinite = true)
    (h : Writes (Layout.json.text x) token) (hdigits : token.digits < 2 ^ 53)
    (hlow : -22 ≤ token.exponent) (hhigh : token.exponent ≤ 22) :
    token.value = .ok (.float x hx) := by
  obtain ⟨token', hwrites, hwhole, hvalue⟩ :=
    @writes_float binary64 (by decide) (by decide) Layout.json (Or.inr rfl) x hx
  obtain rfl := h.unique hwrites
  obtain ⟨hsignificand, hexponent⟩ := NumberToken.significand_of_lt (hdigits.trans (by decide))
  have hread : Floating.ofScaled token.negative token.significand token.significandExponent = x := by
    rw [hsignificand, hexponent, ofScaled_eq_ofDecimal hdigits hlow hhigh, hvalue]
  unfold NumberToken.value
  dsimp only
  rw [dif_neg (by rw [hwhole]; simp), dif_pos (by rw [hread]; exact hx)]
  congr 2

end Json

end DocumentStore
