import DocumentStore.Proofs.ShortestDecimal

/-!
# Conversion to a wider format

A magnitude of a narrow format is a whole number of steps of a wide one, and few enough steps that
the wide format has it exactly. So widening changes no magnitude, and narrowing what was widened
gives the datum back. Double precision is wider than single precision in this sense.
-/

set_option autoImplicit false

namespace DocumentStore.Floating

namespace Format

/-- A whole number that is exact in a quotient is not rounded. -/
theorem nearestQuotient_mul {den : Nat} (hden : 0 < den) (k : Nat) :
    nearestQuotient (k * den) den = k := by
  apply nearestQuotient_eq hden
  · nlinarith
  · nlinarith
  · right
    constructor <;> nlinarith

variable (f : Format)

/-- Few enough steps of any length are fewest steps of some length. -/
theorem exists_normalized {k : Nat} (hk : k < 2 * f.binade) (s : Nat) :
    ∃ t m, k * 2 ^ s = m * 2 ^ t ∧ m < 2 * f.binade ∧ (t = 0 ∨ f.binade ≤ m) := by
  induction s generalizing k with
  | zero => exact ⟨0, k, rfl, hk, Or.inl rfl⟩
  | succ s ih =>
    by_cases hle : f.binade ≤ k
    · exact ⟨s + 1, k, rfl, hk, Or.inr hle⟩
    · obtain ⟨t, m, hm, hlt, ht⟩ := @ih (2 * k) (by omega)
      refine ⟨t, m, ?_, hlt, ht⟩
      rw [← hm, Nat.pow_succ]
      ring

/-- A magnitude that the format has is rounded to its own code. -/
theorem roundedCode_units {t m den : Nat} (hden : 0 < den) (hm : m < 2 * f.binade)
    (ht : t = 0 ∨ f.binade ≤ m) :
    f.roundedCode (m * 2 ^ t * den) den = t * f.binade + m := by
  have hpow := Nat.two_pow_pos t
  have hnum : m * 2 ^ t * den = m * (den * 2 ^ t) := by ring
  rw [f.roundedCode_scaled hden, hnum, nearestQuotient_mul (Nat.mul_pos hden hpow)]
  · refine ht.imp_right fun hle => ?_
    exact Nat.mul_le_mul_right _ (Nat.mul_le_mul_right _ hle)
  · exact Nat.mul_lt_mul_of_pos_right (Nat.mul_lt_mul_of_pos_right hm hpow) hden

/-- Rounding few enough steps loses nothing. -/
theorem units_roundedCode {k s den : Nat} (hden : 0 < den) (hk : k < 2 * f.binade) :
    f.units (f.roundedCode (k * 2 ^ s * den) den) = k * 2 ^ s := by
  obtain ⟨t, m, hsteps, hm, ht⟩ := f.exists_normalized hk s
  rw [hsteps, f.roundedCode_units hden hm ht, f.units_scaled (Nat.le_of_lt hm) ht]

/-- Every magnitude is rounded to its own code. -/
theorem roundedCode_of_units {den : Nat} (hden : 0 < den) (code : Nat) :
    f.roundedCode (f.units code * den) den = code := by
  obtain ⟨t, m, rfl, hm, ht⟩ := f.exists_scaled code
  rw [f.units_scaled (Nat.le_of_lt hm) ht, f.roundedCode_units hden hm ht]

/-- Up to the first magnitude past all finite ones, the nearest code is the rounded one. -/
theorem nearestCode_eq {num den code : Nat} (h : f.roundedCode num den = code)
    (hcode : code ≤ f.infinityCode) : f.nearestCode num den = ⟨code, by omega⟩ := by
  subst h
  exact Fin.ext (Nat.min_eq_left hcode)

/-- The wide format has every magnitude of the narrow one. -/
structure Widens (narrow wide : Format) : Prop where
  fraction : narrow.fractionBits ≤ wide.fractionBits
  scale : narrow.scaleBits ≤ wide.scaleBits
  narrow_exponent : 2 ≤ narrow.exponentBits
  wide_exponent : 2 ≤ wide.exponentBits
  range : narrow.fractionBits + (2 ^ narrow.exponentBits - 2) + (wide.scaleBits - narrow.scaleBits) <
    wide.fractionBits + (2 ^ wide.exponentBits - 2)

/-- Every number of 32 bits is a number of 64 bits. -/
theorem widens_binary32_binary64 : Widens binary32 binary64 := by
  constructor <;> decide

namespace Widens

variable {narrow wide : Format} (h : Widens narrow wide)

include h

/-- The wide format has finer units by a power of two. -/
theorem scale_eq : wide.scale = 2 ^ (wide.scaleBits - narrow.scaleBits) * narrow.scale := by
  show 2 ^ wide.scaleBits = _ * 2 ^ narrow.scaleBits
  rw [← Nat.pow_add, Nat.sub_add_cancel h.scale]

/-- The code of a magnitude of the narrow format in the wide one has the same magnitude. -/
theorem units_widened (code : Nat) :
    wide.units (wide.roundedCode (narrow.units code * wide.scale) narrow.scale) =
      narrow.units code * 2 ^ (wide.scaleBits - narrow.scaleBits) := by
  obtain ⟨t, k, rfl, hk, ht⟩ := narrow.exists_scaled code
  have hbinade : narrow.binade ≤ wide.binade := Nat.pow_le_pow_right (by decide) h.fraction
  have hnum : k * 2 ^ t * wide.scale =
      k * 2 ^ (t + (wide.scaleBits - narrow.scaleBits)) * narrow.scale := by
    rw [h.scale_eq, Nat.pow_add]
    ring
  rw [narrow.units_scaled (Nat.le_of_lt hk) ht, hnum,
    wide.units_roundedCode narrow.scale_pos (by omega), Nat.pow_add]
  ring

/-- A finite magnitude stays finite. -/
theorem roundedCode_lt {code : Nat} (hcode : code ≤ narrow.infinityCode) :
    wide.roundedCode (narrow.units code * wide.scale) narrow.scale < wide.infinityCode := by
  by_contra hge
  have hmono := wide.units_mono (Nat.le_of_not_lt hge)
  rw [h.units_widened, units_infinityCode h.wide_exponent] at hmono
  have hunits := narrow.units_mono hcode
  rw [units_infinityCode h.narrow_exponent] at hunits
  have hle : 2 ^ (wide.fractionBits + (2 ^ wide.exponentBits - 2)) ≤
      2 ^ (narrow.fractionBits + (2 ^ narrow.exponentBits - 2) +
        (wide.scaleBits - narrow.scaleBits)) := by
    rw [Nat.pow_add 2 (narrow.fractionBits + _)]
    exact Nat.le_trans hmono (Nat.mul_le_mul_right _ hunits)
  have hrange := (Nat.pow_le_pow_iff_right (by decide)).mp hle
  exact absurd hrange (Nat.not_le_of_lt h.range)

end Widens

end Format

open Format (Widens)

/-- Narrowing what was widened gives the datum back. -/
theorem convert_convert {narrow wide : Format} (h : Widens narrow wide) (x : Floating narrow) :
    (x.convert wide).convert narrow = x := by
  cases x with
  | nan => rfl
  | signed negative code =>
    by_cases hfinite : code.val < narrow.infinityCode
    · have hcode := h.roundedCode_lt (Nat.le_of_lt hfinite)
      have hscale : narrow.units code * 2 ^ (wide.scaleBits - narrow.scaleBits) * narrow.scale =
          narrow.units code * wide.scale := by
        rw [h.scale_eq]
        ring
      have hnarrow : narrow.roundedCode (wide.units (wide.roundedCode
          (narrow.units code * wide.scale) narrow.scale) * narrow.scale) wide.scale = code.val := by
        rw [h.units_widened, hscale, narrow.roundedCode_of_units wide.scale_pos]
      rw [convert, if_pos hfinite, wide.nearestCode_eq rfl (Nat.le_of_lt hcode), convert,
        if_pos hcode, narrow.nearestCode_eq hnarrow (Nat.le_of_lt hfinite)]
    · have hcode : code.val = narrow.infinityCode := by omega
      have hwide : (signed negative code : Floating narrow).convert wide = infinity negative :=
        if_neg hfinite
      rw [hwide, infinity, convert, if_neg (Nat.lt_irrefl _), infinity]
      congr 1
      exact Fin.ext hcode.symm

end DocumentStore.Floating
