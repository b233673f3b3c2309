import DocumentStore.Decimal.Shortest
import Mathlib.Tactic.Ring
import Mathlib.Tactic.Linarith

/-!
# Rounding to the nearest magnitude

Every code is `t * binade + k`, where `k` is less than two binades and, unless `t` is zero, at least
one; its magnitude is then `k * 2 ^ t` units. In this form rounding a quotient is rounding it to a
multiple of `2 ^ t`, and the interval around a magnitude has half that distance on either side. The
exception is the least magnitude of a binade, whose lower neighbour is twice as near; a quotient
between the two is rounded on the finer grid, where it meets the same code.

The results hold of every format with at least one fraction bit, which makes the parity of a code
that of its `k`.
-/

set_option autoImplicit false

namespace DocumentStore

open Decimal (Interval)

namespace Floating

/-- A quotient is rounded to `k` when it is at most a half away from it, and less than that unless
`k` is even. -/
theorem nearestQuotient_eq {num den k : Nat} (hden : 0 < den)
    (hlow : 2 * k * den ≤ 2 * num + den) (hhigh : 2 * num ≤ (2 * k + 1) * den)
    (htie : k % 2 = 0 ∨ 2 * k * den < 2 * num + den ∧ 2 * num < (2 * k + 1) * den) :
    nearestQuotient num den = k := by
  have hdiv : den * (num / den) + num % den = num := Nat.div_add_mod num den
  have hrest : num % den < den := Nat.mod_lt num hden
  unfold nearestQuotient
  dsimp only
  generalize num / den = down at *
  generalize num % den = rest at *
  have hle : down ≤ k := by
    by_contra hlt
    have hmul : den * (k + 1) ≤ den * down := Nat.mul_le_mul_left den (by omega)
    nlinarith
  have hge : k ≤ down + 1 := by
    by_contra hlt
    have hmul : den * (down + 2) ≤ den * k := Nat.mul_le_mul_left den (by omega)
    nlinarith
  rcases Nat.lt_or_ge down k with hlt | hge'
  · have hk : k = down + 1 := by omega
    subst hk
    have hexpand : 2 * (down + 1) * den = 2 * (den * down) + 2 * den := by ring
    rw [hexpand] at hlow htie
    split
    · omega
    · split <;> omega
  · have hk : k = down := by omega
    subst hk
    have hexpand : (2 * k + 1) * den = 2 * (den * k) + den := by ring
    rw [hexpand] at hhigh htie
    split
    · rfl
    · split <;> omega

/-- A quotient that is at most a whole number is rounded to that number at most. -/
theorem nearestQuotient_le {num den k : Nat} (hden : 0 < den) (h : num ≤ k * den) :
    nearestQuotient num den ≤ k := by
  have hdiv : den * (num / den) + num % den = num := Nat.div_add_mod num den
  have hdown : num / den ≤ k := by
    have hle := Nat.div_le_div_right (c := den) h
    rwa [Nat.mul_div_cancel _ hden] at hle
  -- what is rounded up has a rest, so it lies below the whole number
  have hup : 0 < num % den → num / den < k := by
    intro hrest
    rw [Nat.div_lt_iff_lt_mul hden]
    rcases Nat.lt_or_ge num (k * den) with hlt | hge
    · exact hlt
    · have heq : num = k * den := Nat.le_antisymm h hge
      rw [heq, Nat.mul_mod_left] at hrest
      omega
  unfold nearestQuotient
  dsimp only
  split
  · exact hdown
  · split
    · exact hup (by omega)
    · have hrest : 0 < num % den := by omega
      have hlt := hup hrest
      omega

/-- A quotient that is at least a whole number is rounded to that number at least. -/
theorem le_nearestQuotient {num den k : Nat} (hden : 0 < den) (h : k * den ≤ num) :
    k ≤ nearestQuotient num den := by
  have hdown : k ≤ num / den := (Nat.le_div_iff_mul_le hden).mpr h
  unfold nearestQuotient
  dsimp only
  split
  · exact hdown
  · split <;> omega

/-- What a quotient is rounded to lies above it by a half at most. -/
theorem two_mul_nearestQuotient_le (num den : Nat) :
    2 * (nearestQuotient num den * den) ≤ 2 * num + den := by
  have hdiv : den * (num / den) + num % den = num := Nat.div_add_mod num den
  have hdown : num / den * den = den * (num / den) := Nat.mul_comm _ _
  have hup : (num / den + 1) * den = den * (num / den) + den := by ring
  have htie : (num / den + num / den % 2) * den ≤ (num / den + 1) * den :=
    Nat.mul_le_mul_right den (by omega)
  unfold nearestQuotient
  dsimp only
  split
  · omega
  · split <;> omega

namespace Format

variable (f : Format)

/-- A binade has at least one code. -/
theorem binade_pos : 0 < f.binade := Nat.two_pow_pos f.fractionBits

/-- One has at least one unit. -/
theorem scale_pos : 0 < f.scale := Nat.two_pow_pos f.scaleBits

/-- With a fraction bit a binade has an even number of codes. -/
theorem binade_even (hf : 1 ≤ f.fractionBits) : f.binade % 2 = 0 := by
  obtain ⟨bits, hbits⟩ : ∃ bits, f.fractionBits = bits + 1 := ⟨f.fractionBits - 1, by omega⟩
  have hpow : f.binade = 2 ^ bits * 2 := by
    show 2 ^ f.fractionBits = _
    rw [hbits, Nat.pow_succ]
  omega

/-- Every code has a multiple of the binade and a rest that says how many steps its magnitude is. -/
theorem exists_scaled (code : Nat) :
    ∃ t k, code = t * f.binade + k ∧ k < 2 * f.binade ∧ (t = 0 ∨ f.binade ≤ k) := by
  have hpos := f.binade_pos
  have hdiv := Nat.div_add_mod code f.binade
  have hmod := Nat.mod_lt code hpos
  cases hq : code / f.binade with
  | zero =>
    rw [hq] at hdiv
    exact ⟨0, code % f.binade, by omega, by omega, Or.inl rfl⟩
  | succ t =>
    rw [hq] at hdiv
    have hmul : f.binade * (t + 1) = t * f.binade + f.binade := by ring
    exact ⟨t, f.binade + code % f.binade, by omega, by omega, Or.inr (by omega)⟩

/-- The magnitude of a code in units. -/
theorem units_scaled {t k : Nat} (hk : k ≤ 2 * f.binade) (ht : t = 0 ∨ f.binade ≤ k) :
    f.units (t * f.binade + k) = k * 2 ^ t := by
  have hpos := f.binade_pos
  unfold units
  rcases Nat.lt_or_ge k f.binade with hlt | hge
  · have ht : t = 0 := by omega
    subst ht
    rw [Nat.zero_mul, Nat.zero_add, Nat.div_eq_of_lt hlt, if_pos rfl, Nat.pow_zero, Nat.mul_one]
  · rcases Nat.lt_or_ge k (2 * f.binade) with hlt | hge'
    · have hcode : t * f.binade + k = (k - f.binade) + f.binade * (t + 1) := by
        rw [Nat.mul_succ, Nat.mul_comm f.binade t]
        omega
      have hrest : k - f.binade < f.binade := by omega
      rw [hcode, Nat.add_mul_div_left _ _ hpos, Nat.add_mul_mod_self_left,
        Nat.div_eq_of_lt hrest, Nat.mod_eq_of_lt hrest, if_neg (by omega)]
      have hk : f.binade + (k - f.binade) = k := by omega
      rw [hk, Nat.zero_add, Nat.add_sub_cancel]
      rfl
    · have hk : k = 2 * f.binade := by omega
      subst hk
      have hcode : t * f.binade + 2 * f.binade = 0 + f.binade * (t + 2) := by ring
      rw [hcode, Nat.add_mul_div_left _ _ hpos, Nat.add_mul_mod_self_left, Nat.zero_div,
        Nat.zero_mod, if_neg (by omega)]
      show (f.binade + 0) * 2 ^ (0 + (t + 2) - 1) = _
      rw [Nat.add_zero, Nat.zero_add, show t + 2 - 1 = t + 1 from rfl, Nat.pow_succ]
      ring

/-- A quotient between one and two binades of steps is rounded to a whole number of steps. -/
theorem roundedCode_scaled {num den t : Nat} (hden : 0 < den)
    (hlow : t = 0 ∨ f.binade * 2 ^ t * den ≤ num) (hhigh : num < 2 * f.binade * 2 ^ t * den) :
    f.roundedCode num den = t * f.binade + nearestQuotient num (den * 2 ^ t) := by
  have hlt : num / den < 2 * f.binade * 2 ^ t := (Nat.div_lt_iff_lt_mul hden).mpr hhigh
  have hpow : 2 * f.binade * 2 ^ t = 2 ^ (f.fractionBits + t + 1) := by
    show 2 * 2 ^ f.fractionBits * 2 ^ t = _
    ring
  rw [hpow] at hlt
  have hshift : (num / den).log2 - f.fractionBits = t := by
    by_cases hzero : num / den = 0
    · rcases hlow with rfl | hlow
      · rw [hzero]
        exact Nat.zero_sub _
      · have hle : f.binade * 2 ^ t ≤ num / den := (Nat.le_div_iff_mul_le hden).mpr hlow
        have hpos : 0 < f.binade * 2 ^ t := Nat.mul_pos f.binade_pos (Nat.two_pow_pos t)
        omega
    · have hupper : (num / den).log2 < f.fractionBits + t + 1 := (Nat.log2_lt hzero).mpr hlt
      rcases hlow with rfl | hlow
      · omega
      · have hle : f.binade * 2 ^ t ≤ num / den := (Nat.le_div_iff_mul_le hden).mpr hlow
        have hlower : f.fractionBits + t ≤ (num / den).log2 := by
          rw [Nat.le_log2 hzero, Nat.pow_add]
          exact hle
        omega
  unfold roundedCode
  dsimp only
  rw [hshift]
  rfl

/-- A quotient below two binades of steps is rounded to two binades at most. -/
theorem roundedCode_le {num den t : Nat} (hden : 0 < den)
    (h : num < 2 * f.binade * 2 ^ t * den) : f.roundedCode num den ≤ (t + 2) * f.binade := by
  induction t with
  | zero =>
    have hnearest : nearestQuotient num den ≤ 2 * f.binade :=
      nearestQuotient_le hden (by nlinarith)
    rw [f.roundedCode_scaled hden (Or.inl rfl) h, Nat.pow_zero, Nat.mul_one]
    omega
  | succ t ih =>
    rcases Nat.lt_or_ge num (2 * f.binade * 2 ^ t * den) with hlt | hge
    · exact Nat.le_trans (ih hlt) (Nat.mul_le_mul_right _ (by omega))
    · have hpos : 0 < den * 2 ^ (t + 1) := Nat.mul_pos hden (Nat.two_pow_pos _)
      have hnearest : nearestQuotient num (den * 2 ^ (t + 1)) ≤ 2 * f.binade := by
        refine nearestQuotient_le hpos ?_
        calc num ≤ 2 * f.binade * 2 ^ (t + 1) * den := Nat.le_of_lt h
          _ = 2 * f.binade * (den * 2 ^ (t + 1)) := by ring
      have hlow : f.binade * 2 ^ (t + 1) * den ≤ num := by
        calc f.binade * 2 ^ (t + 1) * den = 2 * f.binade * 2 ^ t * den := by ring
          _ ≤ num := hge
      rw [f.roundedCode_scaled hden (Or.inr hlow) h]
      calc (t + 1) * f.binade + nearestQuotient num (den * 2 ^ (t + 1))
          ≤ (t + 1) * f.binade + 2 * f.binade := by omega
        _ = (t + 1 + 2) * f.binade := by ring

/-- Magnitudes grow with their codes. -/
theorem units_lt_succ (code : Nat) : f.units code < f.units (code + 1) := by
  obtain ⟨t, k, rfl, hk, ht⟩ := f.exists_scaled code
  have hpos := Nat.two_pow_pos t
  rw [Nat.add_assoc, f.units_scaled (by omega) ht, f.units_scaled (by omega) (by omega)]
  exact Nat.mul_lt_mul_of_pos_right (Nat.lt_succ_self k) hpos

/-- Magnitudes are in the order of their codes. -/
theorem units_mono {code code' : Nat} (h : code ≤ code') : f.units code ≤ f.units code' := by
  induction h with
  | refl => exact Nat.le_refl _
  | step _ ih => exact Nat.le_trans ih (Nat.le_of_lt (f.units_lt_succ _))

/-- Every code but zero stands for a positive magnitude. -/
theorem units_pos {code : Nat} (h : 0 < code) : 0 < f.units code :=
  Nat.lt_of_lt_of_le (Nat.lt_of_le_of_lt (Nat.zero_le _) (f.units_lt_succ 0)) (f.units_mono h)

/-- A quotient that is at most a magnitude is rounded to that magnitude at most. -/
theorem roundedCode_le_of_le_units {num den code : Nat} (hden : 0 < den)
    (h : num ≤ f.units code * den) : f.roundedCode num den ≤ code := by
  obtain ⟨t, k, rfl, hk, ht⟩ := f.exists_scaled code
  rw [f.units_scaled (by omega) ht] at h
  have hbelow : num < 2 * f.binade * 2 ^ t * den := by
    have hpos : 0 < 2 ^ t * den := Nat.mul_pos (Nat.two_pow_pos t) hden
    calc num ≤ k * (2 ^ t * den) := by rwa [← Nat.mul_assoc]
      _ < 2 * f.binade * (2 ^ t * den) := Nat.mul_lt_mul_of_pos_right hk hpos
      _ = 2 * f.binade * 2 ^ t * den := by ring
  have hnearest : nearestQuotient num (den * 2 ^ t) ≤ k := by
    refine nearestQuotient_le (Nat.mul_pos hden (Nat.two_pow_pos t)) ?_
    rwa [Nat.mul_comm den, ← Nat.mul_assoc]
  cases t with
  | zero =>
    rw [f.roundedCode_scaled hden (Or.inl rfl) hbelow]
    omega
  | succ t =>
    rcases Nat.lt_or_ge num (f.binade * 2 ^ (t + 1) * den) with hlow | hhigh
    · -- the quotient lies a binade below, and so does its code
      have hle : f.roundedCode num den ≤ (t + 2) * f.binade := by
        refine f.roundedCode_le hden ?_
        calc num < f.binade * 2 ^ (t + 1) * den := hlow
          _ = 2 * f.binade * 2 ^ t * den := by ring
      have hcode : (t + 2) * f.binade = (t + 1) * f.binade + f.binade := by ring
      omega
    · rw [f.roundedCode_scaled hden (Or.inr hhigh) hbelow]
      omega

/-- Every quotient lies on the grid of some binade, the least one apart not below it. -/
theorem exists_grid {den : Nat} (hden : 0 < den) (num : Nat) :
    ∃ t, (t = 0 ∨ f.binade * 2 ^ t * den ≤ num) ∧ num < 2 * f.binade * 2 ^ t * den := by
  have hunbounded : ∃ t, num < 2 * f.binade * 2 ^ t * den := by
    have hbinade := f.binade_pos
    refine ⟨num, Nat.lt_of_lt_of_le (@Nat.lt_two_pow_self num) ?_⟩
    calc 2 ^ num = 1 * 2 ^ num * 1 := by ring
      _ ≤ 2 * f.binade * 2 ^ num * den :=
        Nat.mul_le_mul (Nat.mul_le_mul_right _ (by omega)) hden
  cases hfind : Nat.find hunbounded with
  | zero => exact ⟨0, Or.inl rfl, hfind ▸ Nat.find_spec hunbounded⟩
  | succ t =>
    refine ⟨t + 1, Or.inr ?_, hfind ▸ Nat.find_spec hunbounded⟩
    have hle := Nat.not_lt.mp (Nat.find_min hunbounded (show t < _ by omega))
    calc f.binade * 2 ^ (t + 1) * den = 2 * f.binade * 2 ^ t * den := by ring
      _ ≤ num := hle

/-- On its grid a quotient is rounded to some number of steps, between one and two binades of them
unless the grid is the least one. -/
theorem nearestQuotient_grid {num den t : Nat} (hden : 0 < den)
    (hlow : t = 0 ∨ f.binade * 2 ^ t * den ≤ num) (hhigh : num < 2 * f.binade * 2 ^ t * den) :
    nearestQuotient num (den * 2 ^ t) ≤ 2 * f.binade ∧
      (t = 0 ∨ f.binade ≤ nearestQuotient num (den * 2 ^ t)) := by
  have hpos : 0 < den * 2 ^ t := Nat.mul_pos hden (Nat.two_pow_pos t)
  have hstep : ∀ x, x * 2 ^ t * den = x * (den * 2 ^ t) := fun x => by ring
  rw [hstep] at hlow hhigh
  exact ⟨nearestQuotient_le hpos hhigh.le, hlow.imp_right (le_nearestQuotient hpos)⟩

/-- A quotient that is at least a magnitude is rounded to that magnitude at least. -/
theorem le_roundedCode_of_units_le {num den code : Nat} (hden : 0 < den)
    (h : f.units code * den ≤ num) : code ≤ f.roundedCode num den := by
  obtain ⟨s, k, rfl, hk, hs⟩ := f.exists_scaled code
  rw [f.units_scaled (by omega) hs] at h
  obtain ⟨t, hlow, hhigh⟩ := f.exists_grid hden num
  have hgrid := (f.nearestQuotient_grid hden hlow hhigh).2
  rw [f.roundedCode_scaled hden hlow hhigh]
  rcases Nat.lt_trichotomy t s with hlt | rfl | hgt
  · -- the magnitude would lie on a coarser grid than the quotient above it
    have hbinade : f.binade ≤ k := by omega
    have hpow : 2 ^ (t + 1) ≤ 2 ^ s := Nat.pow_le_pow_right (by decide) hlt
    have hle : 2 * f.binade * 2 ^ t * den ≤ k * 2 ^ s * den := by
      calc 2 * f.binade * 2 ^ t * den = f.binade * 2 ^ (t + 1) * den := by ring
        _ ≤ k * 2 ^ s * den := Nat.mul_le_mul_right _ (Nat.mul_le_mul hbinade hpow)
    omega
  · have hnearest : k ≤ nearestQuotient num (den * 2 ^ t) := by
      refine le_nearestQuotient (Nat.mul_pos hden (Nat.two_pow_pos t)) ?_
      calc k * (den * 2 ^ t) = k * 2 ^ t * den := by ring
        _ ≤ num := h
    omega
  · have hcodes : (s + 1) * f.binade ≤ t * f.binade := Nat.mul_le_mul_right _ hgt
    rw [Nat.succ_mul] at hcodes
    omega

/-- Above the smallest magnitudes rounding adds at most the part of a quotient that has two binades to
the whole. -/
theorem units_roundedCode_le {num den : Nat} (hden : 0 < den) (hnormal : f.binade * den ≤ num) :
    f.units (f.roundedCode num den) * (2 * f.binade * den) ≤ (2 * f.binade + 1) * num := by
  obtain ⟨t, hlow, hhigh⟩ := f.exists_grid hden num
  obtain ⟨hmost, hleast⟩ := f.nearestQuotient_grid hden hlow hhigh
  have hlow' : f.binade * 2 ^ t * den ≤ num := by
    rcases hlow with rfl | hlow
    · rwa [Nat.pow_zero, Nat.mul_one]
    · exact hlow
  have hhalf := two_mul_nearestQuotient_le num (den * 2 ^ t)
  rw [f.roundedCode_scaled hden hlow hhigh, f.units_scaled hmost hleast]
  generalize nearestQuotient num (den * 2 ^ t) = k at hhalf
  calc k * 2 ^ t * (2 * f.binade * den) = f.binade * (2 * (k * (den * 2 ^ t))) := by ring
    _ ≤ f.binade * (2 * num + den * 2 ^ t) := Nat.mul_le_mul_left _ hhalf
    _ = 2 * f.binade * num + f.binade * 2 ^ t * den := by ring
    _ ≤ 2 * f.binade * num + num := by omega
    _ = (2 * f.binade + 1) * num := by ring

end Format

/-- A quotient that is not too large is rounded to a finite number. -/
theorem isFinite_ofQuotient {f : Format} {num den t : Nat} (hden : 0 < den)
    (h : num * f.scale < 2 * f.binade * 2 ^ t * den) (ht : t + 2 < 2 ^ f.exponentBits - 1)
    (negative : Bool) : (ofQuotient negative num den : Floating f).isFinite = true := by
  have hcode := f.roundedCode_le hden h
  have hlt : (t + 2) * f.binade < f.infinityCode :=
    Nat.mul_lt_mul_of_pos_right ht f.binade_pos
  unfold ofQuotient isFinite Format.nearestCode
  dsimp only
  rw [decide_eq_true_eq]
  omega

/-- A whole number of 64 bits is rounded to a finite double-precision number. -/
theorem isFinite_ofInt {n : Int} (h : n.natAbs < 2 ^ 64) :
    (ofInt n : Binary64).isFinite = true := by
  refine isFinite_ofQuotient (t := Format.binary64.scaleBits + 11) (by decide) ?_ (by decide) _
  have hscale : 2 * Format.binary64.binade * 2 ^ (Format.binary64.scaleBits + 11) * 1 =
      2 ^ 64 * Format.binary64.scale := by
    unfold Format.scale
    generalize Format.binary64.scaleBits = bits
    show 2 * 2 ^ 52 * 2 ^ (bits + 11) * 1 = 2 ^ 64 * 2 ^ bits
    ring
  rw [hscale]
  exact Nat.mul_lt_mul_of_pos_right h (Format.scale_pos _)

end Floating

/-! ## The interval around a magnitude -/

open Floating (Format nearestQuotient nearestQuotient_eq)

namespace Decimal.Interval

/-- A quotient lies in an interval between its bounds, which belong to a closed one. -/
theorem contains_iff (i : Interval) (num den : Nat) :
    i.contains num den = true ↔
      i.lower * den ≤ num ∧ num ≤ i.upper * den ∧
        (i.closed = true ∨ i.lower * den < num ∧ num < i.upper * den) := by
  unfold contains
  split
  · next hclosed => simp [hclosed]
  · next hopen =>
    simp only [hopen, Bool.false_eq_true, false_or, Bool.and_eq_true, decide_eq_true_eq]
    omega

variable {f : Format} {t k num den : Nat}

/-- The upper end is half a step above the magnitude. -/
theorem upper_scaled (hk : k < 2 * f.binade) (ht : t = 0 ∨ f.binade ≤ k) :
    (Interval.of f (t * f.binade + k)).upper = (2 * k + 1) * 2 ^ t := by
  show f.units (t * f.binade + k) + f.units (t * f.binade + k + 1) = _
  rw [Nat.add_assoc, f.units_scaled (by omega) ht, f.units_scaled (by omega) (by omega)]
  ring

/-- The lower end is half a step below the magnitude, the least one of a binade apart. -/
theorem lower_scaled (hk : k + 1 < 2 * f.binade) (ht : t = 0 ∨ f.binade ≤ k) :
    (Interval.of f (t * f.binade + (k + 1))).lower = (2 * k + 1) * 2 ^ t := by
  show f.units (t * f.binade + (k + 1) - 1) + f.units (t * f.binade + (k + 1)) = _
  rw [← Nat.add_assoc, Nat.add_sub_cancel, f.units_scaled (by omega) ht, Nat.add_assoc,
    f.units_scaled (by omega) (by omega)]
  ring

/-- Below the least magnitude of a binade the steps are half as long. -/
theorem lower_binade (t : Nat) :
    (Interval.of f ((t + 1) * f.binade + f.binade)).lower = (4 * f.binade - 1) * 2 ^ t := by
  have hpos := f.binade_pos
  have hcode : (t + 1) * f.binade + f.binade - 1 = t * f.binade + (2 * f.binade - 1) := by
    rw [Nat.succ_mul]
    omega
  show f.units ((t + 1) * f.binade + f.binade - 1) + f.units ((t + 1) * f.binade + f.binade) = _
  rw [hcode, f.units_scaled (by omega) (by omega), f.units_scaled (by omega) (by omega),
    Nat.pow_succ, show f.binade * (2 ^ t * 2) = 2 * f.binade * 2 ^ t by ring, ← Nat.add_mul]
  congr 1
  omega

end Decimal.Interval

namespace Floating.Format

variable {f : Format} {num den : Nat}

/-- Inside a binade a quotient in the interval is rounded to the magnitude. -/
theorem roundedCode_inside (hf : 1 ≤ f.fractionBits) {t k : Nat} (hden : 0 < den)
    (hk : k + 1 < 2 * f.binade) (ht : t = 0 ∨ f.binade ≤ k)
    (h : (Interval.of f (t * f.binade + (k + 1))).contains (2 * num) den = true) :
    f.roundedCode num den = t * f.binade + (k + 1) := by
  have hpos : 0 < den * 2 ^ t := Nat.mul_pos hden (Nat.two_pow_pos t)
  obtain ⟨hlow, hhigh, htie⟩ := (Interval.contains_iff _ _ _).mp h
  rw [Interval.lower_scaled hk ht] at hlow htie
  rw [Interval.upper_scaled hk (by omega)] at hhigh htie
  have hstep : ∀ x, x * 2 ^ t * den = x * (den * 2 ^ t) := fun x => by ring
  rw [hstep] at hlow hhigh
  rw [hstep, hstep] at htie
  have heven : (Interval.of f (t * f.binade + (k + 1))).closed = true → (k + 1) % 2 = 0 := by
    intro hclosed
    have hcode : (t * f.binade + (k + 1)) % 2 = 0 := of_decide_eq_true hclosed
    rw [Nat.add_mod, Nat.mul_mod, f.binade_even hf, Nat.mul_zero, Nat.zero_mod, Nat.zero_add,
      Nat.mod_mod] at hcode
    exact hcode
  rw [f.roundedCode_scaled hden, nearestQuotient_eq hpos]
  · nlinarith
  · nlinarith
  · rcases htie with hclosed | ⟨hlt, hgt⟩
    · exact Or.inl (heven hclosed)
    · exact Or.inr ⟨by nlinarith, hgt⟩
  · rcases ht with rfl | hle
    · exact Or.inl rfl
    · right
      have hmul := Nat.mul_le_mul_right (den * 2 ^ t) hle
      rw [Nat.mul_right_comm, Nat.mul_assoc]
      nlinarith
  · have hmul := Nat.mul_le_mul_right (den * 2 ^ t) hk
    rw [hstep]
    nlinarith

/-- A quotient in the interval around the least magnitude of a binade is rounded to it, on the grid
of the binade below if it is less. -/
theorem roundedCode_least (hf : 1 ≤ f.fractionBits) {t : Nat} (hden : 0 < den)
    (h : (Interval.of f ((t + 1) * f.binade + f.binade)).contains (2 * num) den = true) :
    f.roundedCode num den = (t + 1) * f.binade + f.binade := by
  have hbinade := f.binade_pos
  have hpos : 0 < den * 2 ^ t := Nat.mul_pos hden (Nat.two_pow_pos t)
  have hpos' : 0 < den * 2 ^ (t + 1) := Nat.mul_pos hden (Nat.two_pow_pos (t + 1))
  have hdouble : den * 2 ^ (t + 1) = 2 * (den * 2 ^ t) := by ring
  obtain ⟨hlow, hhigh, -⟩ := (Interval.contains_iff _ _ _).mp h
  rw [Interval.lower_binade] at hlow
  rw [Interval.upper_scaled (by omega) (Or.inr (Nat.le_refl _))] at hhigh
  have hstep : ∀ x t, x * 2 ^ t * den = x * (den * 2 ^ t) := fun x t => by ring
  rw [hstep] at hlow hhigh
  have hlow' : (4 * f.binade) * (den * 2 ^ t) ≤ 2 * num + den * 2 ^ t := by
    obtain ⟨b, hb⟩ : ∃ b, 4 * f.binade = b + 1 := ⟨4 * f.binade - 1, by omega⟩
    rw [hb, Nat.add_sub_cancel] at hlow
    rw [hb]
    nlinarith
  rcases Nat.lt_or_ge num (f.binade * (den * 2 ^ (t + 1))) with hlt | hge
  · rw [f.roundedCode_scaled hden, nearestQuotient_eq (k := 2 * f.binade) hpos]
    · ring
    · nlinarith
    · rw [hdouble] at hlt
      nlinarith
    · exact Or.inl (Nat.mul_mod_right 2 f.binade)
    · right
      rw [hstep]
      nlinarith
    · rw [hstep]
      rw [hdouble] at hlt
      nlinarith
  · rw [f.roundedCode_scaled (t := t + 1) hden, nearestQuotient_eq (k := f.binade) hpos']
    · nlinarith
    · exact hhigh
    · exact Or.inl (f.binade_even hf)
    · right
      rw [hstep]
      exact hge
    · rw [hstep]
      nlinarith

/-- Whatever lies in the interval around a positive magnitude is rounded to it. -/
theorem roundedCode_of_contains (hf : 1 ≤ f.fractionBits) {code : Nat} (hden : 0 < den)
    (hcode : 0 < code) (h : (Interval.of f code).contains (2 * num) den = true) :
    f.roundedCode num den = code := by
  obtain ⟨t, k, rfl, hk, ht⟩ := f.exists_scaled code
  have hbinade := f.binade_pos
  cases k with
  | zero =>
    have ht : t = 0 := by omega
    subst ht
    omega
  | succ k =>
    by_cases hinside : t = 0 ∨ f.binade ≤ k
    · exact roundedCode_inside hf hden hk hinside h
    · have hk : k + 1 = f.binade := by omega
      rw [hk] at h ⊢
      cases t with
      | zero => exact absurd (Or.inl rfl) hinside
      | succ t => exact roundedCode_least hf hden h

end Floating.Format

end DocumentStore
