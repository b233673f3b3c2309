/-!
# Binary floating-point numbers

A datum of a binary interchange format is either not a number or a signed magnitude. Magnitudes
are numbered upward from zero: code `0` is zero, each further code is the next larger magnitude,
and the last code is infinity. Every finite magnitude is a whole number of units, the unit being
the least positive magnitude of the format, so conversions and comparisons are exact arithmetic on
whole numbers. A quotient is rounded to the nearest magnitude, ties going to the even code.
-/

set_option autoImplicit false

namespace DocumentStore

namespace Floating

/-- The widths of the two magnitude fields of an interchange format. -/
structure Format where
  fractionBits : Nat
  exponentBits : Nat
  deriving DecidableEq

namespace Format

/-- Single precision. -/
def binary32 : Format := ⟨23, 8⟩

/-- Double precision. -/
def binary64 : Format := ⟨52, 11⟩

/-- The number of codes that share one exponent field. -/
def binade (f : Format) : Nat := Nat.pow 2 f.fractionBits

/-- The code of infinity: all exponent bits set and no fraction. -/
def infinityCode (f : Format) : Nat := (Nat.pow 2 f.exponentBits - 1) * f.binade

/-- The sign bit of the encoding, which stands above all codes. -/
def signBit (f : Format) : Nat := Nat.pow 2 (f.exponentBits + f.fractionBits)

/-- The number of units in one, as a power of two. -/
def scaleBits (f : Format) : Nat := Nat.pow 2 (f.exponentBits - 1) - 2 + f.fractionBits

/-- The number of units in one. -/
def scale (f : Format) : Nat := Nat.pow 2 f.scaleBits

/-- The magnitude with the given code, in units. Below the second binade the codes are the
magnitudes themselves; each further binade doubles the distance between neighbours. -/
def units (f : Format) (code : Nat) : Nat :=
  if code / f.binade = 0 then code
  else (f.binade + code % f.binade) * Nat.pow 2 (code / f.binade - 1)

end Format

/-- The quotient rounded to the nearest whole number, a half going to the even one. -/
def nearestQuotient (num den : Nat) : Nat :=
  let down := num / den
  let rest := num % den
  if 2 * rest < den then down
  else if den < 2 * rest then down + 1
  else down + down % 2

namespace Format

/-- The code nearest to `num / den` units, without regard to overflow. -/
def roundedCode (f : Format) (num den : Nat) : Nat :=
  let shift := (num / den).log2 - f.fractionBits
  shift * f.binade + nearestQuotient num (den * Nat.pow 2 shift)

/-- The code of the magnitude nearest to `num / den` units; what is too large is infinite. -/
def nearestCode (f : Format) (num den : Nat) : Fin (f.infinityCode + 1) :=
  ⟨min (f.roundedCode num den) f.infinityCode, by omega⟩

end Format

end Floating

open Floating (Format)

/-- A datum of a binary format: not a number, or a signed magnitude given by its code. -/
inductive Floating (f : Format) where
  | nan
  | signed (negative : Bool) (code : Fin (f.infinityCode + 1))
  deriving DecidableEq

/-- Single-precision data. -/
abbrev Binary32 := Floating Format.binary32

/-- Double-precision data. -/
abbrev Binary64 := Floating Format.binary64

namespace Floating

variable {f : Format}

/-- Positive zero. -/
def zero : Floating f := signed false ⟨0, by omega⟩

/-- The signed infinity. -/
def infinity (negative : Bool) : Floating f := signed negative ⟨f.infinityCode, by omega⟩

/-- The number nearest to `num / den` with the given sign. -/
def ofQuotient (negative : Bool) (num den : Nat) : Floating f :=
  signed negative (f.nearestCode (num * f.scale) den)

/-- The number nearest to an integer. -/
def ofInt (n : Int) : Floating f := ofQuotient (n < 0) n.natAbs 1

/-- The number nearest to `digits * 10 ^ exponent`. Exponents that lead past the greatest or below
the least magnitude, whatever the digits are, give infinity and zero at once. -/
def ofDecimal (negative : Bool) (digits : Nat) (exponent : Int) : Floating f :=
  if digits = 0 then signed negative ⟨0, by omega⟩
  else if 0 ≤ exponent then
    if Nat.pow 2 f.exponentBits ≤ 3 * exponent.toNat then infinity negative
    else ofQuotient negative (digits * Nat.pow 10 exponent.toNat) 1
  else if digits.log2 + 2 + f.scaleBits < 3 * (-exponent).toNat then
    signed negative ⟨0, by omega⟩
  else ofQuotient negative digits (Nat.pow 10 (-exponent).toNat)

/-- Whether the datum is a number other than the infinities. -/
def isFinite : Floating f → Bool
  | nan => false
  | signed _ code => code.val < f.infinityCode

/-- The number of units, negative below zero; infinity counts as the step after the greatest
finite magnitude. Data that are not numbers have no count. -/
def units? : Floating f → Option Int
  | nan => none
  | signed negative code =>
    some (if negative then -(f.units code.val : Int) else f.units code.val)

/-- The order of two numbers; no datum that is not a number has an order to any other. -/
def compare? (x y : Floating f) : Option Ordering :=
  match x.units?, y.units? with
  | some a, some b => some (compare a b)
  | _, _ => none

/-- Equality of numbers: the two zeros are equal, and a datum that is not a number equals nothing,
not even itself. -/
def numericEq (x y : Floating f) : Bool := x.compare? y = some .eq

/-- The nearest datum of another format: the same sign, the nearest magnitude. -/
def convert (g : Format) : Floating f → Floating g
  | nan => nan
  | signed negative code =>
    if code.val < f.infinityCode then
      signed negative (g.nearestCode (f.units code.val * g.scale) f.scale)
    else infinity negative

/-- The datum with the given interchange encoding: a sign bit above the magnitude code. -/
def ofBits (bits : Nat) : Floating f :=
  let signBit := f.signBit
  let code := bits % signBit
  if h : code ≤ f.infinityCode then
    signed (bits / signBit % 2 = 1) ⟨code, by omega⟩
  else nan

/-- The interchange encoding, of which data that are not numbers have none in particular. -/
def bits? : Floating f → Option Nat
  | nan => none
  | signed negative code =>
    some ((if negative then f.signBit else 0) + code.val)

end Floating

end DocumentStore
