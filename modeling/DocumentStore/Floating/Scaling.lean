import DocumentStore.Floating.Basic

/-!
# Scaling by powers of ten

A decimal number is brought to double precision in steps: its digits are rounded to the nearest
magnitude, which is then multiplied with a power of ten or divided by one. The power is a magnitude
itself and every step rounds, so the result may be a neighbour of the magnitude that is nearest to
the decimal number.
-/

set_option autoImplicit false

namespace DocumentStore.Floating

namespace Format

variable (f : Format)

/-- The magnitude nearest to a whole number. -/
def wholeCode (n : Nat) : Fin (f.infinityCode + 1) := f.nearestCode (n * f.scale) 1

/-- The magnitude nearest to the product of two finite magnitudes. -/
def productCode (a b : Nat) : Fin (f.infinityCode + 1) :=
  f.nearestCode (f.units a * f.units b) f.scale

/-- The magnitude nearest to the quotient of two finite magnitudes. -/
def quotientCode (a b : Nat) : Fin (f.infinityCode + 1) :=
  f.nearestCode (f.units a * f.scale) (f.units b)

end Format

/-- The exponent of the greatest power of ten with a finite magnitude. -/
def greatestTen : Nat := 308

/-- The magnitude of a power of ten. -/
def tenCode (exponent : Nat) : Fin (Format.binary64.infinityCode + 1) :=
  Format.binary64.wholeCode (Nat.pow 10 exponent)

/-- A magnitude divided by the greatest power of ten the given number of times. Zero stays as it is,
however often it would be divided. -/
def reducedCode : Nat → Fin (Format.binary64.infinityCode + 1) →
    Fin (Format.binary64.infinityCode + 1)
  | 0, code => code
  | times + 1, code =>
    if code.val = 0 then code
    else reducedCode times (Format.binary64.quotientCode code.val (tenCode greatestTen).val)

/-- The magnitude of `digits * 10 ^ exponent`. An exponent beyond the greatest power of ten is too
great for all digits but zero; one below its opposite is reached by several divisions. -/
def scaledCode (digits : Nat) (exponent : Int) : Fin (Format.binary64.infinityCode + 1) :=
  let code := Format.binary64.wholeCode digits
  if exponent < 0 then
    let places := (-exponent).toNat
    let times := (places - 1) / greatestTen
    Format.binary64.quotientCode (reducedCode times code).val
      (tenCode (places - times * greatestTen)).val
  else if exponent ≤ greatestTen then
    Format.binary64.productCode code.val (tenCode exponent.toNat).val
  else if code.val = 0 then code
  else ⟨Format.binary64.infinityCode, Nat.lt_succ_self _⟩

/-- The number `digits * 10 ^ exponent` with the given sign. -/
def ofScaled (negative : Bool) (digits : Nat) (exponent : Int) : Binary64 :=
  signed negative (scaledCode digits exponent)

end DocumentStore.Floating
