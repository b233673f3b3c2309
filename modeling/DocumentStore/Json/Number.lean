import DocumentStore.Floating.Scaling
import DocumentStore.Json.Token

/-!
# Values of written numbers

A number written as a whole number stays one when it fits 64 bits. Every other number is brought to
double precision from a significand, which takes up digits from the first one on as long as it fits
64 bits, and a power of ten for the rest. Digits before the point that are left out count in the
exponent, digits after it do not count at all.
-/

set_option autoImplicit false

namespace DocumentStore.Json

/-- How many of the last digits of `n`, but at most `limit`, are left out for it to fit 64 bits. -/
def excessDigits : Nat → Nat → Nat
  | 0, _ => 0
  | limit + 1, n => if n < 18446744073709551616 then 0 else excessDigits limit (n / 10) + 1

/-- The digits before the point that are left out. -/
def NumberToken.wholeExcess (n : NumberToken) : Nat :=
  let whole := n.digits / Nat.pow 10 n.places
  excessDigits whole.log2 whole

/-- The digits before the point that are taken up, and all digits after it. -/
def NumberToken.taken (n : NumberToken) : Nat :=
  let scale := Nat.pow 10 n.places
  n.digits / scale / Nat.pow 10 n.wholeExcess * scale + n.digits % scale

/-- The digits after the point that are left out. -/
def NumberToken.placeExcess (n : NumberToken) : Nat := excessDigits n.places n.taken

/-- The digits that are taken up. -/
def NumberToken.significand (n : NumberToken) : Nat := n.taken / Nat.pow 10 n.placeExcess

/-- The power of ten that scales the digits that are taken up. -/
def NumberToken.significandExponent (n : NumberToken) : Int :=
  n.exponent + n.wholeExcess + n.placeExcess

/-- The value of a number token. A number written as a whole number stays one when it fits 64 bits,
except that negative zero is a floating-point number; a number too large for double precision is
no number. -/
def NumberToken.value (n : NumberToken) : Except Failure Number :=
  let whole : Int := if n.negative then -(n.digits : Int) else n.digits
  let float := Floating.ofScaled n.negative n.significand n.significandExponent
  if h : n.isWhole ∧ ¬ (n.negative ∧ n.digits = 0) ∧
      -9223372036854775808 ≤ whole ∧ whole < 18446744073709551616 then
    .ok (.integer whole h.2.2)
  else if h : float.isFinite = true then .ok (.float float h)
  else .error .malformed

end DocumentStore.Json
