import DocumentStore.Floating.Basic

/-!
# Shortest decimals

The reals that round to a positive finite magnitude form an interval around it, which contains its
two ends exactly when the code is even. Among the decimals `digits * 10 ^ exponent` of that
interval the ones with the greatest exponent are the shortest, and of these the nearest to the
magnitude is taken. If any point of a decimal grid lies in the interval, so does one of the two
grid neighbours of the magnitude, so only these are tried, grid by grid from coarse to fine.
-/

set_option autoImplicit false

namespace DocumentStore.Decimal

open Floating (Format)

/-- Which of two equally near decimals is taken. -/
inductive Tie where
  /-- The one whose last digit is even. -/
  | even
  /-- The greater one. -/
  | up
  deriving DecidableEq

/-- A decimal number `digits * 10 ^ exponent`. -/
structure Scientific where
  digits : Nat
  exponent : Int
  deriving DecidableEq

/-- The reals that round to a magnitude, in halves of a unit. -/
structure Interval where
  lower : Nat
  upper : Nat
  /-- Whether the two ends belong to the interval. -/
  closed : Bool

/-- The interval of the reals that round to the magnitude `code`. -/
def Interval.of (f : Format) (code : Nat) : Interval where
  lower := f.units (code - 1) + f.units code
  upper := f.units code + f.units (code + 1)
  closed := code % 2 = 0

/-- Whether the rational `num / den`, in halves of a unit, lies in the interval. -/
def Interval.contains (i : Interval) (num den : Nat) : Bool :=
  if i.closed then i.lower * den ≤ num && num ≤ i.upper * den
  else i.lower * den < num && num < i.upper * den

/-- Of the two multiples of `10 ^ exponent` around the magnitude, the one that lies in the
interval; of two, the nearer one. -/
def onGrid (f : Format) (tie : Tie) (code : Nat) (exponent : Int) : Option Nat :=
  let interval := Interval.of f code
  let den := Nat.pow 10 (-exponent).toNat
  let step := 2 * f.scale * Nat.pow 10 exponent.toNat
  let twice := 2 * f.units code * den
  let down := twice / step
  let fits (digits : Nat) := 0 < digits && interval.contains (digits * step) den
  match fits down, fits (down + 1) with
  | true, true =>
    let rest := 2 * (twice % step)
    if rest < step then some down
    else if step < rest then some (down + 1)
    else
      match tie with
      | .even => some (down + down % 2)
      | .up => some (down + 1)
  | true, false => some down
  | false, true => some (down + 1)
  | false, false => none

/-- An exponent above which no decimal lies in the interval: `10 ^ n` is at least `8 ^ n`, and
`10 ^ (3 * n)` is at most `2 ^ (10 * n)`. -/
def coarsest (f : Format) (code : Nat) : Int :=
  let bits : Int := ((f.units code).log2 : Int) + 1 - f.scaleBits
  if 0 ≤ bits then bits / 3 + 1 else 1 - (-bits) * 3 / 10

/-- The shortest decimal that rounds to the finite magnitude `code`. Every magnitude is a multiple
of the unit, whose decimal expansion ends, so the grids do not run out. -/
def shortest (f : Format) (tie : Tie) (code : Nat) : Scientific :=
  if code = 0 then ⟨0, 0⟩
  else
    let first := coarsest f code
    let grids := List.range (first + f.scaleBits + 1).toNat
    let found := grids.findSome? fun (i : Nat) =>
      (onGrid f tie code (first - i)).map fun digits => Scientific.mk digits (first - i)
    found.getD ⟨f.units code * Nat.pow 5 f.scaleBits, -f.scaleBits⟩

end DocumentStore.Decimal
