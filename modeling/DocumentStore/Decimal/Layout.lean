import DocumentStore.Decimal.Shortest

/-!
# Decimal texts of floating-point numbers

A number is written with the digits of its shortest decimal. Where its decimal exponent lies
between two bounds it is written positionally and keeps at least one place after the point; outside
of them it has one digit before the point and an exponent. What differs between the formats of
this library is gathered in a `Layout`: JSON text and SQL text are two values of it.
-/

set_option autoImplicit false

namespace DocumentStore.Decimal

/-- The choices of a decimal text format. -/
structure Layout where
  /-- The least exponent of the leading digit that is still written positionally. -/
  leastPositional : Int
  /-- The least exponent above the positional ones. -/
  positionalEnd : Int
  /-- What stands before an exponent that is not negative. -/
  exponentPlus : List Char
  /-- Which of two equally near decimals is written. -/
  tie : Tie

/-- JSON numbers are positional from `1e-5` up to `1e+16`, exponents always have a sign, and ties
go to the even digit. -/
def Layout.json : Layout := ⟨-5, 16, ['+'], .even⟩

/-- SQL numbers are positional from `1e-4` up to `1e16`, positive exponents have no sign, and ties
go upward. -/
def Layout.sql : Layout := ⟨-4, 16, [], .up⟩

/-- The decimal digits of a natural number, most significant first. -/
def naturalText (n : Nat) : List Char := Nat.toDigits 10 n

/-- The decimal digits of an integer after a minus sign if it is negative. -/
def integerText (n : Int) : List Char :=
  if n < 0 then '-' :: naturalText n.natAbs else naturalText n.natAbs

/-- The text of a decimal with all places written out and at least one after the point. -/
def positionalText (s : Scientific) : List Char :=
  let digits := naturalText s.digits
  if 0 ≤ s.exponent then
    digits ++ List.replicate s.exponent.toNat '0' ++ ['.', '0']
  else
    let places := (-s.exponent).toNat
    if places < digits.length then
      digits.take (digits.length - places) ++ '.' :: digits.drop (digits.length - places)
    else
      ['0', '.'] ++ List.replicate (places - digits.length) '0' ++ digits

/-- The text of a decimal with one digit before the point and the given exponent of that digit. -/
def exponentText (layout : Layout) (s : Scientific) (leading : Int) : List Char :=
  let mantissa :=
    match naturalText s.digits with
    | [] => []
    | [digit] => [digit]
    | digit :: places => digit :: '.' :: places
  mantissa ++ 'e' :: ((if 0 ≤ leading then layout.exponentPlus else []) ++ integerText leading)

/-- The text of a decimal in the given format. -/
def Layout.scientificText (layout : Layout) (s : Scientific) : List Char :=
  let leading := s.exponent + (naturalText s.digits).length - 1
  if s.digits = 0 ∨ layout.leastPositional ≤ leading ∧ leading < layout.positionalEnd then
    positionalText s
  else exponentText layout s leading

/-- The text of a floating-point datum. Data that are not finite have fixed spellings, which occur
in messages only. -/
def Layout.text (layout : Layout) {f : Floating.Format} : Floating f → List Char
  | .nan => "NaN".toList
  | .signed negative code =>
    let sign := if negative then ['-'] else []
    if code.val < f.infinityCode then
      sign ++ layout.scientificText (shortest f layout.tie code.val)
    else sign ++ "inf".toList

end DocumentStore.Decimal
