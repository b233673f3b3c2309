/-!
# The civil calendar

Dates of the Gregorian calendar, carried back before its introduction and through a year zero.
Days are numbered from the first of January 1970. The year of a day is estimated from the mean
length of a year; the estimate is never off by more than one.
-/

set_option autoImplicit false

namespace DocumentStore.Time

/-- A date given by year, month and day of the month. -/
structure Date where
  year : Int
  month : Nat
  day : Nat
  deriving DecidableEq

/-- Whether a year has a 29th of February. -/
def isLeap (year : Int) : Bool :=
  year % 4 = 0 && (year % 100 ≠ 0 || year % 400 = 0)

/-- The lengths of the months of a year. -/
def monthLengths (year : Int) : List Nat :=
  [31, if isLeap year then 29 else 28, 31, 30, 31, 30, 31, 31, 30, 31, 30, 31]

/-- The number of days in months of the given lengths. -/
def totalLength : List Nat → Nat
  | [] => 0
  | length :: rest => length + totalLength rest

/-- The number of days from the beginning of year zero to the beginning of a year. -/
def daysBeforeYear (year : Int) : Int :=
  365 * year + (year + 3) / 4 - (year + 99) / 100 + (year + 399) / 400

/-- The number of days from the beginning of year zero to the beginning of 1970. -/
def daysBeforeEpoch : Int := daysBeforeYear 1970

namespace Date

/-- Whether the date is one of the calendar. -/
def isValid (date : Date) : Bool :=
  match date.month with
  | 0 => false
  | m + 1 =>
    match (monthLengths date.year)[m]? with
    | none => false
    | some length => 1 ≤ date.day && date.day ≤ length

/-- The number of a date, the first of January 1970 being day zero. -/
def dayNumber (date : Date) : Int :=
  daysBeforeYear date.year + totalLength ((monthLengths date.year).take (date.month - 1)) +
    date.day - 1 - daysBeforeEpoch

/-- The month and day of the month that lie `rest` days after the beginning of `month`, whose
length and those of the following months are given. -/
def ofMonths (month : Nat) : List Nat → Nat → Nat × Nat
  | [], rest => (month, rest + 1)
  | length :: lengths, rest =>
    if rest < length then (month, rest + 1) else ofMonths (month + 1) lengths (rest - length)

/-- The year in which the day `days` after the beginning of year zero lies. -/
def yearOf (days : Int) : Int :=
  let estimate := days * 400 / 146097
  if daysBeforeYear (estimate + 1) ≤ days then estimate + 1
  else if daysBeforeYear estimate ≤ days then estimate
  else estimate - 1

/-- The date with the given number. -/
def ofDayNumber (number : Int) : Date :=
  let days := number + daysBeforeEpoch
  let year := yearOf days
  let position := ofMonths 1 (monthLengths year) (days - daysBeforeYear year).toNat
  ⟨year, position.1, position.2⟩

end Date

/-- A leap year is one day longer than any other. -/
theorem daysBeforeYear_succ (year : Int) :
    daysBeforeYear (year + 1) = daysBeforeYear year + totalLength (monthLengths year) := by
  simp only [daysBeforeYear, monthLengths, isLeap, totalLength, Bool.and_eq_true, Bool.or_eq_true,
    decide_eq_true_eq]
  split <;> omega

end DocumentStore.Time
