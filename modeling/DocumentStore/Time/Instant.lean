import DocumentStore.Error
import DocumentStore.Text.Blank
import DocumentStore.Text.Pieces
import DocumentStore.Time.Calendar

/-!
# Instants and their texts

An instant is a whole number of nanoseconds since the beginning of 1970. It is given as a date of the
years -9999 to 9999 and a clock time at an offset from universal time, so in universal time it may lie
somewhat before or after these years, outside the calendar. Timestamps are stored as whole seconds,
rounded toward the past; only seconds of the calendar have a text.

A timestamp text is a date, or a date, a separator, a clock time and an optional offset from
universal time; the separator is `T` or a space, the offset `Z` or a sign with hours and perhaps
minutes. Blanks around the text do not count. A text may be well formed and still name an instant
after the end of the calendar, which is an outcome of its own.
-/

set_option autoImplicit false

namespace DocumentStore

namespace Time

/-- The first second of the calendar. -/
def firstSecond : Int := -377705116800

/-- The last second of the calendar. -/
def lastSecond : Int := 253402300799

/-- The second since the beginning of 1970 belongs to the calendar. -/
def InCalendar (second : Int) : Prop := firstSecond ≤ second ∧ second ≤ lastSecond

instance (second : Int) : Decidable (InCalendar second) :=
  inferInstanceAs (Decidable (_ ∧ _))

/-- The number of nanoseconds in a second. -/
def nanosPerSecond : Int := 1000000000

/-- The greatest offset from universal time: a second less than 26 hours. -/
def greatestOffset : Int := 93599

end Time

open Time

/-- A point in time, in nanoseconds since the beginning of 1970. At some offset it has a date of the
calendar. -/
structure Instant where
  nanos : Int
  first_le : (firstSecond - greatestOffset) * nanosPerSecond ≤ nanos
  lt_end : nanos < (lastSecond + greatestOffset + 1) * nanosPerSecond
  deriving DecidableEq

namespace Instant

/-- The second in which the instant lies. -/
def seconds (t : Instant) : Int64 := Int64.ofInt (t.nanos / nanosPerSecond)

/-- The nanoseconds since the beginning of that second. -/
def subsecondNanos (t : Instant) : Nat := (t.nanos % nanosPerSecond).toNat

/-- In universal time the instant belongs to the calendar. -/
def InCalendar (t : Instant) : Prop := Time.InCalendar (t.nanos / nanosPerSecond)

instance (t : Instant) : Decidable t.InCalendar :=
  inferInstanceAs (Decidable (Time.InCalendar _))

/-- The instant with the given nanoseconds, which have to lie in a second of the calendar. -/
def ofNanos? (nanos : Int) : Option Instant :=
  if h : Time.InCalendar (nanos / nanosPerSecond) then
    some
      { nanos := nanos
        first_le := by
          have hfirst := h.1
          unfold firstSecond nanosPerSecond at *
          unfold greatestOffset
          omega
        lt_end := by
          have hlast := h.2
          unfold lastSecond nanosPerSecond at *
          unfold greatestOffset
          omega }
  else none

/-- The beginning of a second of the calendar. -/
def ofSeconds (seconds : Int64) : Except Error Instant :=
  match ofNanos? (seconds.toInt * nanosPerSecond) with
  | some t => .ok t
  | none => .error (.validation (.timestampRange seconds))

end Instant

namespace Time

/-- A natural number with leading zeros up to the given width. -/
def padded (width n : Nat) : List Char :=
  let digits := Decimal.naturalText n
  List.replicate (width - digits.length) '0' ++ digits

/-- A year in four characters or more; the minus sign counts as one of them. -/
def yearText (year : Int) : List Char :=
  if year < 0 then '-' :: padded 3 year.natAbs else padded 4 year.natAbs

/-- A date as year, month and day. -/
def dateText (date : Date) : List Char :=
  yearText date.year ++ '-' :: padded 2 date.month ++ '-' :: padded 2 date.day

/-- A second of the day as hours, minutes and seconds. -/
def clockText (second : Nat) : List Char :=
  padded 2 (second / 3600) ++ ':' :: padded 2 (second / 60 % 60) ++ ':' :: padded 2 (second % 60)

/-- Date and clock time of a second since the beginning of 1970, with the given separator. -/
def secondText (separator : Char) (seconds : Int) : List Char :=
  dateText (Date.ofDayNumber (seconds / 86400)) ++
    separator :: clockText (seconds % 86400).toNat

/-- A second of the calendar in ISO 8601 form, without an offset. -/
def isoText (seconds : Int64) : Except Error String := do
  discard (Instant.ofSeconds seconds)
  return String.ofList (secondText 'T' seconds.toInt)

/-- A second of the calendar in the form that SQL puts between quotes. -/
def sqlText (seconds : Int64) : Except Error String := do
  discard (Instant.ofSeconds seconds)
  return String.ofList (secondText ' ' seconds.toInt)

/-- The value of a list of decimal digits with at least one member. -/
def digits? (s : List Char) : Option Nat :=
  if s.isEmpty || !s.all (fun c => '0' ≤ c && c ≤ '9') then none
  else some (s.foldl (fun n c => 10 * n + (c.toNat - '0'.toNat)) 0)

/-- The value of two decimal digits. -/
def twoDigits? (s : List Char) : Option Nat :=
  if s.length = 2 then digits? s else none

/-- A date of the calendar written with four, two and two digits. -/
def date? : List Char → Option Date
  | [y₁, y₂, y₃, y₄, '-', m₁, m₂, '-', d₁, d₂] => do
    let year ← digits? [y₁, y₂, y₃, y₄]
    let month ← digits? [m₁, m₂]
    let day ← digits? [d₁, d₂]
    let date : Date := ⟨year, month, day⟩
    if date.isValid then some date else none
  | _ => none

/-- The nanoseconds that one to nine digits after a point stand for. -/
def fraction? (s : List Char) : Option Nat :=
  if s.length ≤ 9 then (digits? s).map (· * Nat.pow 10 (9 - s.length)) else none

/-- Nanoseconds since midnight, the parts being within the range of a clock. -/
def clockNanos? (hour minute second nanos : Nat) : Option Nat :=
  if hour < 24 ∧ minute < 60 ∧ second < 60 then
    some (((hour * 60 + minute) * 60 + second) * 1000000000 + nanos)
  else none

/-- A clock time in nanoseconds since midnight: hours and minutes, and perhaps seconds, which may
have a fraction after a point or a comma. -/
def clock? (s : List Char) : Option Nat := do
  let isPoint (c : Char) := c = '.' || c = ','
  let main := s.takeWhile fun c => !isPoint c
  match Text.pieces ':' main, s.dropWhile fun c => !isPoint c with
  | [hour, minute], [] => clockNanos? (← twoDigits? hour) (← twoDigits? minute) 0 0
  | [hour, minute, second], [] =>
    clockNanos? (← twoDigits? hour) (← twoDigits? minute) (← twoDigits? second) 0
  | [hour, minute, second], _ :: fraction =>
    clockNanos? (← twoDigits? hour) (← twoDigits? minute) (← twoDigits? second)
      (← fraction? fraction)
  | _, _ => none

/-- The minutes of an offset of two or four digits, which colons may separate. An offset has at most
25 hours. -/
def offsetMinutes? (s : List Char) : Option Nat := do
  let digits := s.filter (· ≠ ':')
  let (hours, minutes) ←
    match digits.length with
    | 2 => do some (← digits? digits, 0)
    | 4 => do some (← digits? (digits.take 2), ← digits? (digits.drop 2))
    | _ => none
  if hours ≤ 25 ∧ minutes ≤ 59 then some (hours * 60 + minutes) else none

/-- Whether a character is a sign. -/
def isSign (c : Char) : Bool := c = '+' || c = '-'

/-- Separates a clock time from the offset after it, in minutes. Without an offset the time is
universal. -/
def clockAndOffset? (s : List Char) : Option (List Char × Int) :=
  match s.reverse with
  | 'Z' :: clock | 'z' :: clock => some (clock.reverse, 0)
  | reversed =>
    match reversed.dropWhile fun c => !isSign c with
    | [] => some (s, 0)
    | sign :: clock => do
      let minutes ← offsetMinutes? (reversed.takeWhile fun c => !isSign c).reverse
      some (clock.reverse, if sign = '-' then -(minutes : Int) else minutes)

/-- The nanoseconds since the beginning of 1970 that a trimmed timestamp text names. -/
def nanos? (s : List Char) : Option Int := do
  let date ← date? (s.take 10)
  let midnight := date.dayNumber * 86400 * nanosPerSecond
  match s.drop 10 with
  | [] => some midnight
  | separator :: rest =>
    if separator = 'T' ∨ separator = 't' ∨ separator = ' ' then
      let (clock, offset) ← clockAndOffset? rest
      some (midnight + (← clock? clock) - offset * 60 * nanosPerSecond)
    else none

/-- What a text says as a timestamp. -/
inductive Reading where
  | instant (t : Instant)
  /-- The text is no timestamp. -/
  | invalid
  /-- The text names an instant outside the calendar. -/
  | outside

/-- Reads a timestamp text. -/
def read (text : String) : Reading :=
  match nanos? (Text.trim text.toList) with
  | none => .invalid
  | some nanos =>
    match Instant.ofNanos? nanos with
    | some t => .instant t
    | none => .outside

end Time

/-- The instant that a text names, `invalid` being the error for a text that is no timestamp. -/
def Instant.ofText (text : String) (invalid : Error) : Except Error Instant :=
  match Time.read text with
  | .instant t => .ok t
  | .invalid => .error invalid
  | .outside => .error .beyondCalendar

/-- The instant that a text names. -/
def Instant.parse (text : String) : Except Error Instant :=
  Instant.ofText text (.validation (.timestamp text))

end DocumentStore
