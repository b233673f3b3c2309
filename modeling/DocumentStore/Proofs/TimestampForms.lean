import DocumentStore.Proofs.Calendar
import Mathlib.Data.List.TakeWhile

/-!
# The forms of timestamp texts

A timestamp is written as a date, or as a date, a clock time and perhaps an offset, each of its
numbers with a fixed count of digits. The clock time may leave out the seconds, and may go on after
them with up to nine digits of a fraction; the offset may be given in hours only, and with or without
a colon before its minutes. The relations say what each form stands for, and every form is read as
that: from the right, the first sign begins the offset, as the clock time has none.
-/

set_option autoImplicit false

namespace DocumentStore.Time

/-! ## Forms -/

/-- A clock time as it is written, and the nanoseconds from midnight to it. -/
inductive ClockForm : List Char → Nat → Prop
  | minutes {hour minute : Nat} (hhour : hour < 24) (hminute : minute < 60) :
    ClockForm (padded 2 hour ++ ':' :: padded 2 minute) ((hour * 60 + minute) * 60 * 1000000000)
  | seconds {hour minute second : Nat} (hhour : hour < 24) (hminute : minute < 60)
      (hsecond : second < 60) :
    ClockForm (padded 2 hour ++ ':' :: padded 2 minute ++ ':' :: padded 2 second)
      (((hour * 60 + minute) * 60 + second) * 1000000000)
  | fraction {hour minute second count fraction : Nat} {mark : Char} (hhour : hour < 24)
      (hminute : minute < 60) (hsecond : second < 60) (hmark : mark = '.' ∨ mark = ',')
      (hcount : 1 ≤ count ∧ count ≤ 9) (hfraction : fraction < 10 ^ count) :
    ClockForm (padded 2 hour ++ ':' :: padded 2 minute ++ ':' :: padded 2 second ++
        mark :: padded count fraction)
      (((hour * 60 + minute) * 60 + second) * 1000000000 + fraction * 10 ^ (9 - count))

/-- So many minutes ahead of universal time, or behind it after a minus sign. -/
def signed (sign : Char) (minutes : Nat) : Int := if sign = '-' then -(minutes : Int) else minutes

/-- An offset as it is written, and the minutes by which the clock is ahead of universal time. -/
inductive OffsetForm : List Char → Int → Prop
  | none : OffsetForm [] 0
  | universal {mark : Char} (hmark : mark = 'Z' ∨ mark = 'z') : OffsetForm [mark] 0
  | hours {sign : Char} {hours : Nat} (hsign : isSign sign = true) (hhours : hours ≤ 25) :
    OffsetForm (sign :: padded 2 hours) (signed sign (hours * 60))
  | minutes {sign : Char} {hours minutes : Nat} {colon : List Char} (hsign : isSign sign = true)
      (hhours : hours ≤ 25) (hcolon : colon = [] ∨ colon = [':']) (hminutes : minutes ≤ 59) :
    OffsetForm (sign :: (padded 2 hours ++ colon ++ padded 2 minutes))
      (signed sign (hours * 60 + minutes))

/-- A timestamp as it is written: the date, the nanoseconds from midnight to the clock time, and the
minutes by which the clock is ahead of universal time. A date by itself is its midnight. -/
inductive TimestampForm : List Char → Date → Nat → Int → Prop
  | date {date : Date} (hyear : 0 ≤ date.year ∧ date.year ≤ 9999) (hvalid : date.isValid = true) :
    TimestampForm (dateText date) date 0 0
  | moment {date : Date} {separator : Char} {clock offset : List Char} {nanos : Nat} {minutes : Int}
      (hyear : 0 ≤ date.year ∧ date.year ≤ 9999) (hvalid : date.isValid = true)
      (hseparator : separator = 'T' ∨ separator = 't' ∨ separator = ' ')
      (hclock : ClockForm clock nanos) (hoffset : OffsetForm offset minutes) :
    TimestampForm (dateText date ++ separator :: (clock ++ offset)) date nanos minutes

/-- The nanoseconds since the beginning of 1970 at a clock time of a day, where the clock is ahead of
universal time by an offset in minutes. -/
def nanosAt (date : Date) (clock : Nat) (offset : Int) : Int :=
  date.dayNumber * 86400 * nanosPerSecond + clock - offset * 60 * nanosPerSecond

/-! ## Digits -/

/-- A number that fits a width is padded to it. -/
theorem length_padded {width n : Nat} (hwidth : 0 < width) (h : n < 10 ^ width) :
    (padded width n).length = width := by
  have hlength : (Decimal.naturalText n).length ≤ width :=
    (Nat.length_toDigits_le_iff (by decide) hwidth).mpr h
  simp only [padded, List.length_append, List.length_replicate]
  omega

/-- A padded number has a digit. -/
theorem padded_ne_nil (width n : Nat) : padded width n ≠ [] := by
  intro h
  exact Nat.toDigits_ne_nil (List.append_eq_nil_iff.mp h).2

/-- A number with leading zeros is read as that number. -/
theorem digits?_padded (width n : Nat) : digits? (padded width n) = some n := by
  have hdigits : (padded width n).all (fun c => '0' ≤ c && c ≤ '9') = true := by
    rw [List.all_eq_true]
    intro c hc
    have hdigit := isDigit_of_mem_padded c hc
    unfold Char.isDigit at hdigit
    rw [Bool.and_eq_true, decide_eq_true_eq, decide_eq_true_eq] at hdigit ⊢
    exact hdigit
  have hvalue := ofDigitChars_padded width n
  rw [Nat.ofDigitChars_eq_foldl] at hvalue
  unfold digits?
  rw [hdigits, hvalue]
  simp [padded_ne_nil]

/-- Two digits are read back. -/
theorem twoDigits?_padded {n : Nat} (h : n < 100) : twoDigits? (padded 2 n) = some n := by
  unfold twoDigits?
  rw [if_pos (length_padded (by decide) h), digits?_padded]

/-- The digits of a fraction are read as nanoseconds. -/
theorem fraction?_padded {count n : Nat} (hcount : 1 ≤ count ∧ count ≤ 9) (h : n < 10 ^ count) :
    fraction? (padded count n) = some (n * 10 ^ (9 - count)) := by
  have hlength : (padded count n).length = count := length_padded hcount.1 h
  unfold fraction?
  rw [hlength, if_pos hcount.2, digits?_padded]
  rfl

/-- A number with leading zeros has only digits, so nothing that separates numbers. -/
theorem not_mem_padded {c : Char} (hc : c.isDigit = false) (width n : Nat) : c ∉ padded width n := by
  intro h
  rw [isDigit_of_mem_padded c h] at hc
  cases hc

/-! ## Dates -/

namespace Date

/-- A year has twelve months. -/
theorem length_monthLengths (year : Int) : (monthLengths year).length = 12 := rfl

/-- No month has more than 31 days. -/
theorem le_of_mem_monthLengths {year : Int} {length : Nat} (h : length ∈ monthLengths year) :
    length ≤ 31 := by
  unfold monthLengths at h
  simp only [List.mem_cons, List.not_mem_nil, or_false] at h
  split at h <;> omega

/-- The month and the day of a date of the calendar have two digits. -/
theorem lt_of_isValid {date : Date} (h : date.isValid = true) : date.month < 100 ∧ date.day < 100 := by
  unfold isValid at h
  split at h
  · cases h
  · next m hm =>
    split at h
    · cases h
    · next length hlength =>
      rw [Bool.and_eq_true, decide_eq_true_eq, decide_eq_true_eq] at h
      have hmonth := (List.getElem?_eq_some_iff.mp hlength).1
      have hday := le_of_mem_monthLengths (List.mem_of_getElem? hlength)
      rw [length_monthLengths] at hmonth
      omega

end Date

/-- A date of a year of four digits is written with ten characters. -/
theorem length_dateText {date : Date} (hyear : 0 ≤ date.year ∧ date.year ≤ 9999)
    (hvalid : date.isValid = true) : (dateText date).length = 10 := by
  obtain ⟨hmonth, hday⟩ := Date.lt_of_isValid hvalid
  have hyears : (padded 4 date.year.natAbs).length = 4 := length_padded (by decide) (by omega)
  have hmonths : (padded 2 date.month).length = 2 := length_padded (by decide) hmonth
  have hdays : (padded 2 date.day).length = 2 := length_padded (by decide) hday
  unfold dateText yearText
  rw [if_neg (by omega)]
  simp [hyears, hmonths, hdays]

/-- A date of the calendar with a year of four digits is read from its text. -/
theorem date?_dateText {date : Date} (hyear : 0 ≤ date.year ∧ date.year ≤ 9999)
    (hvalid : date.isValid = true) : date? (dateText date) = some date := by
  obtain ⟨hmonth, hday⟩ := Date.lt_of_isValid hvalid
  obtain ⟨y₁, y₂, y₃, y₄, hyears⟩ : ∃ y₁ y₂ y₃ y₄, padded 4 date.year.natAbs = [y₁, y₂, y₃, y₄] :=
    List.length_eq_four.mp (length_padded (by decide) (by omega))
  obtain ⟨m₁, m₂, hmonths⟩ : ∃ m₁ m₂, padded 2 date.month = [m₁, m₂] :=
    List.length_eq_two.mp (length_padded (by decide) hmonth)
  obtain ⟨d₁, d₂, hdays⟩ : ∃ d₁ d₂, padded 2 date.day = [d₁, d₂] :=
    List.length_eq_two.mp (length_padded (by decide) hday)
  have hread : digits? [y₁, y₂, y₃, y₄] = some date.year.natAbs := hyears ▸ digits?_padded _ _
  have hreadMonth : digits? [m₁, m₂] = some date.month := hmonths ▸ digits?_padded _ _
  have hreadDay : digits? [d₁, d₂] = some date.day := hdays ▸ digits?_padded _ _
  have habs : (date.year.natAbs : Int) = date.year := by omega
  unfold dateText yearText
  rw [if_neg (by omega), hyears, hmonths, hdays]
  simp [date?, hread, hreadMonth, hreadDay, habs, hvalid]

/-! ## Clock times -/

/-- The characters of clock times: digits, colons and the mark of a fraction. -/
def InClock (c : Char) : Prop := c.isDigit = true ∨ c = ':' ∨ c = '.' ∨ c = ','

/-- Digits stand in clock times. -/
theorem inClock_of_mem_padded {width n : Nat} {c : Char} (h : c ∈ padded width n) : InClock c :=
  Or.inl (isDigit_of_mem_padded c h)

/-- Neither a sign nor the mark of universal time is part of a clock time. -/
theorem InClock.plain {c : Char} (h : InClock c) : (!isSign c) = true ∧ c ≠ 'Z' ∧ c ≠ 'z' := by
  rcases h with hdigit | rfl | rfl | rfl
  · have hne : c ≠ '+' ∧ c ≠ '-' ∧ c ≠ 'Z' ∧ c ≠ 'z' := by
      refine ⟨?_, ?_, ?_, ?_⟩ <;> rintro rfl <;> cases hdigit
    simp [isSign, hne]
  all_goals decide

/-- Hours and minutes are written in digits and a colon. -/
theorem mem_hourMinute {hour minute : Nat} {c : Char}
    (h : c ∈ padded 2 hour ++ ':' :: padded 2 minute) : c.isDigit = true ∨ c = ':' := by
  rcases List.mem_append.mp h with h | h
  · exact Or.inl (isDigit_of_mem_padded c h)
  · rcases List.mem_cons.mp h with rfl | h
    · exact Or.inr rfl
    · exact Or.inl (isDigit_of_mem_padded c h)

/-- Hours, minutes and seconds are written in digits and colons. -/
theorem mem_hourMinuteSecond {hour minute second : Nat} {c : Char}
    (h : c ∈ padded 2 hour ++ ':' :: padded 2 minute ++ ':' :: padded 2 second) :
    c.isDigit = true ∨ c = ':' := by
  rcases List.mem_append.mp h with h | h
  · exact mem_hourMinute h
  · rcases List.mem_cons.mp h with rfl | h
    · exact Or.inr rfl
    · exact Or.inl (isDigit_of_mem_padded c h)

/-- A clock time is written in characters of clock times. -/
theorem ClockForm.inClock_of_mem {s : List Char} {n : Nat} (h : ClockForm s n) {c : Char}
    (hc : c ∈ s) : InClock c := by
  have hcolon : c.isDigit = true ∨ c = ':' → InClock c := by
    rintro (hdigit | hcolon)
    · exact Or.inl hdigit
    · exact Or.inr (Or.inl hcolon)
  cases h with
  | minutes => exact hcolon (mem_hourMinute hc)
  | seconds => exact hcolon (mem_hourMinuteSecond hc)
  | fraction _ _ _ hmark =>
    rcases List.mem_append.mp hc with hc | hc
    · exact hcolon (mem_hourMinuteSecond hc)
    · rcases List.mem_cons.mp hc with rfl | hc
      · exact Or.inr (Or.inr hmark)
      · exact inClock_of_mem_padded hc

/-- A text of digits and colons ends where the mark of a fraction stands. -/
theorem split_at_point {main tail : List Char} (hmain : ∀ c ∈ main, c.isDigit = true ∨ c = ':')
    (htail : ∀ mark rest, tail = mark :: rest → mark = '.' ∨ mark = ',') :
    (main ++ tail).takeWhile (fun c => !(decide (c = '.') || decide (c = ','))) = main ∧
      (main ++ tail).dropWhile (fun c => !(decide (c = '.') || decide (c = ','))) = tail := by
  have hplain : ∀ c ∈ main, (!(decide (c = '.') || decide (c = ','))) = true := by
    intro c hc
    rcases hmain c hc with hdigit | rfl
    · have hne : c ≠ '.' ∧ c ≠ ',' := by
        constructor <;> rintro rfl <;> cases hdigit
      simp [hne]
    · decide
  rw [List.takeWhile_append_of_pos hplain, List.dropWhile_append_of_pos hplain]
  cases tail with
  | nil => exact ⟨List.append_nil _, rfl⟩
  | cons mark rest => rcases htail mark rest rfl with rfl | rfl <;> simp

/-- Hours and minutes are the two pieces between colons. -/
theorem pieces_hourMinute (hour minute : Nat) :
    Text.pieces ':' (padded 2 hour ++ ':' :: padded 2 minute) = [padded 2 hour, padded 2 minute] := by
  rw [Text.pieces_append (not_mem_padded rfl _ _), Text.pieces_of_not_mem (not_mem_padded rfl _ _)]

/-- Hours, minutes and seconds are the three pieces between colons. -/
theorem pieces_hourMinuteSecond (hour minute second : Nat) :
    Text.pieces ':' (padded 2 hour ++ ':' :: padded 2 minute ++ ':' :: padded 2 second) =
      [padded 2 hour, padded 2 minute, padded 2 second] := by
  rw [List.append_assoc, List.cons_append, Text.pieces_append (not_mem_padded rfl _ _),
    pieces_hourMinute]

/-- A clock time is read as what it stands for. -/
theorem ClockForm.clock?_eq {s : List Char} {n : Nat} (h : ClockForm s n) : clock? s = some n := by
  have hnil : ∀ mark rest, ([] : List Char) = mark :: rest → mark = '.' ∨ mark = ',' := nofun
  cases h with
  | minutes =>
    obtain ⟨htake, hdrop⟩ := split_at_point (fun c hc => mem_hourMinute hc) hnil
    rw [List.append_nil] at htake hdrop
    unfold clock?
    dsimp only
    rw [htake, hdrop, pieces_hourMinute]
    dsimp only
    rw [twoDigits?_padded (by omega), twoDigits?_padded (by omega)]
    simp only [Option.bind_eq_bind, Option.bind_some, clockNanos?]
    rw [if_pos (by omega), Option.some.injEq]
    omega
  | seconds =>
    obtain ⟨htake, hdrop⟩ := split_at_point (fun c hc => mem_hourMinuteSecond hc) hnil
    rw [List.append_nil] at htake hdrop
    unfold clock?
    dsimp only
    rw [htake, hdrop, pieces_hourMinuteSecond]
    dsimp only
    rw [twoDigits?_padded (by omega), twoDigits?_padded (by omega), twoDigits?_padded (by omega)]
    simp only [Option.bind_eq_bind, Option.bind_some, clockNanos?]
    rw [if_pos (by omega), Option.some.injEq]
    omega
  | @fraction _ _ _ count fraction mark _ _ _ hmark hcount hfraction =>
    have htail : ∀ mark' rest, mark :: padded count fraction = mark' :: rest →
        mark' = '.' ∨ mark' = ',' := by
      rintro _ _ ⟨⟩
      exact hmark
    obtain ⟨htake, hdrop⟩ := split_at_point (fun c hc => mem_hourMinuteSecond hc) htail
    unfold clock?
    dsimp only
    rw [htake, hdrop, pieces_hourMinuteSecond]
    dsimp only
    rw [twoDigits?_padded (by omega), twoDigits?_padded (by omega), twoDigits?_padded (by omega),
      fraction?_padded hcount hfraction]
    simp only [Option.bind_eq_bind, Option.bind_some, clockNanos?]
    rw [if_pos (by omega)]

/-! ## Offsets -/

/-- There is no colon in a padded number to be dropped. -/
theorem filter_colon_padded (width n : Nat) :
    (padded width n).filter (fun c => c ≠ ':') = padded width n := by
  refine List.filter_eq_self.mpr fun c hc => ?_
  simp only [decide_eq_true_eq, ne_eq]
  rintro rfl
  exact not_mem_padded rfl _ _ hc

/-- An offset of whole hours is read back. -/
theorem offsetMinutes?_hours {hours : Nat} (h : hours ≤ 25) :
    offsetMinutes? (padded 2 hours) = some (hours * 60) := by
  have hlength : (padded 2 hours).length = 2 := length_padded (by decide) (by omega)
  unfold offsetMinutes?
  dsimp only
  rw [filter_colon_padded, hlength, digits?_padded]
  simp [h]

/-- An offset of hours and minutes is read back, with a colon or without. -/
theorem offsetMinutes?_minutes {hours minutes : Nat} {colon : List Char} (hhours : hours ≤ 25)
    (hcolon : colon = [] ∨ colon = [':']) (hminutes : minutes ≤ 59) :
    offsetMinutes? (padded 2 hours ++ colon ++ padded 2 minutes) = some (hours * 60 + minutes) := by
  have hlength : (padded 2 hours).length = 2 := length_padded (by decide) (by omega)
  have hlength' : (padded 2 minutes).length = 2 := length_padded (by decide) (by omega)
  have hdigits : (padded 2 hours ++ colon ++ padded 2 minutes).filter (fun c => c ≠ ':') =
      padded 2 hours ++ padded 2 minutes := by
    rw [List.filter_append, List.filter_append, filter_colon_padded, filter_colon_padded]
    rcases hcolon with rfl | rfl <;> simp
  unfold offsetMinutes?
  dsimp only
  rw [hdigits, List.length_append, hlength, hlength', List.take_left' hlength,
    List.drop_left' hlength, digits?_padded, digits?_padded]
  simp [hhours, hminutes]

/-- An offset is written in digits and a colon. -/
theorem mem_offsetDigits {hours minutes : Nat} {colon : List Char}
    (hcolon : colon = [] ∨ colon = [':']) {c : Char}
    (h : c ∈ padded 2 hours ++ colon ++ padded 2 minutes) : c.isDigit = true ∨ c = ':' := by
  rcases List.mem_append.mp h with h | h
  · rcases List.mem_append.mp h with h | h
    · exact Or.inl (isDigit_of_mem_padded c h)
    · rcases hcolon with rfl | rfl
      · cases h
      · exact Or.inr (List.mem_singleton.mp h)
  · exact Or.inl (isDigit_of_mem_padded c h)

/-- A clock time by itself has no offset. -/
theorem clockAndOffset?_self {s : List Char} (h : ∀ c ∈ s, InClock c) :
    clockAndOffset? s = some (s, 0) := by
  have hplain : ∀ c ∈ s.reverse, (!isSign c) = true ∧ c ≠ 'Z' ∧ c ≠ 'z' :=
    fun c hc => (h c (List.mem_reverse.mp hc)).plain
  unfold clockAndOffset?
  split
  · next clock hend => exact absurd rfl (hplain 'Z' (hend ▸ List.mem_cons_self ..)).2.1
  · next clock hend => exact absurd rfl (hplain 'z' (hend ▸ List.mem_cons_self ..)).2.2
  · rw [List.dropWhile_eq_nil_iff.mpr fun c hc => (hplain c hc).1]

/-- What stands before the last sign is the clock time, and what stands after it is the offset. -/
theorem clockAndOffset?_signed {clock digits : List Char} {sign : Char} {minutes : Nat}
    (hsign : isSign sign = true) (hdigits : ∀ c ∈ digits, InClock c)
    (hminutes : offsetMinutes? digits = some minutes) :
    clockAndOffset? (clock ++ sign :: digits) = some (clock, signed sign minutes) := by
  have hplain : ∀ c ∈ digits.reverse, (!isSign c) = true ∧ c ≠ 'Z' ∧ c ≠ 'z' :=
    fun c hc => (hdigits c (List.mem_reverse.mp hc)).plain
  have hreverse : (clock ++ sign :: digits).reverse = digits.reverse ++ sign :: clock.reverse := by
    simp
  have hfirst : ∀ c rest, digits.reverse ++ sign :: clock.reverse = c :: rest →
      c ≠ 'Z' ∧ c ≠ 'z' := by
    intro c rest hc
    rcases List.append_eq_cons_iff.mp hc with ⟨-, hc⟩ | ⟨tail, hc, -⟩
    · cases hc
      constructor <;> rintro rfl <;> cases hsign
    · exact (hplain c (hc ▸ List.mem_cons_self ..)).2
  unfold clockAndOffset?
  rw [hreverse]
  split
  · next h => exact absurd rfl (hfirst _ _ h).1
  · next h => exact absurd rfl (hfirst _ _ h).2
  · have hmark : ¬ (!isSign sign) = true := by simp [hsign]
    rw [List.dropWhile_append_of_pos fun c hc => (hplain c hc).1,
      List.dropWhile_cons_of_neg (p := fun c => !isSign c) hmark,
      List.takeWhile_append_of_pos fun c hc => (hplain c hc).1,
      List.takeWhile_cons_of_neg (p := fun c => !isSign c) hmark]
    dsimp only
    rw [List.append_nil, List.reverse_reverse, List.reverse_reverse, hminutes]
    rfl

/-- A clock time and an offset are read as what they stand for. -/
theorem clockAndOffset?_eq {clock offset : List Char} {nanos : Nat} {minutes : Int}
    (hclock : ClockForm clock nanos) (hoffset : OffsetForm offset minutes) :
    clockAndOffset? (clock ++ offset) = some (clock, minutes) := by
  cases hoffset with
  | none =>
    rw [List.append_nil]
    exact clockAndOffset?_self fun c hc => hclock.inClock_of_mem hc
  | universal hmark =>
    unfold clockAndOffset?
    rw [List.reverse_append, List.reverse_singleton, List.singleton_append]
    rcases hmark with rfl | rfl <;> simp
  | hours hsign hhours =>
    exact clockAndOffset?_signed hsign (fun c hc => inClock_of_mem_padded hc)
      (offsetMinutes?_hours hhours)
  | minutes hsign hhours hcolon hminutes =>
    exact clockAndOffset?_signed hsign (fun c hc => (mem_offsetDigits hcolon hc).imp_right Or.inl)
      (offsetMinutes?_minutes hhours hcolon hminutes)

/-! ## Timestamps -/

/-- A timestamp is read as the nanoseconds of its parts. -/
theorem TimestampForm.nanos?_eq {s : List Char} {date : Date} {clock : Nat} {offset : Int}
    (h : TimestampForm s date clock offset) : nanos? s = some (nanosAt date clock offset) := by
  cases h with
  | date hyear hvalid =>
    have hlength := length_dateText hyear hvalid
    unfold nanos?
    rw [List.take_of_length_le hlength.le, List.drop_of_length_le hlength.le,
      date?_dateText hyear hvalid]
    simp [nanosAt]
  | moment hyear hvalid hseparator hclock hoffset =>
    have hlength := length_dateText hyear hvalid
    unfold nanos?
    rw [List.take_left' hlength, List.drop_left' hlength, date?_dateText hyear hvalid]
    simp only [Option.bind_eq_bind, Option.bind_some]
    rw [if_pos hseparator, clockAndOffset?_eq hclock hoffset]
    simp only [Option.bind_some]
    rw [hclock.clock?_eq]
    rfl

/-! ## Blanks around timestamps -/

/-- No digit is blank. -/
theorem isBlank_of_isDigit {c : Char} (h : c.isDigit = true) : Text.isBlank c = false := by
  unfold Char.isDigit at h
  rw [Bool.and_eq_true, decide_eq_true_eq, decide_eq_true_eq] at h
  have hlow : 48 ≤ c.toNat := h.1
  have hhigh : c.toNat ≤ 57 := h.2
  simp [Text.isBlank, Text.blankRanges]
  omega

/-- The text has a last character, which is not blank. -/
def EndsVisibly (s : List Char) : Prop := ∃ front last, s = front ++ [last] ∧ Text.isBlank last = false

/-- A text ends visibly if what comes last does. -/
theorem EndsVisibly.append {s : List Char} (h : EndsVisibly s) (front : List Char) :
    EndsVisibly (front ++ s) := by
  obtain ⟨rest, last, rfl, hlast⟩ := h
  exact ⟨front ++ rest, last, (List.append_assoc ..).symm, hlast⟩

/-- A character may come before a text that ends visibly. -/
theorem EndsVisibly.cons {s : List Char} (h : EndsVisibly s) (c : Char) : EndsVisibly (c :: s) :=
  h.append [c]

/-- A padded number ends in a digit. -/
theorem endsVisibly_padded (width n : Nat) : EndsVisibly (padded width n) := by
  have hlast := List.getLast_mem (padded_ne_nil width n)
  exact ⟨_, _, (List.dropLast_append_getLast (padded_ne_nil width n)).symm,
    isBlank_of_isDigit (isDigit_of_mem_padded _ hlast)⟩

/-- A date ends in a digit. -/
theorem endsVisibly_dateText (date : Date) : EndsVisibly (dateText date) :=
  ((endsVisibly_padded 2 date.day).cons '-').append _

/-- A clock time ends in a digit. -/
theorem ClockForm.endsVisibly {s : List Char} {n : Nat} (h : ClockForm s n) : EndsVisibly s := by
  cases h with
  | minutes => exact ((endsVisibly_padded ..).cons _).append _
  | seconds => exact ((endsVisibly_padded ..).cons _).append _
  | fraction => exact ((endsVisibly_padded ..).cons _).append _

/-- An offset leaves a text visible at its end. -/
theorem OffsetForm.endsVisibly {s clock : List Char} {minutes : Int} (h : OffsetForm s minutes)
    (hclock : EndsVisibly clock) : EndsVisibly (clock ++ s) := by
  cases h with
  | none => rwa [List.append_nil]
  | @universal mark hmark =>
    refine ⟨clock, mark, rfl, ?_⟩
    rcases hmark with rfl | rfl <;> decide
  | hours => exact ((endsVisibly_padded ..).cons _).append _
  | minutes => exact (((endsVisibly_padded ..).append _).cons _).append _

/-- A timestamp ends visibly. -/
theorem TimestampForm.endsVisibly {s : List Char} {date : Date} {clock : Nat} {offset : Int}
    (h : TimestampForm s date clock offset) : EndsVisibly s := by
  cases h with
  | date => exact endsVisibly_dateText _
  | moment _ _ _ hclock hoffset => exact ((hoffset.endsVisibly hclock.endsVisibly).cons _).append _

/-- The first character of a date is not blank. -/
theorem dateText_eq_cons (date : Date) :
    ∃ first rest, dateText date = first :: rest ∧ Text.isBlank first = false := by
  unfold dateText yearText
  split
  · exact ⟨'-', _, rfl, by decide⟩
  · obtain ⟨c, rest, hpadded⟩ := List.exists_cons_of_ne_nil (padded_ne_nil 4 date.year.natAbs)
    have hdigit : c.isDigit = true := isDigit_of_mem_padded c (hpadded ▸ List.mem_cons_self ..)
    rw [hpadded]
    exact ⟨c, _, rfl, isBlank_of_isDigit hdigit⟩

/-- A timestamp begins visibly. -/
theorem TimestampForm.eq_cons {s : List Char} {date : Date} {clock : Nat} {offset : Int}
    (h : TimestampForm s date clock offset) :
    ∃ first rest, s = first :: rest ∧ Text.isBlank first = false := by
  obtain ⟨first, rest, hdate, hfirst⟩ := dateText_eq_cons date
  cases h with
  | date => exact ⟨first, rest, hdate, hfirst⟩
  | moment =>
    rw [hdate]
    exact ⟨first, _, rfl, hfirst⟩

/-- Blanks before and after a text are dropped up to the first and the last character that is not
blank. -/
theorem trim_surrounded {before s after rest : List Char} {first : Char}
    (hbefore : ∀ c ∈ before, Text.isBlank c = true) (hafter : ∀ c ∈ after, Text.isBlank c = true)
    (hs : s = first :: rest) (hfirst : Text.isBlank first = false) (hlast : EndsVisibly s) :
    Text.trim (before ++ s ++ after) = s := by
  obtain ⟨front, last, hs', hlast⟩ := hlast
  have hfirst' : ¬ Text.isBlank first = true := by simp [hfirst]
  have hlast' : ¬ Text.isBlank last = true := by simp [hlast]
  have hafter' : ∀ c ∈ after.reverse, Text.isBlank c = true :=
    fun c hc => hafter c (List.mem_reverse.mp hc)
  unfold Text.trim
  rw [List.append_assoc, List.dropWhile_append_of_pos hbefore, hs, List.cons_append,
    List.dropWhile_cons_of_neg hfirst', ← List.cons_append, ← hs, List.reverse_append,
    List.dropWhile_append_of_pos hafter', hs', List.reverse_append, List.reverse_singleton,
    List.singleton_append, List.dropWhile_cons_of_neg hlast', List.reverse_cons,
    List.reverse_reverse]

/-- Blanks around a timestamp do not count. -/
theorem TimestampForm.trim_eq {s before after : List Char} {date : Date} {clock : Nat} {offset : Int}
    (h : TimestampForm s date clock offset) (hbefore : ∀ c ∈ before, Text.isBlank c = true)
    (hafter : ∀ c ∈ after, Text.isBlank c = true) : Text.trim (before ++ s ++ after) = s := by
  obtain ⟨first, rest, hs, hfirst⟩ := h.eq_cons
  exact trim_surrounded hbefore hafter hs hfirst h.endsVisibly

end DocumentStore.Time
