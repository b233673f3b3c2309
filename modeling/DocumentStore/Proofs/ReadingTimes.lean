import DocumentStore.Proofs.Instants
import DocumentStore.Proofs.TimestampForms

/-!
# Reading the texts of seconds

The text of a second is a timestamp text exactly when its year has four digits, which the years from
zero to 9999 have. It is then read as the beginning of that second, with either separator. The text
of a second before year zero begins with a minus sign, that of a later year than 9999 with five
digits.
-/

set_option autoImplicit false

namespace DocumentStore.Time

/-- The first second of year zero. -/
def yearZero : Int := -62167219200

/-- The year of the second has four digits: its text is a timestamp. -/
def IsRereadable (second : Int) : Prop := yearZero ≤ second ∧ second ≤ lastSecond

/-- The bounds of the second can be compared. -/
instance (second : Int) : Decidable (IsRereadable second) :=
  inferInstanceAs (Decidable (_ ∧ _))

/-- What is read again belongs to the calendar. -/
theorem IsRereadable.inCalendar {second : Int} (h : IsRereadable second) : InCalendar second := by
  have hfirst : firstSecond ≤ yearZero := by decide
  exact ⟨Int.le_trans hfirst h.1, h.2⟩

namespace Date

/-- The year of a day is not negative exactly when the day is not before year zero. -/
theorem yearOf_nonneg_iff (days : Int) : 0 ≤ yearOf days ↔ 0 ≤ days := by
  obtain ⟨hlow, hhigh⟩ := yearOf_bounds days
  unfold daysBeforeYear at hlow hhigh
  constructor <;> intro h <;> by_contra hneg <;> omega

/-- A day before year 10000 belongs to a year up to 9999. -/
theorem yearOf_le {days : Int} (h : days < daysBeforeYear 10000) : yearOf days ≤ 9999 := by
  obtain ⟨hlow, -⟩ := yearOf_bounds days
  unfold daysBeforeYear at hlow h
  by_contra hlate
  omega

/-- The date of a day is one of the calendar. -/
theorem isValid_ofDayNumber (number : Int) : (ofDayNumber number).isValid = true := by
  obtain ⟨hlow, hhigh⟩ := yearOf_bounds (number + daysBeforeEpoch)
  rw [daysBeforeYear_succ] at hhigh
  obtain ⟨passed, length, hmonth, -, hlength, hday⟩ :=
    @ofMonths_position 1 (monthLengths (yearOf (number + daysBeforeEpoch)))
      (number + daysBeforeEpoch - daysBeforeYear (yearOf (number + daysBeforeEpoch))).toNat
      (by omega)
  unfold ofDayNumber isValid
  dsimp only
  rw [hmonth, Nat.add_comm]
  dsimp only
  rw [hlength]
  simpa using hday

end Date

/-! ## Dates -/

/-- No date begins with a minus sign. -/
theorem date?_minus (rest : List Char) : date? ('-' :: rest) = none := by
  have hdigits : ∀ tail, digits? ('-' :: tail) = none := by
    intro tail
    simp [digits?]
  unfold date?
  split
  · next h =>
    cases h
    rw [hdigits]
    rfl
  · rfl

/-- No date begins with five digits. -/
theorem date?_digits {a b c d e : Char} (he : e.isDigit = true) (rest : List Char) :
    date? (a :: b :: c :: d :: e :: rest) = none := by
  unfold date?
  split
  · next h =>
    simp only [List.cons.injEq] at h
    rw [h.2.2.2.2.1] at he
    cases he
  · rfl

/-! ## Clock times -/

/-- The text of a second of the day is a clock time with seconds. -/
theorem clockForm_clockText {second : Nat} (h : second < 86400) :
    ClockForm (clockText second) (second * 1000000000) := by
  have hsecond : ((second / 3600 * 60 + second / 60 % 60) * 60 + second % 60) * 1000000000 =
      second * 1000000000 := by omega
  rw [← hsecond]
  exact .seconds (by omega) (by omega) (by omega)

/-- A time of day ends in a digit. -/
theorem endsVisibly_clockText (second : Nat) : EndsVisibly (clockText second) :=
  ((endsVisibly_padded ..).cons _).append _

/-! ## Seconds -/

/-- The text of a second has nothing blank at its ends. -/
theorem trim_secondText (separator : Char) (second : Int) :
    Text.trim (secondText separator second) = secondText separator second := by
  obtain ⟨first, rest, hdate, hfirst⟩ := dateText_eq_cons (Date.ofDayNumber (second / 86400))
  have hcons : secondText separator second =
      first :: (rest ++ separator :: clockText (second % 86400).toNat) := by
    unfold secondText
    rw [hdate, List.cons_append]
  have hlast : EndsVisibly (secondText separator second) :=
    ((endsVisibly_clockText _).cons _).append _
  have hnone : ∀ c ∈ ([] : List Char), Text.isBlank c = true := by
    rintro c ⟨⟩
  simpa using trim_surrounded hnone hnone hcons hfirst hlast

/-- The seconds of years 0 to 9999 have dates in these years. -/
theorem year_of_second {second : Int} (hlow : yearZero ≤ second) (hhigh : second ≤ lastSecond) :
    0 ≤ (Date.ofDayNumber (second / 86400)).year ∧
      (Date.ofDayNumber (second / 86400)).year ≤ 9999 := by
  unfold yearZero at hlow
  unfold lastSecond at hhigh
  have hepoch : daysBeforeEpoch = 719528 := by decide
  have hend : daysBeforeYear 10000 = 3652425 := by decide
  show 0 ≤ Date.yearOf _ ∧ Date.yearOf _ ≤ 9999
  rw [hepoch, Date.yearOf_nonneg_iff]
  refine ⟨by omega, Date.yearOf_le ?_⟩
  rw [hend]
  omega

/-- A second before year 0 has a date in a negative year. -/
theorem year_neg_of_second {second : Int} (h : second < yearZero) :
    (Date.ofDayNumber (second / 86400)).year < 0 := by
  unfold yearZero at h
  have hepoch : daysBeforeEpoch = 719528 := by decide
  have hyear := Date.yearOf_nonneg_iff (second / 86400 + daysBeforeEpoch)
  show Date.yearOf _ < 0
  omega

/-- After the calendar a year has five digits at least. -/
theorem year_of_second_gt {second : Int} (h : lastSecond < second) :
    10000 ≤ (Date.ofDayNumber (second / 86400)).year := by
  unfold lastSecond at h
  have hepoch : daysBeforeEpoch = 719528 := by decide
  have hend : daysBeforeYear 10000 = 3652425 := by decide
  obtain ⟨-, hhigh⟩ := Date.yearOf_bounds (second / 86400 + daysBeforeEpoch)
  show 10000 ≤ Date.yearOf _
  unfold daysBeforeYear at hhigh hend
  by_contra hearly
  omega

/-- No timestamp begins with a minus sign. -/
theorem nanos?_minus (rest : List Char) : nanos? ('-' :: rest) = none := by
  unfold nanos?
  rw [List.take_succ_cons, date?_minus]
  rfl

/-- No timestamp begins with five digits. -/
theorem nanos?_digits {digits : List Char} (hlength : 5 ≤ digits.length)
    (hall : ∀ c ∈ digits, c.isDigit = true) (rest : List Char) :
    nanos? (digits ++ rest) = none := by
  match digits, hlength with
  | a :: b :: c :: d :: e :: more, _ =>
    unfold nanos?
    simp only [List.cons_append, List.take_succ_cons]
    rw [date?_digits (hall e (by simp))]
    rfl

/-- The text of a second from year zero on is a timestamp without an offset. -/
theorem timestampForm_secondText {separator : Char} (hseparator : separator = 'T' ∨ separator = ' ')
    {second : Int} (hlow : yearZero ≤ second) (hhigh : second ≤ lastSecond) :
    TimestampForm (secondText separator second) (Date.ofDayNumber (second / 86400))
      ((second % 86400).toNat * 1000000000) 0 := by
  have hseparator' : separator = 'T' ∨ separator = 't' ∨ separator = ' ' := by
    rcases hseparator with h | h <;> simp [h]
  have hsecond : (second % 86400).toNat < 86400 := by omega
  have hform := TimestampForm.moment (year_of_second hlow hhigh) (Date.isValid_ofDayNumber _)
    hseparator' (clockForm_clockText hsecond) .none
  rwa [List.append_nil] at hform

/-- The text of a second from year zero on is read in nanoseconds. -/
theorem nanos?_secondText {separator : Char} (hseparator : separator = 'T' ∨ separator = ' ')
    {second : Int} (hlow : yearZero ≤ second) (hhigh : second ≤ lastSecond) :
    nanos? (secondText separator second) = some (second * nanosPerSecond) := by
  rw [(timestampForm_secondText hseparator hlow hhigh).nanos?_eq, nanosAt,
    Date.dayNumber_ofDayNumber]
  simp only [nanosPerSecond, Option.some.injEq]
  omega

/-- The text of a second from year zero on is read as the beginning of that second. -/
theorem read_secondText {separator : Char} (hseparator : separator = 'T' ∨ separator = ' ')
    {second : Int} (hlow : yearZero ≤ second) (hhigh : second ≤ lastSecond) :
    ∃ t : Instant, t.nanos = second * nanosPerSecond ∧
      read (String.ofList (secondText separator second)) = .instant t := by
  have hsecond : InCalendar (second * nanosPerSecond / nanosPerSecond) := by
    rw [Int.mul_ediv_cancel _ (by decide)]
    exact IsRereadable.inCalendar ⟨hlow, hhigh⟩
  refine exists_read ?_ hsecond
  rw [String.toList_ofList, trim_secondText, nanos?_secondText hseparator hlow hhigh]

/-- The text of a second before year zero is no timestamp. -/
theorem read_secondText_of_lt (separator : Char) {second : Int} (h : second < yearZero) :
    read (String.ofList (secondText separator second)) = .invalid := by
  have hnone : nanos? (secondText separator second) = none := by
    unfold secondText dateText yearText
    rw [if_pos (year_neg_of_second h)]
    exact nanos?_minus _
  unfold read
  rw [String.toList_ofList, trim_secondText, hnone]

/-- The text of a second after the year 9999 is no timestamp. -/
theorem read_secondText_of_gt (separator : Char) {second : Int} (h : lastSecond < second) :
    read (String.ofList (secondText separator second)) = .invalid := by
  have hyear := year_of_second_gt h
  have hlength : ¬ (Decimal.naturalText (Date.ofDayNumber (second / 86400)).year.natAbs).length ≤ 4 :=
    fun hle => absurd ((Nat.length_toDigits_le_iff (by decide) (by decide)).mp hle) (by omega)
  have hnone : nanos? (secondText separator second) = none := by
    unfold secondText dateText yearText
    rw [if_neg (by omega), List.append_assoc, List.append_assoc]
    refine nanos?_digits ?_ isDigit_of_mem_padded _
    simp only [padded, List.length_append]
    omega
  unfold read
  rw [String.toList_ofList, trim_secondText, hnone]

end DocumentStore.Time
