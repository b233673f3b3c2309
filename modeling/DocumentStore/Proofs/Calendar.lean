import DocumentStore.Proofs.NumberText
import DocumentStore.Proofs.UniqueReading
import DocumentStore.Time.Instant

/-!
# Days, dates and their texts

The year of a day is the one that begins on that day or before it and ends after it, and the month
and day are those of the position within the year. So the number of the date of a day is the number
of the day, and two days with one date are the same day.

The parts of a date and of a clock time are numbers with leading zeros and something else than a
digit between them. So two seconds with one text are the same second, whatever their years are.
-/

set_option autoImplicit false

namespace DocumentStore.Time

namespace Date

/-- The estimate of the year is never off by more than one. -/
theorem yearOf_bounds (days : Int) :
    daysBeforeYear (yearOf days) ≤ days ∧ days < daysBeforeYear (yearOf days + 1) := by
  have hestimate : ∀ estimate : Int, estimate = days * 400 / 146097 →
      daysBeforeYear (estimate - 1) ≤ days ∧ days < daysBeforeYear (estimate + 2) := by
    intro estimate h
    unfold daysBeforeYear
    omega
  obtain ⟨hlow, hhigh⟩ := hestimate _ rfl
  unfold yearOf
  dsimp only
  split
  · next h => exact ⟨h, by rwa [Int.add_assoc]⟩
  · next h =>
    split
    · next h' => exact ⟨h', by omega⟩
    · next h' =>
      refine ⟨hlow, ?_⟩
      rw [Int.sub_add_cancel]
      omega

/-- The position of a day within the months that are given: whole months before it, and the day
within its month, which is one of the days of that month. -/
theorem ofMonths_position (month : Nat) {lengths : List Nat} {rest : Nat}
    (h : rest < totalLength lengths) :
    ∃ passed length, (ofMonths month lengths rest).1 = month + passed ∧
      totalLength (lengths.take passed) + (ofMonths month lengths rest).2 = rest + 1 ∧
      lengths[passed]? = some length ∧ 1 ≤ (ofMonths month lengths rest).2 ∧
      (ofMonths month lengths rest).2 ≤ length := by
  induction lengths generalizing month rest with
  | nil =>
    rw [totalLength] at h
    omega
  | cons length lengths ih =>
    rw [totalLength] at h
    rw [ofMonths]
    by_cases hrest : rest < length
    · rw [if_pos hrest]
      exact ⟨0, length, rfl, Nat.zero_add _, rfl, by simp, hrest⟩
    · rw [if_neg hrest]
      obtain ⟨passed, length', hmonth, htotal, hlength, hday⟩ :=
        @ih (month + 1) (rest - length) (by omega)
      refine ⟨passed + 1, length', by omega, ?_, by simpa using hlength, hday⟩
      rw [List.take_succ_cons, totalLength]
      omega

/-- The date of a day has the number of the day. -/
theorem dayNumber_ofDayNumber (number : Int) : (ofDayNumber number).dayNumber = number := by
  obtain ⟨days, hdays⟩ : ∃ days, number + daysBeforeEpoch = days := ⟨_, rfl⟩
  obtain ⟨hlow, hhigh⟩ := yearOf_bounds days
  rw [daysBeforeYear_succ] at hhigh
  obtain ⟨passed, -, hmonth, hday, -⟩ := @ofMonths_position 1 (monthLengths (yearOf days))
    (days - daysBeforeYear (yearOf days)).toNat (by omega)
  unfold ofDayNumber dayNumber
  dsimp only
  rw [hdays, hmonth, Nat.add_sub_cancel_left]
  omega

/-- Two days have different dates. -/
theorem ofDayNumber_injective {a b : Int} (h : ofDayNumber a = ofDayNumber b) : a = b := by
  rw [← dayNumber_ofDayNumber a, h, dayNumber_ofDayNumber]

end Date

/-! ## Texts -/

open Decimal (naturalText)

variable {u v : List Char}

/-- Only digits are padded with. -/
theorem isDigit_of_mem_padded {width n : Nat} : ∀ c ∈ padded width n, c.isDigit = true := by
  intro c hc
  rcases List.mem_append.mp hc with hc | hc
  · rw [List.eq_of_mem_replicate hc]
    rfl
  · exact Decimal.isDigit_of_mem_naturalText hc

/-- A padded number is read back. -/
theorem ofDigitChars_padded (width n : Nat) : Nat.ofDigitChars 10 (padded width n) 0 = n := by
  unfold padded
  dsimp only
  rw [Nat.ofDigitChars_append, Nat.ofDigitChars_replicate_zero, Nat.mul_zero,
    Decimal.ofDigitChars_naturalText]

/-- A number with leading zeros ends where something else than a digit stands. -/
theorem padded_unique {width m n : Nat} (hu : Text.StopsAt Char.isDigit u)
    (hv : Text.StopsAt Char.isDigit v) (h : padded width m ++ u = padded width n ++ v) :
    m = n ∧ u = v := by
  obtain ⟨htext, htail⟩ := Text.run_unique isDigit_of_mem_padded isDigit_of_mem_padded hu hv h
  refine ⟨?_, htail⟩
  rw [← ofDigitChars_padded width m, htext, ofDigitChars_padded]

/-- A number with leading zeros does not begin with something else than a digit. -/
theorem padded_append_ne {width n : Nat} {c : Char} (hc : c.isDigit = false)
    (hu : Text.StopsAt Char.isDigit u) (rest : List Char) : padded width n ++ u ≠ c :: rest := by
  intro h
  have hnil : ∀ d ∈ ([] : List Char), d.isDigit = true := by
    rintro d ⟨⟩
  obtain ⟨hempty, -⟩ := Text.run_unique isDigit_of_mem_padded hnil hu (Text.stopsAt_cons hc rest) h
  exact Nat.toDigits_ne_nil (List.append_eq_nil_iff.mp hempty).2

/-- A year is read up to the minus sign after it; its own sign stands before the digits. -/
theorem yearText_unique {a b : Int} (h : yearText a ++ '-' :: u = yearText b ++ '-' :: v) :
    a = b ∧ u = v := by
  have hstop : ∀ tail, Text.StopsAt Char.isDigit ('-' :: tail) := Text.stopsAt_cons rfl
  unfold yearText at h
  by_cases ha : a < 0
  · by_cases hb : b < 0
    · rw [if_pos ha, if_pos hb] at h
      obtain ⟨habs, htail⟩ := padded_unique (hstop _) (hstop _) (List.cons.inj h).2
      exact ⟨by omega, (List.cons.inj htail).2⟩
    · rw [if_pos ha, if_neg hb] at h
      exact absurd h.symm (padded_append_ne rfl (hstop _) _)
  · by_cases hb : b < 0
    · rw [if_neg ha, if_pos hb] at h
      exact absurd h (padded_append_ne rfl (hstop _) _)
    · rw [if_neg ha, if_neg hb] at h
      obtain ⟨habs, htail⟩ := padded_unique (hstop _) (hstop _) h
      exact ⟨by omega, (List.cons.inj htail).2⟩

/-- A date is told from whatever follows it, unless that is a digit. -/
theorem dateText_unique {a b : Date} (hu : Text.StopsAt Char.isDigit u)
    (hv : Text.StopsAt Char.isDigit v) (h : dateText a ++ u = dateText b ++ v) :
    a = b ∧ u = v := by
  have hstop : ∀ tail, Text.StopsAt Char.isDigit ('-' :: tail) := Text.stopsAt_cons rfl
  obtain ⟨year, month, day⟩ := a
  obtain ⟨year', month', day'⟩ := b
  unfold dateText at h
  simp only [List.append_assoc, List.cons_append] at h
  obtain ⟨rfl, hmonths⟩ := yearText_unique h
  obtain ⟨rfl, hdays⟩ := padded_unique (hstop _) (hstop _) hmonths
  obtain ⟨rfl, htail⟩ := padded_unique hu hv (List.cons.inj hdays).2
  exact ⟨rfl, htail⟩

/-- A time of day is told from whatever follows it, unless that is a digit. -/
theorem clockText_unique {a b : Nat} (hu : Text.StopsAt Char.isDigit u)
    (hv : Text.StopsAt Char.isDigit v) (h : clockText a ++ u = clockText b ++ v) :
    a = b ∧ u = v := by
  have hstop : ∀ tail, Text.StopsAt Char.isDigit (':' :: tail) := Text.stopsAt_cons rfl
  unfold clockText at h
  simp only [List.append_assoc, List.cons_append] at h
  obtain ⟨hhour, hminutes⟩ := padded_unique (hstop _) (hstop _) h
  obtain ⟨hminute, hseconds⟩ := padded_unique (hstop _) (hstop _) (List.cons.inj hminutes).2
  obtain ⟨hsecond, htail⟩ := padded_unique hu hv (List.cons.inj hseconds).2
  exact ⟨by omega, htail⟩

/-- The text of a second is that of one second only. -/
theorem secondText_unique {separator : Char} (hseparator : separator.isDigit = false)
    {a b : Int} (hu : Text.StopsAt Char.isDigit u) (hv : Text.StopsAt Char.isDigit v)
    (h : secondText separator a ++ u = secondText separator b ++ v) : a = b ∧ u = v := by
  have hstop : ∀ tail, Text.StopsAt Char.isDigit (separator :: tail) :=
    Text.stopsAt_cons hseparator
  unfold secondText at h
  rw [List.append_assoc, List.append_assoc] at h
  obtain ⟨hdate, hclock⟩ := dateText_unique (hstop _) (hstop _) h
  have hday := Date.ofDayNumber_injective hdate
  obtain ⟨hsecond, htail⟩ := clockText_unique hu hv (List.cons.inj hclock).2
  exact ⟨by omega, htail⟩

end DocumentStore.Time
