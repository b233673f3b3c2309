import DocumentStore.Proofs.ReadingTimes

/-!
# Texts beyond the end of the calendar

A timestamp text has a date of a year from zero to 9999, and then perhaps a clock time of less than a
day and an offset of less than 26 hours. So what it names is never before the calendar, which begins
in the year -9999. It can lie after the end of the calendar, though: the clock of a place west of
Greenwich still shows one of the last two days of 9999 when the year 10000 has begun in universal
time. These are the only texts with neither an instant nor a refusal.
-/

set_option autoImplicit false

namespace DocumentStore.Time

/-! ## Numbers of digits -/

/-- Digits stand for a number below the next power of ten. -/
theorem foldl_digits_lt {s : List Char} (h : ∀ c ∈ s, ('0' ≤ c && c ≤ '9') = true) (n : Nat) :
    s.foldl (fun n c => 10 * n + (c.toNat - '0'.toNat)) n < (n + 1) * 10 ^ s.length := by
  induction s generalizing n with
  | nil => simp
  | cons c rest ih =>
    have hrest := ih (fun d hd => h d (List.mem_cons_of_mem c hd)) (10 * n + (c.toNat - '0'.toNat))
    have hdigit := h c (List.mem_cons_self ..)
    rw [Bool.and_eq_true, decide_eq_true_eq, decide_eq_true_eq] at hdigit
    have hhigh : c.toNat ≤ 57 := hdigit.2
    have hzero : '0'.toNat = 48 := rfl
    rw [List.foldl_cons, List.length_cons, Nat.pow_succ']
    refine hrest.trans_le ?_
    rw [← Nat.mul_assoc]
    exact Nat.mul_le_mul_right _ (by omega)

/-- A number is read from digits only. -/
theorem digits?_eq_some {s : List Char} {n : Nat} (h : digits? s = some n) :
    (∀ c ∈ s, ('0' ≤ c && c ≤ '9') = true) ∧ s ≠ [] ∧
      s.foldl (fun n c => 10 * n + (c.toNat - '0'.toNat)) 0 = n := by
  unfold digits? at h
  split at h
  · cases h
  · next hdigits =>
    rw [Bool.or_eq_true, not_or, Bool.not_eq_true', Bool.not_eq_false, List.all_eq_true] at hdigits
    cases h
    refine ⟨hdigits.2, ?_, rfl⟩
    rintro rfl
    exact hdigits.1 rfl

/-- A number is less than the power of ten with as many zeros as it has digits. -/
theorem digits?_lt {s : List Char} {n : Nat} (h : digits? s = some n) : n < 10 ^ s.length := by
  obtain ⟨hdigits, -, rfl⟩ := digits?_eq_some h
  simpa using foldl_digits_lt hdigits 0

/-- A fraction is less than a second. -/
theorem fraction?_lt {s : List Char} {n : Nat} (h : fraction? s = some n) : n < 1000000000 := by
  unfold fraction? at h
  split at h
  · next hlength =>
    obtain ⟨digits, hdigits, rfl⟩ := Option.map_eq_some_iff.mp h
    calc digits * Nat.pow 10 (9 - s.length)
        < 10 ^ s.length * 10 ^ (9 - s.length) :=
          Nat.mul_lt_mul_of_pos_right (digits?_lt hdigits) (Nat.pow_pos (by decide))
      _ = 1000000000 := by rw [← Nat.pow_add, Nat.add_sub_cancel' hlength]
  · cases h

/-! ## Clock times and offsets -/

/-- A time of day has its parts in range. -/
theorem clockNanos?_eq_some {hour minute second nanos n : Nat}
    (h : clockNanos? hour minute second nanos = some n) :
    hour < 24 ∧ minute < 60 ∧ second < 60 ∧
      n = ((hour * 60 + minute) * 60 + second) * 1000000000 + nanos := by
  unfold clockNanos? at h
  split at h
  · next hrange =>
    cases h
    exact ⟨hrange.1, hrange.2.1, hrange.2.2, rfl⟩
  · cases h

/-- A time of day is less than a day. -/
theorem clockNanos?_lt {hour minute second nanos n : Nat} (hnanos : nanos < 1000000000)
    (h : clockNanos? hour minute second nanos = some n) : n < 86400 * 1000000000 := by
  obtain ⟨hhour, hminute, hsecond, rfl⟩ := clockNanos?_eq_some h
  omega

/-- A clock time is less than a day. -/
theorem clock?_lt {s : List Char} {n : Nat} (h : clock? s = some n) : n < 86400 * 1000000000 := by
  unfold clock? at h
  dsimp only at h
  split at h
  · simp only [Option.bind_eq_bind, Option.bind_eq_some_iff] at h
    obtain ⟨hour, -, minute, -, h⟩ := h
    exact clockNanos?_lt (by decide) h
  · simp only [Option.bind_eq_bind, Option.bind_eq_some_iff] at h
    obtain ⟨hour, -, minute, -, second, -, h⟩ := h
    exact clockNanos?_lt (by decide) h
  · simp only [Option.bind_eq_bind, Option.bind_eq_some_iff] at h
    obtain ⟨hour, -, minute, -, second, -, fraction, hfraction, h⟩ := h
    exact clockNanos?_lt (fraction?_lt hfraction) h
  · cases h

/-- The minutes of an offset stay below 26 hours. -/
theorem offsetMinutes?_lt {s : List Char} {n : Nat} (h : offsetMinutes? s = some n) :
    n < 26 * 60 := by
  have hrange : ∀ hours minutes : Nat,
      (if hours ≤ 25 ∧ minutes ≤ 59 then some (hours * 60 + minutes) else none) = some n →
        n < 26 * 60 := by
    intro hours minutes h
    split at h <;> cases h
    omega
  unfold offsetMinutes? at h
  dsimp only at h
  split at h
  · simp only [Option.bind_eq_bind, Option.bind_eq_some_iff] at h
    obtain ⟨hours, -, _, h, hminutes⟩ := h
    cases h
    exact hrange _ _ hminutes
  · simp only [Option.bind_eq_bind, Option.bind_eq_some_iff] at h
    obtain ⟨hours, -, minutes, -, _, h, hminutes⟩ := h
    cases h
    exact hrange _ _ hminutes
  · cases h

/-- An offset is less than 26 hours in either direction. -/
theorem clockAndOffset?_bounds {s clock : List Char} {offset : Int}
    (h : clockAndOffset? s = some (clock, offset)) : -(26 * 60) < offset ∧ offset < 26 * 60 := by
  unfold clockAndOffset? at h
  split at h
  · cases h
    decide
  · cases h
    decide
  · split at h
    · cases h
      decide
    · next sign rest hsign =>
      obtain ⟨minutes, hminutes, h⟩ := Option.bind_eq_some_iff.mp h
      have hlt := offsetMinutes?_lt hminutes
      cases h
      split <;> omega

/-! ## Dates -/

/-- A date has ten characters and a year of four digits. -/
theorem date?_eq_some {s : List Char} {date : Date} (h : date? s = some date) :
    s.length = 10 ∧ date.isValid = true ∧ 0 ≤ date.year ∧ date.year ≤ 9999 := by
  unfold date? at h
  split at h
  · simp only [Option.bind_eq_bind, Option.bind_eq_some_iff] at h
    obtain ⟨year, hyear, month, -, day, -, h⟩ := h
    split at h
    · next hvalid =>
      have hlt := digits?_lt hyear
      simp only [List.length_cons, List.length_nil] at hlt
      cases h
      exact ⟨rfl, hvalid, Int.natCast_nonneg year, by dsimp only; omega⟩
    · cases h
  · cases h

/-- A month ends within its year. -/
theorem totalLength_take_le {lengths : List Nat} {i length : Nat} (h : lengths[i]? = some length) :
    totalLength (lengths.take i) + length ≤ totalLength lengths := by
  induction lengths generalizing i with
  | nil => cases h
  | cons first rest ih =>
    cases i with
    | zero =>
      cases h
      simp [totalLength]
    | succ i =>
      have hrest := ih (i := i) (by simpa using h)
      rw [List.take_succ_cons, totalLength, totalLength]
      omega

namespace Date

variable {date : Date}

/-- The month of a date of the calendar is one of its year, and the day is one of that month. -/
theorem position_of_isValid (h : date.isValid = true) :
    ∃ month length, date.month = month + 1 ∧ (monthLengths date.year)[month]? = some length ∧
      1 ≤ date.day ∧ date.day ≤ length := by
  unfold isValid at h
  split at h
  · cases h
  · next month hmonth =>
    split at h
    · cases h
    · next length hlength =>
      rw [Bool.and_eq_true, decide_eq_true_eq, decide_eq_true_eq] at h
      exact ⟨month, length, hmonth, hlength, h⟩

/-- The number of a date lies within those of the days of its year. -/
theorem dayNumber_bounds (h : date.isValid = true) :
    daysBeforeYear date.year ≤ date.dayNumber + daysBeforeEpoch ∧
      date.dayNumber + daysBeforeEpoch < daysBeforeYear (date.year + 1) := by
  obtain ⟨month, length, hmonth, hlength, hlow, hhigh⟩ := position_of_isValid h
  have htotal := totalLength_take_le hlength
  unfold dayNumber
  rw [daysBeforeYear_succ, hmonth, Nat.add_sub_cancel]
  omega

/-- The number of the day before the last day of the calendar. -/
def lastButOne : Int := 2932895

/-- Only the last two dates of the calendar have such numbers. -/
theorem eq_of_lastButOne_le (hvalid : date.isValid = true) (hyear : date.year ≤ 9999)
    (h : lastButOne ≤ date.dayNumber) : date = ⟨9999, 12, 30⟩ ∨ date = ⟨9999, 12, 31⟩ := by
  obtain ⟨year, month, day⟩ := date
  have hepoch : daysBeforeEpoch = 719528 := by decide
  have hlate : year = 9999 := by
    obtain ⟨-, hend⟩ := dayNumber_bounds hvalid
    unfold lastButOne at h
    unfold daysBeforeYear at hend
    dsimp only at hyear hend
    omega
  subst hlate
  obtain ⟨passed, length, hmonth, hlength, hlow, hhigh⟩ := position_of_isValid hvalid
  have hpassed := (List.getElem?_eq_some_iff.mp hlength).1
  have hbefore : daysBeforeYear 9999 = 3652060 := by decide
  dsimp only at hmonth hlow hhigh
  subst hmonth
  unfold lastButOne dayNumber at h
  dsimp only at h
  rw [hepoch, hbefore, Nat.add_sub_cancel] at h
  have hlengths : monthLengths 9999 = [31, 28, 31, 30, 31, 30, 31, 31, 30, 31, 30, 31] := by decide
  rw [length_monthLengths] at hpassed
  rw [hlengths] at h hlength
  -- Before December there are not enough days, and in December only the last two are late enough.
  interval_cases passed <;> simp [totalLength] at h hlength <;> simp <;> omega

end Date

/-! ## Texts by their parts -/

/-- The text is a date, or a date and a clock time, in nanoseconds since midnight, with an offset from
universal time in minutes. -/
inductive HasParts : List Char → Date → Nat → Int → Prop
  | date {s : List Char} {date : Date} (hdate : date? s = some date) : HasParts s date 0 0
  | moment {s rest text : List Char} {separator : Char} {date : Date} {clock : Nat} {offset : Int}
      (hdate : date? s = some date)
      (hseparator : separator = 'T' ∨ separator = 't' ∨ separator = ' ')
      (hoffset : clockAndOffset? rest = some (text, offset)) (hclock : clock? text = some clock) :
    HasParts (s ++ separator :: rest) date clock offset

/-- The bounds within which the parts of a timestamp text lie. -/
theorem HasParts.bounds {s : List Char} {date : Date} {clock : Nat} {offset : Int}
    (h : HasParts s date clock offset) :
    date.isValid = true ∧ 0 ≤ date.year ∧ date.year ≤ 9999 ∧ clock < 86400 * 1000000000 ∧
      -(26 * 60) < offset ∧ offset < 26 * 60 := by
  cases h with
  | date hdate =>
    obtain ⟨-, hvalid, hyear⟩ := date?_eq_some hdate
    exact ⟨hvalid, hyear.1, hyear.2, by decide, by decide, by decide⟩
  | moment hdate hseparator hoffset hclock =>
    obtain ⟨-, hvalid, hyear⟩ := date?_eq_some hdate
    exact ⟨hvalid, hyear.1, hyear.2, clock?_lt hclock, clockAndOffset?_bounds hoffset⟩

/-- A text names the nanoseconds of its parts. -/
theorem nanos?_eq_some_iff (s : List Char) (n : Int) :
    nanos? s = some n ↔ ∃ date clock offset, HasParts s date clock offset ∧
      n = nanosAt date clock offset := by
  constructor
  · intro h
    unfold nanos? at h
    obtain ⟨date, hdate, h⟩ := Option.bind_eq_some_iff.mp h
    dsimp only at h
    split at h
    · next hend =>
      cases h
      refine ⟨date, 0, 0, ?_, by simp [nanosAt]⟩
      rw [← List.take_append_drop 10 s, hend, List.append_nil]
      exact .date hdate
    · next separator rest hrest =>
      split at h
      · next hseparator =>
        obtain ⟨⟨text, offset⟩, hoffset, h⟩ := Option.bind_eq_some_iff.mp h
        obtain ⟨clock, hclock, h⟩ := Option.bind_eq_some_iff.mp h
        cases h
        refine ⟨date, clock, offset, ?_, rfl⟩
        rw [← List.take_append_drop 10 s, hrest]
        exact .moment hdate hseparator hoffset hclock
      · cases h
  · rintro ⟨date, clock, offset, hparts, rfl⟩
    cases hparts with
    | date hdate =>
      have hlength := (date?_eq_some hdate).1
      unfold nanos?
      rw [List.take_of_length_le hlength.le, List.drop_of_length_le hlength.le, hdate]
      simp [nanosAt]
    | moment hdate hseparator hoffset hclock =>
      have hlength := (date?_eq_some hdate).1
      unfold nanos?
      rw [List.take_left' hlength, List.drop_left' hlength, hdate]
      simp only [Option.bind_eq_bind, Option.bind_some]
      rw [if_pos hseparator, hoffset]
      simp only [Option.bind_some]
      rw [hclock]
      rfl

/-! ## The end of the calendar -/

/-- The text is a timestamp text, and what it names lies after the end of the calendar. -/
def NamesBeyond (text : String) : Prop :=
  ∃ date clock offset, HasParts (Text.trim text.toList) date clock offset ∧
    (lastSecond + 1) * nanosPerSecond ≤ nanosAt date clock offset

/-- No timestamp text names an instant before the beginning of the calendar. -/
theorem HasParts.firstSecond_le {s : List Char} {date : Date} {clock : Nat} {offset : Int}
    (h : HasParts s date clock offset) :
    firstSecond * nanosPerSecond ≤ nanosAt date clock offset := by
  obtain ⟨hvalid, hyear, -, -, -, hoffset⟩ := h.bounds
  have hday := (Date.dayNumber_bounds hvalid).1
  have hepoch : daysBeforeEpoch = 719528 := by decide
  unfold daysBeforeYear at hday
  unfold firstSecond nanosAt nanosPerSecond
  omega

/-- A text has neither an instant nor a refusal exactly when it names an instant after the end of the
calendar. -/
theorem read_eq_outside_iff (text : String) : read text = .outside ↔ NamesBeyond text := by
  have houtside : ∀ {s date clock offset}, HasParts s date clock offset →
      (Instant.ofNanos? (nanosAt date clock offset) = none ↔
        (lastSecond + 1) * nanosPerSecond ≤ nanosAt date clock offset) := by
    intro s date clock offset hparts
    have hfirst := hparts.firstSecond_le
    unfold nanosPerSecond at hfirst
    rw [Instant.ofNanos?_eq_none_iff]
    unfold InCalendar nanosPerSecond
    omega
  unfold read NamesBeyond
  constructor
  · intro h
    split at h
    · cases h
    · next n hn =>
      obtain ⟨date, clock, offset, hparts, rfl⟩ := (nanos?_eq_some_iff _ _).mp hn
      split at h
      · cases h
      · next hnone => exact ⟨date, clock, offset, hparts, (houtside hparts).mp hnone⟩
  · rintro ⟨date, clock, offset, hparts, hbeyond⟩
    have hn := (nanos?_eq_some_iff (Text.trim text.toList) _).mpr ⟨_, _, _, hparts, rfl⟩
    rw [hn]
    dsimp only
    rw [(houtside hparts).mpr hbeyond]

/-- What lies after the end of the calendar is written with one of its last two dates and an offset
west of Greenwich. -/
theorem HasParts.lastDays {s : List Char} {date : Date} {clock : Nat} {offset : Int}
    (h : HasParts s date clock offset)
    (hbeyond : (lastSecond + 1) * nanosPerSecond ≤ nanosAt date clock offset) :
    (date = ⟨9999, 12, 30⟩ ∨ date = ⟨9999, 12, 31⟩) ∧ offset < 0 := by
  obtain ⟨hvalid, -, hyear, hclock, hoffset, -⟩ := h.bounds
  have hday := (Date.dayNumber_bounds hvalid).2
  have hepoch : daysBeforeEpoch = 719528 := by decide
  unfold lastSecond nanosAt nanosPerSecond at hbeyond
  unfold daysBeforeYear at hday
  refine ⟨Date.eq_of_lastButOne_le hvalid hyear ?_, by omega⟩
  unfold Date.lastButOne
  omega

end DocumentStore.Time
