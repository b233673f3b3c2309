import DocumentStore.Proofs.CalendarEnd

/-!
# Counting days

The number of a date is what one gets by counting from the first of January 1970, one day after the
other, forward and backward: the number of the following date is one more. A date is also determined
by its number, so every date of the calendar is met in this way.
-/

set_option autoImplicit false

namespace DocumentStore.Time

/-- One more length is added to the total. -/
theorem totalLength_take_succ {lengths : List Nat} {i length : Nat} (h : lengths[i]? = some length) :
    totalLength (lengths.take (i + 1)) = totalLength (lengths.take i) + length := by
  induction lengths generalizing i with
  | nil => cases h
  | cons first rest ih =>
    cases i with
    | zero =>
      cases h
      simp [totalLength]
    | succ i =>
      rw [List.take_succ_cons, totalLength, ih (by simpa using h), List.take_succ_cons, totalLength]
      omega

/-- Later years begin later. -/
theorem daysBeforeYear_mono {a b : Int} (h : a ≤ b) : daysBeforeYear a ≤ daysBeforeYear b := by
  induction b, h using Int.leInduction with
  | base => exact Int.le_refl _
  | succ year _ ih =>
    rw [daysBeforeYear_succ]
    omega

/-- A position within some months is that of one day of one month only. -/
theorem position_unique {lengths : List Nat} {i j a b length length' : Nat}
    (hi : lengths[i]? = some length) (hj : lengths[j]? = some length') (ha : 1 ≤ a ∧ a ≤ length)
    (hb : 1 ≤ b ∧ b ≤ length')
    (h : totalLength (lengths.take i) + a = totalLength (lengths.take j) + b) : i = j ∧ a = b := by
  induction lengths generalizing i j with
  | nil => cases hi
  | cons first rest ih =>
    cases i with
    | zero =>
      cases j with
      | zero => simpa using h
      | succ j =>
        cases hi
        rw [List.take_succ_cons, List.take_zero, totalLength, totalLength] at h
        omega
    | succ i =>
      cases j with
      | zero =>
        cases hj
        rw [List.take_succ_cons, List.take_zero, totalLength, totalLength] at h
        omega
      | succ j =>
        rw [List.take_succ_cons, List.take_succ_cons, totalLength, totalLength] at h
        obtain ⟨hij, hab⟩ := ih (i := i) (j := j) (by simpa using hi) (by simpa using hj) (by omega)
        exact ⟨by omega, hab⟩

namespace Date

variable {date a b : Date} {number : Int}

/-- The date of the following day. -/
def next (date : Date) : Date :=
  if date.day < (monthLengths date.year).getD (date.month - 1) 0 then
    ⟨date.year, date.month, date.day + 1⟩
  else if date.month < 12 then ⟨date.year, date.month + 1, 1⟩
  else ⟨date.year + 1, 1, 1⟩

/-- Counting day by day from the first of January 1970, which is day zero, a date has the number. -/
inductive Counts : Date → Int → Prop
  | epoch : Counts ⟨1970, 1, 1⟩ 0
  | next {date : Date} {number : Int} (h : Counts date number) : Counts date.next (number + 1)
  | previous {date : Date} {number : Int} (valid : date.isValid = true)
      (h : Counts date.next (number + 1)) : Counts date number

/-- No month is empty. -/
theorem one_le_of_mem_monthLengths {year : Int} {length : Nat} (h : length ∈ monthLengths year) :
    1 ≤ length := by
  unfold monthLengths at h
  simp only [List.mem_cons, List.not_mem_nil, or_false] at h
  split at h <;> omega

/-- A day within a month of the year is a valid date. -/
theorem isValid_of_position {year : Int} {month day length : Nat}
    (hlength : (monthLengths year)[month]? = some length) (hday : 1 ≤ day ∧ day ≤ length) :
    (Date.mk year (month + 1) day).isValid = true := by
  unfold isValid
  dsimp only
  rw [hlength]
  simpa using hday

/-- The day after a valid date is a valid date. -/
theorem isValid_next (h : date.isValid = true) : date.next.isValid = true := by
  obtain ⟨month, length, hmonth, hlength, hlow, hhigh⟩ := position_of_isValid h
  have hcount := (List.getElem?_eq_some_iff.mp hlength).1
  rw [length_monthLengths] at hcount
  -- the first of a month is a date of the calendar, since no month is empty
  have hfirst : ∀ year month, month < 12 → (Date.mk year (month + 1) 1).isValid = true := by
    intro year month hmonth
    have hnext : month < (monthLengths year).length := by rwa [length_monthLengths]
    exact isValid_of_position (List.getElem?_eq_getElem hnext)
      ⟨Nat.le_refl 1, one_le_of_mem_monthLengths (List.getElem_mem hnext)⟩
  unfold next
  rw [hmonth, Nat.add_sub_cancel, List.getD_eq_getElem?_getD, hlength, Option.getD_some]
  split
  · exact isValid_of_position hlength ⟨by omega, by omega⟩
  · split
    · exact hfirst _ _ (by omega)
    · exact hfirst _ 0 (by decide)

/-- The number of the following day is one more. -/
theorem dayNumber_next (h : date.isValid = true) : date.next.dayNumber = date.dayNumber + 1 := by
  obtain ⟨month, length, hmonth, hlength, hlow, hhigh⟩ := position_of_isValid h
  have hcount := (List.getElem?_eq_some_iff.mp hlength).1
  rw [length_monthLengths] at hcount
  have hsucc := totalLength_take_succ hlength
  unfold next
  rw [hmonth, Nat.add_sub_cancel, List.getD_eq_getElem?_getD, hlength, Option.getD_some]
  unfold dayNumber
  rw [hmonth, Nat.add_sub_cancel]
  split
  · dsimp only
    rw [Nat.add_sub_cancel]
    omega
  · split
    · dsimp only
      rw [Nat.add_sub_cancel, hsucc]
      omega
    · -- after the last month of a year there is nothing left of it
      have hlast : month + 1 = 12 := by omega
      rw [hlast, List.take_of_length_le (by rw [length_monthLengths])] at hsucc
      dsimp only
      rw [daysBeforeYear_succ, hsucc, Nat.sub_self, List.take_zero, totalLength]
      omega

/-- Two dates of the calendar with one number are the same. -/
theorem eq_of_dayNumber_eq (ha : a.isValid = true) (hb : b.isValid = true)
    (h : a.dayNumber = b.dayNumber) : a = b := by
  have hyear : a.year = b.year := by
    obtain ⟨hlow, hhigh⟩ := dayNumber_bounds ha
    obtain ⟨hlow', hhigh'⟩ := dayNumber_bounds hb
    by_contra hne
    rcases Int.lt_or_gt_of_ne hne with hlt | hgt
    · have hmono := daysBeforeYear_mono (Int.add_one_le_of_lt hlt)
      omega
    · have hmono := daysBeforeYear_mono (Int.add_one_le_of_lt hgt)
      omega
  obtain ⟨month, length, hmonth, hlength, hday⟩ := position_of_isValid ha
  obtain ⟨month', length', hmonth', hlength', hday'⟩ := position_of_isValid hb
  obtain ⟨year, _, day⟩ := a
  obtain ⟨_, _, day'⟩ := b
  dsimp only at hyear hmonth hmonth' hlength hlength' hday hday'
  subst hyear hmonth hmonth'
  unfold dayNumber at h
  dsimp only at h
  rw [Nat.add_sub_cancel, Nat.add_sub_cancel] at h
  obtain ⟨rfl, rfl⟩ := position_unique hlength hlength' hday hday' (by omega)
  rfl

/-- A date of the calendar is found by its number. -/
theorem ofDayNumber_dayNumber (h : date.isValid = true) : ofDayNumber date.dayNumber = date :=
  eq_of_dayNumber_eq (isValid_ofDayNumber _) h (dayNumber_ofDayNumber _)

/-- The date of the next day is the date after. -/
theorem next_ofDayNumber (number : Int) : (ofDayNumber number).next = ofDayNumber (number + 1) := by
  have hvalid := isValid_ofDayNumber number
  refine eq_of_dayNumber_eq (isValid_next hvalid) (isValid_ofDayNumber _) ?_
  rw [dayNumber_next hvalid, dayNumber_ofDayNumber, dayNumber_ofDayNumber]

/-- The date of a day is as many days after the first of January 1970 as its number says. -/
theorem counts_ofDayNumber (number : Int) : Counts (ofDayNumber number) number := by
  induction number with
  | zero =>
    have hepoch : ofDayNumber 0 = ⟨1970, 1, 1⟩ := by decide
    rw [hepoch]
    exact .epoch
  | succ n ih =>
    rw [← next_ofDayNumber]
    exact .next ih
  | pred n ih =>
    refine .previous (isValid_ofDayNumber _) ?_
    rw [next_ofDayNumber, Int.sub_add_cancel]
    exact ih

/-- Counting meets the dates of the calendar, and counts each of them by its number. -/
theorem counts_iff : date.Counts number ↔ date.isValid = true ∧ date.dayNumber = number := by
  constructor
  · intro h
    induction h with
    | epoch => decide
    | next _ ih => exact ⟨isValid_next ih.1, by rw [dayNumber_next ih.1, ih.2]⟩
    | previous valid _ ih =>
      have hnext := dayNumber_next valid
      exact ⟨valid, by omega⟩
  · rintro ⟨hvalid, rfl⟩
    have hcounts := counts_ofDayNumber date.dayNumber
    rwa [ofDayNumber_dayNumber hvalid] at hcounts

end Date

end DocumentStore.Time
