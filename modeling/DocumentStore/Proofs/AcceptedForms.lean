import DocumentStore.Proofs.ConformingDocuments
import DocumentStore.Proofs.DigitOrder

/-!
# The texts that are accepted as timestamps

Reading is the inverse of writing, part by part: digits are read only from a number with leading
zeros, a date only from its text, a clock time only from one of its forms. Offsets are the exception.
A colon is dropped wherever it stands among the digits of an offset, so that `+0:1` is read as `+01`.
What is accepted is a timestamp, or becomes one once the colons of its offset are dropped; it is none
itself exactly when the offset has a colon out of place.
-/

set_option autoImplicit false

namespace DocumentStore.Time

variable {s clock digits : List Char} {n : Nat} {m : Int} {sign : Char}

/-! ## Forms with dropped colons -/

/-- An offset as it may be written: one of its forms, or a form of digits among which colons stand
that do not count. -/
inductive AcceptedOffset : List Char → Int → Prop
  | written {s : List Char} {minutes : Int} (h : OffsetForm s minutes) : AcceptedOffset s minutes
  | colons {sign : Char} {digits : List Char} {minutes : Int} (hsign : isSign sign = true)
      (h : OffsetForm (sign :: digits.filter (· ≠ ':')) minutes) :
    AcceptedOffset (sign :: digits) minutes

/-- A timestamp as it may be written, with the meaning of its parts. -/
inductive AcceptedForm : List Char → Date → Nat → Int → Prop
  | date {date : Date} (hyear : 0 ≤ date.year ∧ date.year ≤ 9999) (hvalid : date.isValid = true) :
    AcceptedForm (dateText date) date 0 0
  | moment {date : Date} {separator : Char} {clock offset : List Char} {nanos : Nat} {minutes : Int}
      (hyear : 0 ≤ date.year ∧ date.year ≤ 9999) (hvalid : date.isValid = true)
      (hseparator : separator = 'T' ∨ separator = 't' ∨ separator = ' ')
      (hclock : ClockForm clock nanos) (hoffset : AcceptedOffset offset minutes) :
    AcceptedForm (dateText date ++ separator :: (clock ++ offset)) date nanos minutes

/-- There is no colon, or there is one in the middle of four other characters. -/
def ColonInPlace (digits : List Char) : Prop :=
  ':' ∉ digits ∨ ∃ hours minutes : List Char, digits = hours ++ ':' :: minutes ∧
    hours.length = 2 ∧ minutes.length = 2 ∧ ':' ∉ hours ++ minutes

/-- Where a sign with digits and colons ends the text, the colons are in place. -/
def ColonsInPlace (s : List Char) : Prop :=
  ∀ front sign digits, s = front ++ sign :: digits → isSign sign = true →
    (∀ c ∈ digits, c.isDigit = true ∨ c = ':') → ColonInPlace digits

/-! ## Digits and dates -/

/-- Two digits are those of their number, padded. -/
theorem twoDigits?_eq_some (h : twoDigits? s = some n) : s = padded 2 n := by
  unfold twoDigits? at h
  split at h
  · next hlength =>
    rw [← hlength]
    exact eq_padded_of_digits? h
  · cases h

/-- A fraction is read from at least one digit and at most nine. -/
theorem fraction?_eq_some (h : fraction? s = some n) :
    ∃ count fraction, (1 ≤ count ∧ count ≤ 9) ∧ fraction < 10 ^ count ∧
      s = padded count fraction ∧ n = fraction * 10 ^ (9 - count) := by
  unfold fraction? at h
  split at h
  · next hlength =>
    obtain ⟨fraction, hdigits, rfl⟩ := Option.map_eq_some_iff.mp h
    have hpos : 1 ≤ s.length := List.length_pos_iff.mpr (digits?_eq_some hdigits).2.1
    exact ⟨s.length, fraction, ⟨hpos, hlength⟩, digits?_lt hdigits, eq_padded_of_digits? hdigits, rfl⟩
  · cases h

/-- A date is read from its text only. -/
theorem eq_dateText_of_date? {date : Date} (h : date? s = some date) : s = dateText date := by
  unfold date? at h
  split at h
  · next y₁ y₂ y₃ y₄ m₁ m₂ d₁ d₂ =>
    simp only [Option.bind_eq_bind, Option.bind_eq_some_iff] at h
    obtain ⟨year, hyear, month, hmonth, day, hday, h⟩ := h
    split at h
    · cases h
      have hy : [y₁, y₂, y₃, y₄] = padded 4 year := eq_padded_of_digits? hyear
      have hm : [m₁, m₂] = padded 2 month := eq_padded_of_digits? hmonth
      have hd : [d₁, d₂] = padded 2 day := eq_padded_of_digits? hday
      unfold dateText yearText
      dsimp only
      rw [if_neg (by omega), Int.natAbs_natCast, ← hy, ← hm, ← hd]
      rfl
    · cases h
  · cases h

/-! ## Clock times -/

/-- A clock time is read from its forms only. -/
theorem clockForm_of_clock? (h : clock? s = some n) : ClockForm s n := by
  unfold clock? at h
  dsimp only at h
  have hparts := List.takeWhile_append_dropWhile
    (p := fun c : Char => !(decide (c = '.') || decide (c = ','))) (l := s)
  have hmark := List.head?_dropWhile_not (fun c : Char => !(decide (c = '.') || decide (c = ','))) s
  generalize s.takeWhile (fun c => !(decide (c = '.') || decide (c = ','))) = main at h hparts
  generalize s.dropWhile (fun c => !(decide (c = '.') || decide (c = ','))) = tail at h hparts hmark
  have hjoined := Text.joined_pieces ':' main
  split at h
  · next hour minute hpieces =>
    simp only [Option.bind_eq_bind, Option.bind_eq_some_iff] at h
    obtain ⟨hourValue, hhour, minuteValue, hminute, h⟩ := h
    obtain ⟨hlow, hmiddle, -, rfl⟩ := clockNanos?_eq_some h
    rw [hpieces, twoDigits?_eq_some hhour, twoDigits?_eq_some hminute] at hjoined
    rw [List.append_nil, ← hjoined] at hparts
    have hform := ClockForm.minutes hlow hmiddle
    simpa [← hparts, Text.joined] using hform
  · next hour minute second hpieces =>
    simp only [Option.bind_eq_bind, Option.bind_eq_some_iff] at h
    obtain ⟨hourValue, hhour, minuteValue, hminute, secondValue, hsecond, h⟩ := h
    obtain ⟨hlow, hmiddle, hhigh, rfl⟩ := clockNanos?_eq_some h
    rw [hpieces, twoDigits?_eq_some hhour, twoDigits?_eq_some hminute,
      twoDigits?_eq_some hsecond] at hjoined
    rw [List.append_nil, ← hjoined] at hparts
    have hform := ClockForm.seconds hlow hmiddle hhigh
    simpa [← hparts, Text.joined] using hform
  · next hour minute second mark fraction hpieces =>
    simp only [Option.bind_eq_bind, Option.bind_eq_some_iff] at h
    obtain ⟨hourValue, hhour, minuteValue, hminute, secondValue, hsecond, nanos, hfraction, h⟩ := h
    obtain ⟨hlow, hmiddle, hhigh, rfl⟩ := clockNanos?_eq_some h
    obtain ⟨count, value, hcount, hvalue, rfl, rfl⟩ := fraction?_eq_some hfraction
    rw [hpieces, twoDigits?_eq_some hhour, twoDigits?_eq_some hminute,
      twoDigits?_eq_some hsecond] at hjoined
    have hpoint : mark = '.' ∨ mark = ',' := by simpa [or_iff_not_imp_left] using hmark
    have hform := ClockForm.fraction hlow hmiddle hhigh hpoint hcount hvalue
    simpa [← hparts, ← hjoined, Text.joined] using hform
  · cases h

/-! ## Offsets -/

/-- An offset that is read has its digits in one of the forms without a colon. -/
theorem offsetForm_of_offsetMinutes? (hsign : isSign sign = true)
    (h : offsetMinutes? digits = some n) :
    OffsetForm (sign :: digits.filter (· ≠ ':')) (signed sign n) := by
  unfold offsetMinutes? at h
  dsimp only at h
  generalize digits.filter (· ≠ ':') = plain at h ⊢
  split at h
  · next hlength =>
    simp only [Option.bind_eq_bind, Option.bind_eq_some_iff] at h
    obtain ⟨hours, hhours, _, hpair, h⟩ := h
    cases hpair
    split at h
    · next hrange =>
      cases h
      rw [eq_padded_of_digits? hhours, hlength]
      exact .hours hsign hrange.1
    · cases h
  · next hlength =>
    simp only [Option.bind_eq_bind, Option.bind_eq_some_iff] at h
    obtain ⟨hours, hhours, minutes, hminutes, _, hpair, h⟩ := h
    cases hpair
    split at h
    · next hrange =>
      cases h
      have htake : plain.take 2 = padded 2 hours := by
        rw [eq_padded_of_digits? hhours, List.length_take, hlength]
        rfl
      have hdrop : plain.drop 2 = padded 2 minutes := by
        rw [eq_padded_of_digits? hminutes, List.length_drop, hlength]
      rw [← List.take_append_drop 2 plain, htake, hdrop]
      have hform := OffsetForm.minutes hsign hrange.1 (.inl rfl) hrange.2
      rwa [List.append_nil] at hform
    · cases h
  · cases h

/-- What stands after the sign of an offset is digits and colons, and is read as its minutes. -/
theorem OffsetForm.offsetMinutes?_eq (h : OffsetForm (sign :: digits) m)
    (hsign : isSign sign = true) :
    (∀ c ∈ digits, c.isDigit = true ∨ c = ':') ∧
      ∃ minutes, offsetMinutes? digits = some minutes ∧ m = signed sign minutes := by
  cases h with
  | universal hmark => rcases hmark with rfl | rfl <;> cases hsign
  | hours _ hhours =>
    exact ⟨fun c hc => .inl (isDigit_of_mem_padded c hc), _, offsetMinutes?_hours hhours, rfl⟩
  | minutes _ hhours hcolon hminutes =>
    exact ⟨fun c hc => mem_offsetDigits hcolon hc, _,
      offsetMinutes?_minutes hhours hcolon hminutes, rfl⟩

/-- Colons do not matter to an offset. -/
theorem offsetMinutes?_filter (digits : List Char) :
    offsetMinutes? (digits.filter (· ≠ ':')) = offsetMinutes? digits := by
  unfold offsetMinutes?
  rw [List.filter_filter]
  simp only [Bool.and_self]

/-- An offset that is read has nothing but digits and colons after its sign. -/
theorem isDigit_or_colon_of_filter (hsign : isSign sign = true)
    (h : OffsetForm (sign :: digits.filter (· ≠ ':')) m) :
    ∀ c ∈ digits, c.isDigit = true ∨ c = ':' := by
  intro c hc
  by_cases hcolon : c = ':'
  · exact .inr hcolon
  · exact (h.offsetMinutes?_eq hsign).1 c (List.mem_filter.mpr ⟨hc, by simpa using hcolon⟩)

/-- A clock time and an offset are separated where the offset begins, also with colons in it. -/
theorem AcceptedOffset.clockAndOffset?_eq {offset : List Char} (hoffset : AcceptedOffset offset m)
    (hclock : ClockForm clock n) : clockAndOffset? (clock ++ offset) = some (clock, m) := by
  cases hoffset with
  | written h => exact Time.clockAndOffset?_eq hclock h
  | colons hsign h =>
    obtain ⟨minutes, hminutes, rfl⟩ := (h.offsetMinutes?_eq hsign).2
    rw [offsetMinutes?_filter] at hminutes
    refine clockAndOffset?_signed hsign (fun c hc => ?_) hminutes
    exact (isDigit_or_colon_of_filter hsign h c hc).imp_right .inl

/-- The text before an offset that is read and the offset make up the text. -/
theorem exists_acceptedOffset (h : clockAndOffset? s = some (clock, m)) :
    ∃ offset, s = clock ++ offset ∧ AcceptedOffset offset m := by
  unfold clockAndOffset? at h
  split at h
  · next rest hreverse =>
    cases h
    exact ⟨['Z'], by simpa using congrArg List.reverse hreverse, .written (.universal (.inl rfl))⟩
  · next rest hreverse =>
    cases h
    exact ⟨['z'], by simpa using congrArg List.reverse hreverse, .written (.universal (.inr rfl))⟩
  · have hparts := List.takeWhile_append_dropWhile (p := fun c => !isSign c) (l := s.reverse)
    have hmark := List.head?_dropWhile_not (fun c => !isSign c) s.reverse
    split at h
    · cases h
      exact ⟨[], (List.append_nil _).symm, .written .none⟩
    · next sign rest hrest =>
      obtain ⟨minutes, hminutes, h⟩ := Option.bind_eq_some_iff.mp h
      cases h
      rw [hrest] at hparts hmark
      have hsign : isSign sign = true := by simpa using hmark
      refine ⟨sign :: (s.reverse.takeWhile fun c => !isSign c).reverse, ?_,
        .colons hsign (offsetForm_of_offsetMinutes? hsign hminutes)⟩
      simpa using (congrArg List.reverse hparts).symm

/-! ## Timestamps -/

/-- The accepted forms are what is read part by part. -/
theorem hasParts_iff_acceptedForm {date : Date} :
    HasParts s date n m ↔ AcceptedForm s date n m := by
  constructor
  · intro h
    cases h with
    | date hdate =>
      obtain ⟨-, hvalid, hyear⟩ := date?_eq_some hdate
      rw [eq_dateText_of_date? hdate]
      exact .date hyear hvalid
    | moment hdate hseparator hoffset hclock =>
      obtain ⟨-, hvalid, hyear⟩ := date?_eq_some hdate
      obtain ⟨offset, rfl, haccepted⟩ := exists_acceptedOffset hoffset
      rw [eq_dateText_of_date? hdate]
      exact .moment hyear hvalid hseparator (clockForm_of_clock? hclock) haccepted
  · intro h
    cases h with
    | date hyear hvalid => exact .date (date?_dateText hyear hvalid)
    | moment hyear hvalid hseparator hclock hoffset =>
      exact .moment (date?_dateText hyear hvalid) hseparator (hoffset.clockAndOffset?_eq hclock)
        hclock.clock?_eq

/-! ## Colons in place -/

/-- A text without signs that ends another one stands after the last sign of it. -/
theorem exists_middle_of_sign {front left right : List Char} (hsign : isSign sign = true)
    (hright : ∀ c ∈ right, isSign c = false) (h : front ++ sign :: digits = left ++ right) :
    ∃ middle, digits = middle ++ right := by
  have hnot : sign ∉ right := by
    intro hmem
    rw [hright sign hmem] at hsign
    cases hsign
  rcases List.append_eq_append_iff.mp h with ⟨between, -, hbetween⟩ | ⟨between, -, hbetween⟩
  · cases between with
    | nil =>
      rw [List.nil_append] at hbetween
      exact absurd (hbetween ▸ List.mem_cons_self ..) hnot
    | cons first middle =>
      cases hbetween
      exact ⟨middle, rfl⟩
  · exact absurd (by simp [hbetween]) hnot

/-- The digits and colons after the last sign of a text are determined by the text. -/
theorem eq_of_sign {front front' digits' : List Char} {sign' : Char} (hsign : isSign sign = true)
    (hsign' : isSign sign' = true) (hdigits : ∀ c ∈ digits, isSign c = false)
    (hdigits' : ∀ c ∈ digits', isSign c = false)
    (h : front ++ sign :: digits = front' ++ sign' :: digits') : digits = digits' := by
  have hright : front ++ sign :: digits = (front' ++ [sign']) ++ digits' := by simpa using h
  have hright' : front' ++ sign' :: digits' = (front ++ [sign]) ++ digits := by simpa using h.symm
  obtain ⟨middle, hmiddle⟩ := exists_middle_of_sign hsign hdigits' hright
  obtain ⟨middle', hmiddle'⟩ := exists_middle_of_sign hsign' hdigits hright'
  have hlength := congrArg List.length hmiddle
  have hlength' := congrArg List.length hmiddle'
  rw [List.length_append] at hlength hlength'
  have hnil : middle = [] := List.length_eq_zero_iff.mp (by omega)
  rw [hmiddle, hnil, List.nil_append]

/-- Neither a digit nor a colon can be taken for the sign of an offset. -/
theorem isSign_of_isDigit_or_colon {c : Char} (h : c.isDigit = true ∨ c = ':') :
    isSign c = false := by
  have hclock : InClock c := h.imp_right .inl
  simpa using hclock.plain.1

/-- An offset in one of its forms has its colon in place. -/
theorem OffsetForm.colonInPlace (h : OffsetForm (sign :: digits) m) (hsign : isSign sign = true) :
    ColonInPlace digits := by
  cases h with
  | universal hmark => rcases hmark with rfl | rfl <;> cases hsign
  | hours => exact .inl (not_mem_padded rfl _ _)
  | @minutes _ hours minutes colon _ hhours hcolon hminutes =>
    have hnot : ':' ∉ padded 2 hours ++ padded 2 minutes :=
      fun hc => (List.mem_append.mp hc).elim (not_mem_padded rfl _ _) (not_mem_padded rfl _ _)
    rcases hcolon with rfl | rfl
    · rw [List.append_nil]
      exact .inl hnot
    · refine .inr ⟨padded 2 hours, padded 2 minutes, by simp, ?_, ?_, hnot⟩
      · exact length_padded (by decide) (by omega)
      · exact length_padded (by decide) (by omega)

/-- With its colon in place an offset is in one of its forms. -/
theorem ColonInPlace.offsetForm (h : ColonInPlace digits) (hsign : isSign sign = true)
    (hform : OffsetForm (sign :: digits.filter (· ≠ ':')) m) : OffsetForm (sign :: digits) m := by
  have hplain : ∀ s : List Char, ':' ∉ s → s.filter (· ≠ ':') = s := by
    intro s hs
    refine List.filter_eq_self.mpr fun c hc => ?_
    rw [decide_eq_true_eq]
    rintro rfl
    exact hs hc
  rcases h with hnot | ⟨hours, minutes, rfl, hlength, hlength', hnot⟩
  · rwa [hplain digits hnot] at hform
  · rw [List.mem_append, not_or] at hnot
    have hfilter : (hours ++ ':' :: minutes).filter (· ≠ ':') = hours ++ minutes := by
      rw [List.filter_append, hplain hours hnot.1, List.filter_cons_of_neg (by decide),
        hplain minutes hnot.2]
    rw [hfilter] at hform
    generalize hparts : hours ++ minutes = plain at hform
    have hcount := congrArg List.length hparts
    rw [List.length_append, hlength, hlength'] at hcount
    cases hform with
    | universal hmark => rcases hmark with rfl | rfl <;> cases hsign
    | hours _ hhours =>
      rw [length_padded (by decide) (by omega)] at hcount
      cases hcount
    | @minutes _ hourValue minuteValue colon _ hhours hcolon hminutes =>
      have htwo : (padded 2 hourValue).length = 2 := length_padded (by decide) (by omega)
      have htwo' : (padded 2 minuteValue).length = 2 := length_padded (by decide) (by omega)
      rcases hcolon with rfl | rfl
      · rw [List.append_nil] at hparts
        obtain ⟨rfl, rfl⟩ := List.append_inj hparts (hlength.trans htwo.symm)
        have hwritten := OffsetForm.minutes hsign hhours (.inr rfl) hminutes
        rwa [List.append_assoc] at hwritten
      · simp [htwo, htwo'] at hcount

/-- A date is written without a colon. -/
theorem ne_colon_of_mem_dateText {date : Date} {c : Char} (hyear : 0 ≤ date.year)
    (h : c ∈ dateText date) : c ≠ ':' := by
  rintro rfl
  unfold dateText yearText at h
  rw [if_neg (by omega)] at h
  simp [not_mem_padded] at h

/-- An offset has no sign, or it is a sign and then digits and colons. -/
theorem OffsetForm.plain_or_signed (h : OffsetForm s m) :
    (∀ c ∈ s, isSign c = false) ∨
      ∃ sign digits, s = sign :: digits ∧ isSign sign = true ∧ ∀ c ∈ digits, isSign c = false := by
  cases h with
  | none => exact .inl nofun
  | universal hmark =>
    refine .inl (List.forall_mem_singleton.mpr ?_)
    rcases hmark with rfl | rfl <;> decide
  | hours hsign hhours =>
    have hdigits := ((OffsetForm.hours hsign hhours).offsetMinutes?_eq hsign).1
    exact .inr ⟨_, _, rfl, hsign, fun c hc => isSign_of_isDigit_or_colon (hdigits c hc)⟩
  | minutes hsign hhours hcolon hminutes =>
    have hform := OffsetForm.minutes hsign hhours hcolon hminutes
    have hdigits := (hform.offsetMinutes?_eq hsign).1
    exact .inr ⟨_, _, rfl, hsign, fun c hc => isSign_of_isDigit_or_colon (hdigits c hc)⟩

/-- A timestamp in one of its forms has the colons of its offset in place. -/
theorem TimestampForm.colonsInPlace {date : Date} (h : TimestampForm s date n m) :
    ColonsInPlace s := by
  intro front sign digits hs hsign hdigits
  have hplain : ∀ c ∈ digits, isSign c = false :=
    fun c hc => isSign_of_isDigit_or_colon (hdigits c hc)
  cases h with
  | date hyear =>
    refine .inl fun hcolon => ne_colon_of_mem_dateText hyear.1 ?_ rfl
    rw [hs]
    exact List.mem_append_right _ (List.mem_cons_of_mem _ hcolon)
  | @moment date separator clock offset _ _ _ _ hseparator hclock hoffset =>
    rcases hoffset.plain_or_signed with hnone | ⟨sign', digits', rfl, hsign', hplain'⟩
    · -- without an offset the last sign stands before the separator, which is no digit
      have hright : ∀ c ∈ separator :: (clock ++ offset), isSign c = false := by
        intro c hc
        rcases List.mem_cons.mp hc with rfl | hc
        · rcases hseparator with rfl | rfl | rfl <;> decide
        · rcases List.mem_append.mp hc with hc | hc
          · simpa using (hclock.inClock_of_mem hc).plain.1
          · exact hnone c hc
      obtain ⟨middle, rfl⟩ := exists_middle_of_sign hsign hright hs.symm
      have hdigit := hdigits separator (List.mem_append_right _ (List.mem_cons_self ..))
      exact absurd hdigit (by rcases hseparator with rfl | rfl | rfl <;> decide)
    · have hend : front ++ sign :: digits =
          (dateText date ++ separator :: clock) ++ sign' :: digits' := by
        rw [← hs, List.append_assoc, List.cons_append]
      rw [eq_of_sign hsign hsign' hplain hplain' hend]
      exact hoffset.colonInPlace hsign'

/-- An accepted text is a timestamp in one of its forms when its colons are in place. -/
theorem AcceptedForm.timestampForm {date : Date} (h : AcceptedForm s date n m)
    (hcolons : ColonsInPlace s) : TimestampForm s date n m := by
  cases h with
  | date hyear hvalid => exact .date hyear hvalid
  | @moment date separator clock offset _ _ hyear hvalid hseparator hclock hoffset =>
    refine .moment hyear hvalid hseparator hclock ?_
    cases hoffset with
    | written h => exact h
    | @colons sign digits _ hsign h =>
      have hplace := hcolons (dateText date ++ separator :: clock) sign digits
        (by rw [List.append_assoc, List.cons_append]) hsign (isDigit_or_colon_of_filter hsign h)
      exact hplace.offsetForm hsign h

/-- A text is read as an instant exactly when, trimmed, it names the nanoseconds of that instant, and
the instant belongs to the calendar. -/
theorem parse_eq_ok_iff_nanos? (text : String) (t : Instant) :
    Instant.parse text = .ok t ↔
      nanos? (Text.trim text.toList) = some t.nanos ∧ t.InCalendar := by
  rw [Instant.parse_eq_ok_iff, read_eq_instant_iff]

end DocumentStore.Time

namespace DocumentStore

open Time

/-- A text is accepted as a timestamp exactly when, trimmed, it is in one of the accepted forms, and
then it is the instant of its parts, which has to belong to the calendar. It is in one of the forms
of timestamps themselves unless its offset has a colon out of place. -/
theorem Instant.parse_accepts (text : String) (t : Instant) :
    (Instant.parse text = .ok t ↔ (∃ date clock offset,
      AcceptedForm (Text.trim text.toList) date clock offset ∧
        t.nanos = nanosAt date clock offset) ∧ t.InCalendar) ∧
    (Instant.parse text = .ok t →
      ((∃ date clock offset, TimestampForm (Text.trim text.toList) date clock offset) ↔
        ColonsInPlace (Text.trim text.toList))) := by
  have haccepts : Instant.parse text = .ok t ↔ (∃ date clock offset,
      AcceptedForm (Text.trim text.toList) date clock offset ∧
        t.nanos = nanosAt date clock offset) ∧ t.InCalendar := by
    rw [parse_eq_ok_iff_nanos?, nanos?_eq_some_iff]
    simp only [hasParts_iff_acceptedForm]
  refine ⟨haccepts, fun hparse => ⟨?_, fun hcolons => ?_⟩⟩
  · rintro ⟨date, clock, offset, hform⟩
    exact hform.colonsInPlace
  · obtain ⟨⟨date, clock, offset, haccepted, -⟩, -⟩ := haccepts.mp hparse
    exact ⟨date, clock, offset, haccepted.timestampForm hcolons⟩

/-- A date with a clock time that is an hour ahead, blanks before it. -/
theorem Instant.parse_accepts_offset :
    ∃ t, Instant.parse " 2021-01-01T10:00:00+01:00" = .ok t ∧
      ColonsInPlace (Text.trim " 2021-01-01T10:00:00+01:00".toList) := by
  have hform := @TimestampForm.moment ⟨2021, 1, 1⟩ 'T' _ _ _ _ (by decide) (by decide) (.inl rfl)
    (@ClockForm.seconds 10 0 0 (by decide) (by decide) (by decide))
    (@OffsetForm.minutes '+' 1 0 [':'] rfl (by decide) (.inr rfl) (by decide))
  obtain ⟨t, ht⟩ : ∃ t, Instant.parse " 2021-01-01T10:00:00+01:00" = .ok t := ⟨_, rfl⟩
  exact ⟨t, ht, ((Instant.parse_accepts _ t).2 ht).mp ⟨_, _, _, hform⟩⟩

/-- The offset `+0:1` is accepted, but none of the forms of timestamps has it. -/
theorem Instant.parse_strayColon :
    (∃ t, Instant.parse "2021-01-01T10:00:00+0:1" = .ok t) ∧ ∀ date clock offset,
      ¬ TimestampForm (Text.trim "2021-01-01T10:00:00+0:1".toList) date clock offset := by
  refine ⟨⟨_, rfl⟩, fun date clock offset hform => ?_⟩
  have hplace := hform.colonsInPlace "2021-01-01T10:00:00".toList '+' ['0', ':', '1'] (by rfl) rfl
    (by simp)
  rcases hplace with hnot | ⟨hours, minutes, hdigits, hlength, hlength', -⟩
  · exact hnot (by decide)
  · have hcount := congrArg List.length hdigits
    simp [hlength, hlength'] at hcount

end DocumentStore
