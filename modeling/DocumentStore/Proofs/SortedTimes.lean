import DocumentStore.Predicate.Sql
import DocumentStore.Proofs.ByteOrder
import DocumentStore.Proofs.DigitOrder
import DocumentStore.Proofs.NamedInstants

/-!
# The order of the texts of seconds

From year zero on the text of a second has each of its numbers in a fixed place: four digits of the
year, then two for each part down to the seconds. A later second is later in the first part that
differs, and has a greater number there, so that its text comes later in the order of the bytes. The
text also names that second when it is read.
-/

set_option autoImplicit false

namespace DocumentStore.Time

/-! ## Dates in the order of the calendar -/

/-- If a month comes before another one, then so do all of its days. -/
theorem totalLength_take_of_lt {lengths : List Nat} {i j length : Nat}
    (hi : lengths[i]? = some length) (h : i < j) :
    totalLength (lengths.take i) + length ≤ totalLength (lengths.take j) := by
  have hwithin : (lengths.take j)[i]? = some length := by rw [List.getElem?_take_of_lt h, hi]
  have htotal := totalLength_take_le hwithin
  rwa [List.take_take, Nat.min_eq_left h.le] at htotal

namespace Date

variable {a b : Date}

/-- A date comes before another one: the first of year, month and day in which they differ is
smaller. -/
def Before (a b : Date) : Prop :=
  a.year < b.year ∨ a.year = b.year ∧ (a.month < b.month ∨ a.month = b.month ∧ a.day < b.day)

/-- Of two dates of the calendar the one with the smaller number comes first. -/
theorem before_of_dayNumber_lt (ha : a.isValid = true) (hb : b.isValid = true)
    (h : a.dayNumber < b.dayNumber) : a.Before b := by
  obtain ⟨hlow, hhigh⟩ := dayNumber_bounds ha
  obtain ⟨hlow', hhigh'⟩ := dayNumber_bounds hb
  rcases lt_trichotomy a.year b.year with hyear | hyear | hyear
  · exact .inl hyear
  · obtain ⟨month, length, hmonth, hlength, hday⟩ := position_of_isValid ha
    obtain ⟨month', length', hmonth', hlength', hday'⟩ := position_of_isValid hb
    unfold dayNumber at h
    rw [hmonth, hmonth', hyear, Nat.add_sub_cancel, Nat.add_sub_cancel] at h
    rw [hyear] at hlength
    refine .inr ⟨hyear, ?_⟩
    rcases lt_trichotomy month month' with hless | rfl | hmore
    · exact .inl (by omega)
    · exact .inr ⟨by omega, by omega⟩
    · have hpassed := totalLength_take_of_lt hlength' hmore
      omega
  · have hmono := daysBeforeYear_mono (Int.add_one_le_of_lt hyear)
    omega

end Date

/-- Dates with years of four digits are ordered as texts, whatever follows them. -/
theorem dateText_append_lt {a b : Date} (ha : 0 ≤ a.year) (hb : 0 ≤ b.year ∧ b.year ≤ 9999)
    (hvalid : b.isValid = true) (h : a.Before b) (u v : List Char) :
    dateText a ++ u < dateText b ++ v := by
  obtain ⟨hmonth, hday⟩ := Date.lt_of_isValid hvalid
  unfold dateText yearText
  rw [if_neg (by omega), if_neg (by omega)]
  simp only [List.append_assoc, List.cons_append]
  rcases h with hyear | ⟨hyear, hmonths | ⟨hmonths, hdays⟩⟩
  · exact padded_append_lt (by omega) (by omega) _ _
  · rw [hyear]
    exact append_cons_lt (padded_append_lt hmonths hmonth _ _)
  · rw [hyear, hmonths]
    exact append_cons_lt (append_cons_lt (padded_append_lt hdays hday _ _))

/-! ## Seconds -/

/-- The seconds of a day are ordered as texts. -/
theorem clockText_lt {m n : Nat} (h : m < n) (hn : n < 86400) : clockText m < clockText n := by
  have hparts : m / 3600 < n / 3600 ∨ m / 3600 = n / 3600 ∧
      (m / 60 % 60 < n / 60 % 60 ∨ m / 60 % 60 = n / 60 % 60 ∧ m % 60 < n % 60) := by omega
  unfold clockText
  simp only [List.append_assoc, List.cons_append]
  rcases hparts with hhour | ⟨hhour, hminute | ⟨hminute, hsecond⟩⟩
  · exact padded_append_lt hhour (by omega) _ _
  · rw [hhour]
    exact append_cons_lt (padded_append_lt hminute (by omega) _ _)
  · have hless := @padded_append_lt _ _ 2 hsecond (by omega) [] []
    rw [List.append_nil, List.append_nil] at hless
    rw [hhour, hminute]
    exact append_cons_lt (append_cons_lt hless)

/-- Later seconds have later texts, the years having four digits. -/
theorem secondText_lt (separator : Char) {s t : Int} (hlow : yearZero ≤ s) (hhigh : t ≤ lastSecond)
    (h : s < t) : secondText separator s < secondText separator t := by
  have hyears := year_of_second hlow (h.le.trans hhigh)
  have hyears' := year_of_second (hlow.trans h.le) hhigh
  unfold secondText
  rcases lt_or_eq_of_le (show s / 86400 ≤ t / 86400 by omega) with hday | hday
  · refine dateText_append_lt hyears.1 hyears' (Date.isValid_ofDayNumber _) ?_ _ _
    refine Date.before_of_dayNumber_lt (Date.isValid_ofDayNumber _) (Date.isValid_ofDayNumber _) ?_
    rwa [Date.dayNumber_ofDayNumber, Date.dayNumber_ofDayNumber]
  · rw [hday]
    exact append_cons_lt (clockText_lt (by omega) (by omega))

/-- The texts of seconds are in the order of the seconds, the years having four digits. -/
theorem secondText_lt_iff (separator : Char) {s t : Int} (hs : yearZero ≤ s ∧ s ≤ lastSecond)
    (ht : yearZero ≤ t ∧ t ≤ lastSecond) :
    secondText separator s < secondText separator t ↔ s < t := by
  constructor
  · intro h
    rcases lt_trichotomy s t with hlt | rfl | hgt
    · exact hlt
    · exact absurd h (lt_irrefl _)
    · exact absurd h (lt_asymm (secondText_lt separator ht.1 hs.2 hgt))
  · exact secondText_lt separator hs.1 ht.2

/-- The second lies on a day from the first of January of year zero to the last of December of the
year 9999. -/
def InFourDigitYears (second : Int) : Prop :=
  ∃ first last : Int, (Date.mk 0 1 1).Counts first ∧ (Date.mk 9999 12 31).Counts last ∧
    first * 86400 ≤ second ∧ second < (last + 1) * 86400

/-- The years of four digits are those from the first to the last second. -/
theorem inFourDigitYears_iff {second : Int} :
    InFourDigitYears second ↔ yearZero ≤ second ∧ second ≤ lastSecond := by
  have hfirst : (Date.mk 0 1 1).dayNumber * 86400 = yearZero := by decide
  have hlast : ((Date.mk 9999 12 31).dayNumber + 1) * 86400 = lastSecond + 1 := by decide
  constructor
  · rintro ⟨first, last, hcounts, hcounts', hlow, hhigh⟩
    obtain ⟨-, rfl⟩ := Date.counts_iff.mp hcounts
    obtain ⟨-, rfl⟩ := Date.counts_iff.mp hcounts'
    omega
  · rintro ⟨hlow, hhigh⟩
    exact ⟨_, _, Date.counts_iff.mpr ⟨by decide, rfl⟩, Date.counts_iff.mpr ⟨by decide, rfl⟩,
      by omega, by omega⟩

/-- The years of four digits lie in the calendar. -/
theorem InFourDigitYears.mem_calendar {second : Int} (h : InFourDigitYears second) :
    firstSecond ≤ second ∧ second ≤ lastSecond := by
  rw [inFourDigitYears_iff] at h
  unfold yearZero at h
  unfold firstSecond
  omega

/-- The text of a second is accepted as the beginning of the second. -/
theorem InFourDigitYears.parse_secondText {separator : Char} {second : Int}
    (h : InFourDigitYears second) (hseparator : separator = 'T' ∨ separator = ' ') :
    ∃ t, Instant.parse (String.ofList (secondText separator second)) = .ok t ∧
      t.nanos = second * nanosPerSecond := by
  obtain ⟨hlow, hhigh⟩ := inFourDigitYears_iff.mp h
  obtain ⟨t, ht, hread⟩ := read_secondText hseparator hlow hhigh
  refine ⟨t, ?_, ht⟩
  unfold Instant.parse Instant.ofText
  rw [hread]

/-- The texts of seconds are in the order of the seconds also byte by byte. -/
theorem InFourDigitYears.bytes_secondText_lt_iff {s t : Int} (hs : InFourDigitYears s)
    (ht : InFourDigitYears t) (separator : Char) :
    Text.bytes (String.ofList (secondText separator s)) <
      Text.bytes (String.ofList (secondText separator t)) ↔ s < t := by
  rw [← Text.lt_iff_bytes_lt, String.lt_iff_toList_lt, String.toList_ofList, String.toList_ofList]
  exact secondText_lt_iff separator (inFourDigitYears_iff.mp hs) (inFourDigitYears_iff.mp ht)

/-! ## Rendering -/

/-- A second is written in ISO form exactly when it belongs to the calendar. -/
theorem isoText_eq_ok_iff {second : Int64} {text : String} :
    isoText second = .ok text ↔ (firstSecond ≤ second.toInt ∧ second.toInt ≤ lastSecond) ∧
      text = String.ofList (secondText 'T' second.toInt) := by
  rw [isoText_eq]
  split
  · next h => simp [h.1, h.2, eq_comm]
  · next h => exact iff_of_false (by simp) fun hboth => h hboth.1

/-- A second is written in the form of SQL exactly when it belongs to the calendar. -/
theorem sqlText_eq_ok_iff {second : Int64} {text : String} :
    sqlText second = .ok text ↔ (firstSecond ≤ second.toInt ∧ second.toInt ≤ lastSecond) ∧
      text = String.ofList (secondText ' ' second.toInt) := by
  rw [sqlText_eq]
  split
  · next h => simp [h.1, h.2, eq_comm]
  · next h => exact iff_of_false (by simp) fun hboth => h hboth.1

/-- Both forms write the second, and differ in the separator only. -/
theorem exists_separator {render : Int64 → Except Error String}
    (h : render = isoText ∨ render = sqlText) :
    ∃ separator, (separator = 'T' ∨ separator = ' ') ∧ ∀ second text, render second = .ok text ↔
      (firstSecond ≤ second.toInt ∧ second.toInt ≤ lastSecond) ∧
        text = String.ofList (secondText separator second.toInt) := by
  rcases h with rfl | rfl
  · exact ⟨'T', .inl rfl, fun _ _ => isoText_eq_ok_iff⟩
  · exact ⟨' ', .inr rfl, fun _ _ => sqlText_eq_ok_iff⟩

/-- A timestamp literal is written of the same seconds. -/
theorem exists_timestamp_iff (second : Int64) :
    (∃ text, Sql.timestamp second = .ok text) ↔
      firstSecond ≤ second.toInt ∧ second.toInt ≤ lastSecond := by
  unfold Sql.timestamp
  rw [bind_isOk_iff _ _ fun _ => ⟨_, pure_eq_ok _⟩]
  simp only [sqlText_eq_ok_iff, exists_and_left, exists_eq, and_true]

/-- The seconds of the calendar are those that can be written, in either form and as a literal. From
year zero to the year 9999 what is written is read as the beginning of the second again, and is in
the order of the bytes where the second is in time. -/
theorem texts_of_seconds (s t : Int64) :
    ((∃ text, Sql.timestamp s = .ok text) ↔ -377705116800 ≤ s.toInt ∧ s.toInt ≤ 253402300799) ∧
    ∀ render, render = isoText ∨ render = sqlText →
      ((∃ text, render s = .ok text) ↔ -377705116800 ≤ s.toInt ∧ s.toInt ≤ 253402300799) ∧
      (InFourDigitYears s.toInt → ∃ text instant, render s = .ok text ∧
        Instant.parse text = .ok instant ∧ instant.nanos = s.toInt * nanosPerSecond) ∧
      (InFourDigitYears s.toInt → InFourDigitYears t.toInt → ∃ left right,
        render s = .ok left ∧ render t = .ok right ∧
          (s < t ↔ Text.bytes left < Text.bytes right)) := by
  refine ⟨exists_timestamp_iff s, fun render hrender => ?_⟩
  obtain ⟨separator, hseparator, hwrites⟩ := exists_separator hrender
  have hwritten : ∀ {second : Int64}, InFourDigitYears second.toInt →
      render second = .ok (String.ofList (secondText separator second.toInt)) :=
    fun h => (hwrites _ _).mpr ⟨h.mem_calendar, rfl⟩
  refine ⟨?_, fun hs => ?_, fun hs ht => ?_⟩
  · simp only [hwrites, exists_and_left, exists_eq, and_true]
    rfl
  · obtain ⟨instant, hparse, hnanos⟩ := hs.parse_secondText hseparator
    exact ⟨_, instant, hwritten hs, hparse, hnanos⟩
  · refine ⟨_, _, hwritten hs, hwritten ht, ?_⟩
    rw [hs.bytes_secondText_lt_iff ht]
    exact Int64.lt_iff_toInt_lt

/-- The end of the 28th of February 2000 and the beginning of the following day. -/
theorem texts_of_seconds_leapDay :
    isoText 951782399 = .ok "2000-02-28T23:59:59" ∧ isoText 951782400 = .ok "2000-02-29T00:00:00" ∧
      Text.bytes "2000-02-28T23:59:59" < Text.bytes "2000-02-29T00:00:00" := by
  have hs : InFourDigitYears (951782399 : Int64).toInt := inFourDigitYears_iff.mpr (by decide)
  have ht : InFourDigitYears (951782400 : Int64).toInt := inFourDigitYears_iff.mpr (by decide)
  have hleft : isoText 951782399 = .ok "2000-02-28T23:59:59" := by rfl
  have hright : isoText 951782400 = .ok "2000-02-29T00:00:00" := by rfl
  obtain ⟨left, right, hl, hr, horder⟩ :=
    ((texts_of_seconds 951782399 951782400).2 isoText (.inl rfl)).2.2 hs ht
  rw [hleft] at hl
  rw [hright] at hr
  cases hl
  cases hr
  exact ⟨hleft, hright, horder.mp (by decide)⟩

end DocumentStore.Time
