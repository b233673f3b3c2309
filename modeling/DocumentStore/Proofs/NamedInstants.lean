import DocumentStore.Proofs.DayCount
import DocumentStore.Proofs.NormalForm

/-!
# The instants that timestamps name

A timestamp of any form, with blanks around it or without, names the day of its date, counted from
the first of January 1970, with the clock time added and the offset subtracted. It is read as that
instant unless the last day of the year 9999 has ended by then. What is stored of it is the second
in which it lies, also before 1970, where the nanoseconds count backward.
-/

set_option autoImplicit false

namespace DocumentStore

open Time

namespace Time

variable {s before after : List Char} {date : Date} {clock : Nat} {offset : Int}

/-- What a timestamp names is not before the calendar. -/
theorem TimestampForm.firstSecond_le (h : TimestampForm s date clock offset) :
    firstSecond * nanosPerSecond ≤ nanosAt date clock offset := by
  obtain ⟨_, _, _, hparts, hnanos⟩ := (nanos?_eq_some_iff _ _).mp h.nanos?_eq
  rw [hnanos]
  exact hparts.firstSecond_le

/-- A timestamp with blanks around it is read as the instant that it names, within the calendar. -/
theorem TimestampForm.exists_read (h : TimestampForm s date clock offset)
    (hbefore : ∀ c ∈ before, Text.isBlank c = true) (hafter : ∀ c ∈ after, Text.isBlank c = true)
    (hend : nanosAt date clock offset < (lastSecond + 1) * nanosPerSecond) :
    ∃ t : Instant, t.nanos = nanosAt date clock offset ∧
      read (String.ofList (before ++ s ++ after)) = .instant t := by
  have hfirst := h.firstSecond_le
  refine Time.exists_read ?_ ?_
  · rw [String.toList_ofList, h.trim_eq hbefore hafter, h.nanos?_eq]
  · unfold InCalendar nanosPerSecond at *
    omega

/-- The date of a timestamp is one of the calendar. -/
theorem TimestampForm.isValid (h : TimestampForm s date clock offset) : date.isValid = true := by
  cases h <;> assumption

/-- The last second of the calendar is the last one of the year 9999. -/
theorem lastSecond_eq {days : Int} (h : (Date.mk 9999 12 31).Counts days) :
    lastSecond + 1 = (days + 1) * 86400 := by
  have hnumber : (Date.mk 9999 12 31).dayNumber = 2932896 := by decide
  rw [← (Date.counts_iff.mp h).2, hnumber]
  rfl

end Time

/-- Every timestamp is accepted, in every form and with any blanks around it, as long as it names an
instant before the end of the last day of the year 9999. The instant is the day of the date, counted
from the first of January 1970, and the clock time, less the offset; its stored second is the one in
which it lies. -/
theorem Instant.parse_timestamp {s before after : List Char} {date : Date} {clock : Nat}
    {offset : Int} (hform : TimestampForm s date clock offset)
    (hbefore : ∀ c ∈ before, Text.isBlank c = true)
    (hafter : ∀ c ∈ after, Text.isBlank c = true) :
    ∃ days lastDay nanos : Int, date.Counts days ∧ (Date.mk 9999 12 31).Counts lastDay ∧
      nanos = days * 86400 * nanosPerSecond + clock - offset * 60 * nanosPerSecond ∧
      (nanos < (lastDay + 1) * 86400 * nanosPerSecond →
        ∃ t, Instant.parse (String.ofList (before ++ s ++ after)) = .ok t ∧ t.nanos = nanos ∧
          t.seconds.toInt * nanosPerSecond ≤ nanos ∧
          nanos < (t.seconds.toInt + 1) * nanosPerSecond) := by
  have hdays : date.Counts date.dayNumber := Date.counts_iff.mpr ⟨hform.isValid, rfl⟩
  have hlast : (Date.mk 9999 12 31).Counts (Date.mk 9999 12 31).dayNumber :=
    Date.counts_iff.mpr ⟨by decide, rfl⟩
  refine ⟨_, _, nanosAt date clock offset, hdays, hlast, rfl, ?_⟩
  rw [← lastSecond_eq hlast]
  intro hend
  obtain ⟨t, hnanos, hread⟩ := hform.exists_read hbefore hafter hend
  refine ⟨t, ?_, hnanos, hnanos ▸ t.seconds_bounds⟩
  unfold Instant.parse Instant.ofText
  rw [hread]

/-- Half a second before 1970, written with blanks around it, half an hour west of Greenwich. -/
theorem Instant.parse_timestamp_beforeEpoch :
    ∃ t, Instant.parse "\t1969-12-31 23:29:59.5-00:30 \n" = .ok t ∧ t.nanos = -500000000 ∧
      t.seconds = -1 := by
  have hclock := @ClockForm.fraction 23 29 59 1 5 '.' (by decide) (by decide) (by decide)
    (Or.inl rfl) (by decide) (by decide)
  have hoffset := @OffsetForm.minutes '-' 0 30 [':'] rfl (by decide) (Or.inr rfl) (by decide)
  have hform := @TimestampForm.moment ⟨1969, 12, 31⟩ ' ' _ _ _ _ (by decide) (by decide)
    (Or.inr (Or.inr rfl)) hclock hoffset
  have hbefore : ∀ c ∈ ['\t'], Text.isBlank c = true := List.forall_mem_singleton.mpr (by decide)
  have hafter : ∀ c ∈ [' ', '\n'], Text.isBlank c = true :=
    List.forall_mem_cons.mpr ⟨by decide, List.forall_mem_singleton.mpr (by decide)⟩
  obtain ⟨days, lastDay, nanos, hdays, hlast, hnanos, hparse⟩ :=
    Instant.parse_timestamp hform hbefore hafter
  have hday : days = -1 := (Date.counts_iff.mp hdays).2.symm
  have hlastDay : lastDay = 2932896 := (Date.counts_iff.mp hlast).2.symm
  have hhalf : nanos = -500000000 := by
    rw [hnanos, hday]
    decide
  obtain ⟨t, ht, htnanos, -⟩ := hparse (by rw [hhalf, hlastDay]; decide)
  refine ⟨t, ht, htnanos.trans hhalf, ?_⟩
  unfold Instant.seconds
  rw [htnanos, hhalf]
  decide

end DocumentStore
