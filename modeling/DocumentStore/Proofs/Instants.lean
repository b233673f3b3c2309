import DocumentStore.Proofs.Outcome
import DocumentStore.Time.Instant

/-!
# Instants and the calendar

An instant that is given at an offset may lie before or after the calendar. Its second fits 64 bits all
the same and is stored, but it cannot be written. What is read from a text, and what begins a second
that can be written, lies within the calendar.
-/

set_option autoImplicit false

namespace DocumentStore

open Time

namespace Instant

/-- The second of an instant fits 64 bits, in the calendar and outside. -/
theorem toInt_seconds (t : Instant) : t.seconds.toInt = t.nanos / nanosPerSecond := by
  have hfirst := t.first_le
  have hend := t.lt_end
  unfold firstSecond greatestOffset nanosPerSecond at hfirst
  unfold lastSecond greatestOffset nanosPerSecond at hend
  unfold seconds nanosPerSecond
  apply Int64.toInt_ofInt_of_le <;> omega

/-- An instant belongs to the calendar exactly when its stored second does. -/
theorem inCalendar_iff (t : Instant) : t.InCalendar ↔ Time.InCalendar t.seconds.toInt := by
  rw [t.toInt_seconds]
  rfl

/-- The stored second of an instant is the one in which it lies. -/
theorem seconds_bounds (t : Instant) :
    t.seconds.toInt * nanosPerSecond ≤ t.nanos ∧
      t.nanos < (t.seconds.toInt + 1) * nanosPerSecond := by
  rw [t.toInt_seconds, nanosPerSecond]
  omega

/-- Nanoseconds are those of an instant of the calendar when they lie in one of its seconds. -/
theorem ofNanos?_eq_some_iff (nanos : Int) (t : Instant) :
    ofNanos? nanos = some t ↔ t.nanos = nanos ∧ t.InCalendar := by
  unfold ofNanos?
  constructor
  · intro h
    split at h
    · next hcalendar =>
      cases h
      exact ⟨rfl, hcalendar⟩
    · cases h
  · rintro ⟨rfl, hcalendar⟩
    exact dif_pos hcalendar

/-- Nanoseconds of the calendar are those of an instant. -/
theorem exists_ofNanos? {nanos : Int} (h : Time.InCalendar (nanos / nanosPerSecond)) :
    ∃ t : Instant, t.nanos = nanos ∧ ofNanos? nanos = some t := by
  obtain ⟨t, ht⟩ : ∃ t, ofNanos? nanos = some t := ⟨_, dif_pos h⟩
  exact ⟨t, ((ofNanos?_eq_some_iff nanos t).mp ht).1, ht⟩

/-- Nanoseconds outside the calendar are those of no instant of it. -/
theorem ofNanos?_eq_none_iff (nanos : Int) :
    ofNanos? nanos = none ↔ ¬ Time.InCalendar (nanos / nanosPerSecond) := by
  unfold ofNanos?
  split
  · next h => simp [h]
  · next h => simp [h]

/-- Every second of the calendar has a beginning. -/
theorem exists_ofSeconds {second : Int64} (h : Time.InCalendar second.toInt) :
    ∃ t : Instant, t.nanos = second.toInt * nanosPerSecond ∧ ofSeconds second = .ok t := by
  have hsecond : second.toInt * nanosPerSecond / nanosPerSecond = second.toInt :=
    Int.mul_ediv_cancel _ (by decide)
  obtain ⟨t, hnanos, ht⟩ := exists_ofNanos? (show Time.InCalendar (_ / _) by rwa [hsecond])
  refine ⟨t, hnanos, ?_⟩
  unfold ofSeconds
  rw [ht]

/-- A second outside the calendar is refused. -/
theorem ofSeconds_eq_error {second : Int64} (h : ¬ Time.InCalendar second.toInt) :
    ofSeconds second = .error (.validation (.timestampRange second)) := by
  have hsecond : second.toInt * nanosPerSecond / nanosPerSecond = second.toInt :=
    Int.mul_ediv_cancel _ (by decide)
  unfold ofSeconds ofNanos?
  rw [dif_neg (by rwa [hsecond])]

end Instant

namespace Time

/-- A text that names nanoseconds is read as their instant in the calendar. -/
theorem read_eq_instant_iff (text : String) (t : Instant) :
    read text = .instant t ↔ nanos? (Text.trim text.toList) = some t.nanos ∧ t.InCalendar := by
  unfold read
  cases nanos? (Text.trim text.toList) with
  | none => simp
  | some nanos =>
    have hof := Instant.ofNanos?_eq_some_iff nanos t
    cases hread : Instant.ofNanos? nanos with
    | none => simpa [hread, eq_comm] using hof
    | some found => simpa [hread, eq_comm] using hof

/-- A text that names nanoseconds of the calendar is read as an instant. -/
theorem exists_read {text : String} {nanos : Int} (hread : nanos? (Text.trim text.toList) = some nanos)
    (h : InCalendar (nanos / nanosPerSecond)) :
    ∃ t : Instant, t.nanos = nanos ∧ read text = .instant t := by
  obtain ⟨t, hnanos, ht⟩ := Instant.exists_ofNanos? h
  refine ⟨t, hnanos, ?_⟩
  unfold read
  rw [hread]
  dsimp only
  rw [ht]

/-- What is read of a text belongs to the calendar. -/
theorem inCalendar_of_read {text : String} {t : Instant} (h : read text = .instant t) :
    t.InCalendar :=
  ((read_eq_instant_iff text t).mp h).2

/-! ## Seconds that are written -/

/-- What is written of a second after the calendar has been asked for it. -/
theorem checked_eq {α : Type} (second : Int64) (a : α) :
    (discard (Instant.ofSeconds second) >>= fun _ => pure a : Except Error α) =
      if InCalendar second.toInt then .ok a else .error (.validation (.timestampRange second)) := by
  split
  · next h =>
    obtain ⟨t, -, ht⟩ := Instant.exists_ofSeconds h
    rw [ht]
    rfl
  · next h =>
    rw [Instant.ofSeconds_eq_error h]
    rfl

/-- A second of the calendar is written in ISO form, any other one is refused. -/
theorem isoText_eq (second : Int64) : isoText second =
    if InCalendar second.toInt then .ok (String.ofList (secondText 'T' second.toInt))
    else .error (.validation (.timestampRange second)) :=
  checked_eq second _

/-- A second of the calendar is written in the form of SQL, any other one is refused. -/
theorem sqlText_eq (second : Int64) : sqlText second =
    if InCalendar second.toInt then .ok (String.ofList (secondText ' ' second.toInt))
    else .error (.validation (.timestampRange second)) :=
  checked_eq second _

end Time

end DocumentStore
