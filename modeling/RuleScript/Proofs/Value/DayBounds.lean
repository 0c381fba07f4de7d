import RuleScript.Proofs.Calendar.Civil
import RuleScript.Proofs.Value.Moments

/-! The bounds of a day.

A day starts with its first millisecond in UTC and finishes with its last one. A date-time belongs to the day on its own
clock, to the nanosecond. So the bounds of a day hold the date-times that equal it where the day on their clock is the
one in UTC, but for what is left of the last millisecond once that has begun.
-/

set_option autoImplicit false

namespace RuleScript

open Calendar (Instant)

namespace Date

def Spans (d : Date) (t : DateTime) : Prop :=
  (Moment.dateTime t).order (.dateTime d.start) ≠ .lt ∧ (Moment.dateTime t).order (.dateTime d.finish) ≠ .gt

/-- In the last second of the day in UTC, but later than the start of its last millisecond. A leap second at the end of
the day is a part of that second. -/
def Trails (d : Date) (t : DateTime) : Prop :=
  t.instant.seconds = d.finish.instant.seconds ∧ d.finish.instant.nanos < t.instant.nanos

variable {d next : Date} {t : DateTime}

theorem start_seconds (d : Date) : d.start.instant.seconds = d.day.number * 86400 := by
  simp [start, DateTime.ofInstant, Instant.ofLocal, Calendar.secondsPerDay]

theorem finish_seconds (d : Date) : d.finish.instant.seconds = d.day.number * 86400 + 86399 := by
  simp [finish, DateTime.ofInstant, Instant.ofLocal, Calendar.secondsPerDay]

theorem before_start_iff :
    (Moment.dateTime t).order (.dateTime d.start) = .lt ↔ t.instant.seconds < d.day.number * 86400 := by
  have nanos : d.start.instant.nanos = 0 := rfl
  rw [Moment.order, Moment.instant_compare_lt_iff, start_seconds, nanos]
  omega

theorem not_after_finish_iff : (Moment.dateTime t).order (.dateTime d.finish) ≠ .gt ↔
    t.instant.seconds < d.day.number * 86400 + 86399 ∨
      t.instant.seconds = d.day.number * 86400 + 86399 ∧ t.instant.nanos ≤ 999000000 := by
  have nanos : d.finish.instant.nanos = 999000000 := rfl
  rw [Moment.order, Moment.instant_compare_ne_gt_iff, finish_seconds, nanos]

theorem after_finish_iff : (Moment.dateTime t).order (.dateTime d.finish) = .gt ↔
    d.day.number * 86400 + 86399 < t.instant.seconds ∨
      t.instant.seconds = d.day.number * 86400 + 86399 ∧ 999000000 < t.instant.nanos := by
  rw [← Decidable.not_iff_not, ← ne_eq, not_after_finish_iff]
  omega

theorem trails_iff :
    d.Trails t ↔ t.instant.seconds = d.day.number * 86400 + 86399 ∧ 999000000 < t.instant.nanos := by
  have nanos : d.finish.instant.nanos = 999000000 := rfl
  rw [Trails, finish_seconds, nanos]

/-- With what trails it, the span of a day is the day in UTC. -/
theorem spans_or_trails_iff : d.Spans t ∨ d.Trails t ↔ t.instant.utcDay = d.day := by
  have day : t.instant.utcDay = d.day ↔ t.instant.seconds / 86400 = d.day.number := Calendar.Day.eq_iff
  rw [Spans, ne_eq, before_start_iff, not_after_finish_iff, trails_iff, day]
  omega

theorem equals_iff : (Moment.dateTime t).order (.date d) = .eq ↔ t.instant.localDay = d.day := by
  rw [Moment.order_date_right, Int.compare_eq_eq, Calendar.Day.eq_iff]
  rfl

theorem days_agree_of_utc (utc : t.instant.offset = 0) : t.instant.localDay = t.instant.utcDay := by
  rw [Instant.localDay, utc, Int.add_zero, Instant.utcDay]

theorem date_start (d : Date) : d.start.date = d := by
  have day : d.start.instant.localDay = d.day := by
    rw [days_agree_of_utc rfl, ← spans_or_trails_iff, Spans, ne_eq, before_start_iff, not_after_finish_iff, start_seconds]
    omega
  rw [DateTime.date, day]
  rfl

theorem date_finish (d : Date) : d.finish.date = d := by
  have day : d.finish.instant.localDay = d.day := by
    have nanos : d.finish.instant.nanos = 999000000 := rfl
    rw [days_agree_of_utc rfl, ← spans_or_trails_iff, Spans, ne_eq, before_start_iff, not_after_finish_iff, finish_seconds,
      nanos]
    omega
  rw [DateTime.date, day]
  rfl

theorem number_of_shift?_one (following : d.shift? 1 = some next) : next.day.number = d.day.number + 1 := by
  obtain ⟨day, shifted, rfl⟩ := Option.map_eq_some_iff.mp following
  simp only [Calendar.Day.shift?] at shifted
  split at shifted
  · cases shifted
    rfl
  · cases shifted

/-- What lies between a day and the start of the following one trails the day. -/
theorem between_iff (following : d.shift? 1 = some next) :
    (Moment.dateTime t).order (.dateTime d.finish) = .gt ∧ (Moment.dateTime t).order (.dateTime next.start) = .lt ↔
      d.Trails t := by
  rw [after_finish_iff, before_start_iff, number_of_shift?_one following, trails_iff]
  omega

theorem not_trails (millis : t.instant.nanos % 1000000 = 0) (regular : t.instant.nanos < Calendar.nanosPerSecond) :
    ¬ d.Trails t := by
  rw [trails_iff]
  simp only [Calendar.nanosPerSecond] at regular
  omega

/-- The bounds of a day hold the date-times that compare equal to it, as long as the day on their own clock is their
day in UTC, but for what trails the last millisecond of the day.

A date-time whose own day is not the one in UTC is never within the bounds of the day that it equals. Both bounds are on
their day. Between two days there is only what trails the first one, and that is nothing at whole milliseconds and out
of leap seconds. -/
theorem bounds_hold_equals :
    (∀ (a b : Moment) memory, a.value.compare b.value memory = (.ok (.ofOrdering (a.order b)), memory)) ∧
    (∀ (d : Date) (t : DateTime), t.instant.localDay = t.instant.utcDay →
      ((Moment.dateTime t).order (.date d) = .eq ↔ d.Spans t ∨ d.Trails t)) ∧
    (∀ (d : Date) (t : DateTime), t.instant.localDay ≠ t.instant.utcDay → (Moment.dateTime t).order (.date d) = .eq →
      ¬ (d.Spans t ∨ d.Trails t)) ∧
    (∀ t : DateTime, t.instant.offset = 0 → t.instant.localDay = t.instant.utcDay) ∧
    (∀ (d : Date) (t : DateTime), t.instant.nanos % 1000000 = 0 → t.instant.nanos < Calendar.nanosPerSecond →
      ¬ d.Trails t) ∧
    (∀ d : Date, d.start.date = d ∧ d.finish.date = d) ∧
    ∀ d next : Date, d.shift? 1 = some next → ∀ t,
      (Moment.dateTime t).order (.dateTime d.finish) = .gt ∧ (Moment.dateTime t).order (.dateTime next.start) = .lt ↔
        d.Trails t := by
  refine ⟨Moment.compare_value, ?_, ?_, fun _ => days_agree_of_utc, fun _ _ => not_trails,
    fun d => ⟨d.date_start, d.date_finish⟩, fun _ _ following _ => between_iff following⟩
  · intro d t agree
    rw [equals_iff, spans_or_trails_iff, agree]
  · intro d t differ equal within
    rw [equals_iff] at equal
    -- The date would be the day in UTC and also the day on the own clock.
    rw [spans_or_trails_iff] at within
    exact differ (equal.trans within.symm)

/-- An afternoon two hours east of UTC, half an hour after midnight there, and the start of the day, in UTC. -/
theorem bounds_hold_equals_east :
    let leapDay : Date := ⟨⟨19782⟩, none⟩
    let march : Date := ⟨⟨19783⟩, none⟩
    let afternoon : DateTime := ⟨"2024-02-29T14:00:00+02:00", ⟨1709208000, 0, 7200⟩, none⟩
    let night : DateTime := ⟨"2024-03-01T00:30:00+02:00", ⟨1709245800, 0, 7200⟩, none⟩
    (leapDay.Spans afternoon ∨ leapDay.Trails afternoon) ∧ ¬ leapDay.Trails afternoon ∧
      ¬ (march.Spans night ∨ march.Trails night) ∧
      ¬ ((Moment.dateTime night).order (.dateTime leapDay.finish) = .gt ∧
        (Moment.dateTime night).order (.dateTime march.start) = .lt) ∧
      leapDay.start.instant.localDay = leapDay.start.instant.utcDay := by
  intro leapDay march afternoon night
  obtain ⟨-, within, without, utc, regular, -, between⟩ := bounds_hold_equals
  have noTrail : ∀ t : DateTime, t.instant.nanos = 0 → ¬ leapDay.Trails t := fun t whole =>
    regular leapDay t (by rw [whole]) (by rw [whole]; decide)
  refine ⟨(within leapDay afternoon (by decide)).mp (by decide), noTrail afternoon rfl,
    without march night (by decide) (by decide), ?_, utc leapDay.start rfl⟩
  rw [between leapDay march rfl night]
  exact noTrail night rfl

/-- A moment after midnight one hour east of UTC lies within the bounds of the day before and does not equal it. One in
the middle of the last millisecond of a day, and a leap second, equal the day and lie after its end, before the next
day starts. -/
theorem bounds_miss_equals :
    let newYear : Date := ⟨⟨19723⟩, none⟩
    let second : Date := ⟨⟨19724⟩, none⟩
    let east : DateTime := ⟨"2024-01-02T00:30:00+01:00", ⟨1704151800, 0, 3600⟩, none⟩
    let late : DateTime := ⟨"2024-01-01T23:59:59.9995Z", ⟨1704153599, 999500000, 0⟩, none⟩
    let leap : DateTime := ⟨"2024-01-01T23:59:60Z", ⟨1704153599, 1000000000, 0⟩, none⟩
    (∀ t ∈ [east, late, leap], DateTime.read? t.text none = some t) ∧
    Date.read? "2024-01-01" none = some newYear ∧ newYear.shift? 1 = some second ∧
    (newYear.Spans east ∧ (Moment.dateTime east).order (.date newYear) = .gt) ∧
    ∀ t ∈ [late, leap], (Moment.dateTime t).order (.date newYear) = .eq ∧ ¬ newYear.Spans t ∧
      (Moment.dateTime t).order (.dateTime newYear.finish) = .gt ∧
      (Moment.dateTime t).order (.dateTime second.start) = .lt := by
  refine ⟨by decide +kernel, by decide +kernel, rfl, ⟨⟨by decide, by decide⟩, by decide⟩, ?_⟩
  refine List.forall_mem_cons.mpr ⟨⟨by decide, ?_, by decide, by decide⟩, List.forall_mem_singleton.mpr ⟨by decide, ?_,
    by decide, by decide⟩⟩
  · exact fun spans => spans.2 (by decide)
  · exact fun spans => spans.2 (by decide)

end Date

end RuleScript
