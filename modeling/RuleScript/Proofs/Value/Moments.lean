import RuleScript.Value.Send

/-! How dates and date-times compare.

Two dates compare by their days and two date-times by their instants. A date and a date-time compare by the date's day
and the day on the date-time's own clock. Any two compare one way or the other, but the three ways make no single order:
a day equals all moments in it, and of two moments the later one may have the earlier day on its clock.
-/

set_option autoImplicit false

namespace RuleScript

open Calendar (Instant)

inductive Moment where
  | date (date : Date)
  | dateTime (dateTime : DateTime)

namespace Moment

def value : Moment → Value
  | date d => .date d
  | dateTime t => .dateTime t

def day : Moment → Int
  | date d => d.day.number
  | dateTime t => t.instant.localDay.number

/-- The instants of two date-times decide, else the days. -/
def order : Moment → Moment → Ordering
  | dateTime t, dateTime u => t.instant.compare u.instant
  | a, b => compare a.day b.day

variable {a b c : Moment} {t u : DateTime} {d : Date}

theorem compare_value (a b : Moment) (memory : Memory) :
    a.value.compare b.value memory = (.ok (.ofOrdering (a.order b)), memory) := by
  cases a <;> cases b <;> rfl

theorem instant_compare_swap (s t : Instant) : (s.compare t).swap = t.compare s := by
  simp [Instant.compare, Ordering.swap_then, Int.compare_swap, Nat.compare_swap]

theorem order_swap (a b : Moment) : (a.order b).swap = b.order a := by
  cases a <;> cases b <;> simp [order, instant_compare_swap, Int.compare_swap]

theorem order_self (a : Moment) : a.order a = .eq := by
  cases a <;> simp [order, Instant.compare]

theorem instant_compare_lt_iff {s t : Instant} :
    s.compare t = .lt ↔ s.seconds < t.seconds ∨ s.seconds = t.seconds ∧ s.nanos < t.nanos := by
  simp [Instant.compare, Ordering.then_eq_lt, Int.compare_eq_lt, Nat.compare_eq_lt]

theorem instant_compare_eq_iff {s t : Instant} :
    s.compare t = .eq ↔ s.seconds = t.seconds ∧ s.nanos = t.nanos := by
  simp [Instant.compare, Ordering.then_eq_eq]

theorem instant_compare_ne_gt_iff {s t : Instant} :
    s.compare t ≠ .gt ↔ s.seconds < t.seconds ∨ s.seconds = t.seconds ∧ s.nanos ≤ t.nanos := by
  have cases : s.compare t ≠ .gt ↔ s.compare t = .lt ∨ s.compare t = .eq := by
    cases s.compare t <;> simp
  rw [cases, instant_compare_lt_iff, instant_compare_eq_iff]
  omega

theorem order_date_left (d : Date) (b : Moment) : (date d).order b = compare (date d).day b.day := by
  cases b <;> rfl

theorem order_date_right (a : Moment) (d : Date) : a.order (date d) = compare a.day (date d).day := by
  cases a <;> rfl

/-- Where there is a date among them, no date-time is on an earlier day than one that it is not before. -/
def DaysAgree (moments : List Moment) : Prop :=
  (∃ d, date d ∈ moments) → ∀ t u, dateTime t ∈ moments → dateTime u ∈ moments → t.instant.compare u.instant ≠ .gt →
    (dateTime t).day ≤ (dateTime u).day

/-- On one clock days follow the instants. -/
theorem daysAgree_of_offset {moments : List Moment} {offset : Int}
    (one : ∀ t, dateTime t ∈ moments → t.instant.offset = offset) : DaysAgree moments := by
  intro _ t u left right notAfter
  have seconds : t.instant.seconds ≤ u.instant.seconds := by
    have := instant_compare_ne_gt_iff.mp notAfter
    omega
  have local_ : t.instant.seconds + t.instant.offset ≤ u.instant.seconds + u.instant.offset := by
    rw [one t left, one u right]
    omega
  exact Int.ediv_le_ediv (by decide) local_

section Agree

variable {moments : List Moment}

theorem day_le_of_not_after (agree : DaysAgree moments) (dated : ∃ d, date d ∈ moments) (left : a ∈ moments)
    (right : b ∈ moments) (notAfter : a.order b ≠ .gt) : a.day ≤ b.day := by
  cases a with
  | date d =>
    rw [order_date_left] at notAfter
    exact Int.compare_ne_gt.mp notAfter
  | dateTime t =>
    cases b with
    | date d => exact Int.compare_ne_gt.mp notAfter
    | dateTime u => exact agree dated t u left right notAfter

theorem before_of_day_lt (agree : DaysAgree moments) (dated : ∃ d, date d ∈ moments) (left : a ∈ moments)
    (right : b ∈ moments) (earlier : a.day < b.day) : a.order b = .lt := by
  have back : b.order a = .gt := Decidable.byContradiction fun notAfter => by
    have := day_le_of_not_after agree dated right left notAfter
    omega
  rw [← order_swap, back]
  rfl

theorem day_le_of_before (agree : DaysAgree moments) (dated : ∃ d, date d ∈ moments) (left : a ∈ moments)
    (right : b ∈ moments) (before : a.order b = .lt) : a.day ≤ b.day :=
  day_le_of_not_after agree dated left right (by simp [before])

/-- On one day only two date-times can be before each other. -/
theorem dateTimes_of_before (before : a.order b = .lt) (same : a.day = b.day) :
    (∃ t, a = dateTime t) ∧ ∃ u, b = dateTime u := by
  cases a with
  | date d =>
    rw [order_date_left, same, Int.compare_eq_lt] at before
    omega
  | dateTime t =>
    cases b with
    | date d =>
      rw [order_date_right, same, Int.compare_eq_lt] at before
      omega
    | dateTime u => exact ⟨⟨t, rfl⟩, u, rfl⟩

theorem exists_dateTime (undated : ¬ ∃ d, date d ∈ moments) (member : a ∈ moments) : ∃ t, a = dateTime t := by
  cases a with
  | date d => exact absurd ⟨d, member⟩ undated
  | dateTime t => exact ⟨t, rfl⟩

theorem before_trans_dateTime {t u v : DateTime} (first : (dateTime t).order (dateTime u) = .lt)
    (second : (dateTime u).order (dateTime v) = .lt) : (dateTime t).order (dateTime v) = .lt := by
  simp only [order, instant_compare_lt_iff] at *
  omega

theorem notAfter_trans_dateTime {t u v : DateTime} (first : (dateTime t).order (dateTime u) ≠ .gt)
    (second : (dateTime u).order (dateTime v) ≠ .gt) : (dateTime t).order (dateTime v) ≠ .gt := by
  simp only [order, instant_compare_ne_gt_iff] at *
  omega

theorem before_trans (agree : DaysAgree moments) (memberA : a ∈ moments) (memberB : b ∈ moments) (memberC : c ∈ moments)
    (first : a.order b = .lt) (second : b.order c = .lt) : a.order c = .lt := by
  by_cases dated : ∃ d, date d ∈ moments
  · -- Days do not fall. If they rise, that decides; on one day all three are date-times.
    have low := day_le_of_before agree dated memberA memberB first
    have high := day_le_of_before agree dated memberB memberC second
    by_cases same : a.day = c.day
    · obtain ⟨⟨t, rfl⟩, u, rfl⟩ := dateTimes_of_before first (by omega)
      obtain ⟨-, v, rfl⟩ := dateTimes_of_before second (by omega)
      exact before_trans_dateTime first second
    · exact before_of_day_lt agree dated memberA memberC (by omega)
  · obtain ⟨t, rfl⟩ := exists_dateTime dated memberA
    obtain ⟨u, rfl⟩ := exists_dateTime dated memberB
    obtain ⟨v, rfl⟩ := exists_dateTime dated memberC
    exact before_trans_dateTime first second

/-- Among them "not after" is transitive too, unless a date stands between two moments of its day. -/
theorem notAfter_trans (agree : DaysAgree [a, b, c]) (first : a.order b ≠ .gt) (second : b.order c ≠ .gt) :
    a.order c ≠ .gt ∨ (∃ d, b = date d) ∧ a.order b = .eq ∧ b.order c = .eq := by
  by_cases dated : ∃ d, date d ∈ [a, b, c]
  · have low := day_le_of_not_after agree dated (by simp) (by simp) first
    have high := day_le_of_not_after agree dated (by simp) (by simp) second
    by_cases same : a.day = c.day
    · -- All three are on one day, where a date compares equal with any other.
      cases b with
      | date d =>
        refine .inr ⟨⟨d, rfl⟩, ?_, ?_⟩
        · rw [order_date_right, Int.compare_eq_eq]
          omega
        · rw [order_date_left, Int.compare_eq_eq]
          omega
      | dateTime u =>
        left
        cases a with
        | date d => simp [order_date_left, same]
        | dateTime t =>
          cases c with
          | date d => simp [order_date_right, same]
          | dateTime v => exact notAfter_trans_dateTime first second
    · left
      rw [before_of_day_lt agree dated (by simp) (by simp) (show a.day < c.day by omega)]
      decide
  · obtain ⟨t, rfl⟩ := exists_dateTime dated (show a ∈ [a, b, c] by simp)
    obtain ⟨u, rfl⟩ := exists_dateTime dated (show b ∈ [dateTime t, b, c] by simp)
    obtain ⟨v, rfl⟩ := exists_dateTime dated (show c ∈ [dateTime t, dateTime u, c] by simp)
    exact .inl (notAfter_trans_dateTime first second)

end Agree

end Moment

end RuleScript
