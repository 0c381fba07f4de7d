import RuleScript.Calendar.Day

/-! Days and civil dates.

Every day has a civil date that exists, and it is the day of that date.
-/

set_option autoImplicit false

namespace RuleScript.Calendar

theorem Day.eq_iff {a b : Day} : a = b ↔ a.number = b.number := by
  cases a
  cases b
  simp

/-- A year starts within two days of where years of the average length would put it. -/
theorem yearStart_bounds (year : Int) :
    146097 * (year - 1970) - 800 ≤ 400 * yearStart year ∧ 400 * yearStart year ≤ 146097 * (year - 1970) + 800 := by
  simp only [yearStart, leapYearsBefore]
  omega

theorem yearOf_spec (number : Int) :
    yearStart (yearOf number) ≤ number ∧ number < yearStart (yearOf number + 1) := by
  unfold yearOf
  generalize guessed : 1970 + number * 400 / 146097 = guess
  have low := (yearStart_bounds (guess - 1)).2
  have high := (yearStart_bounds (guess + 1 + 1)).1
  by_cases before : number < yearStart guess
  · have next : guess - 1 + 1 = guess := by omega
    simp only [if_pos before, next]
    omega
  · by_cases within : number < yearStart (guess + 1)
    · simp only [if_neg before, if_pos within]
      omega
    · simp only [if_neg before, if_neg within]
      omega

theorem yearStart_succ (year : Int) :
    yearStart (year + 1) = yearStart year + ((monthLengths (isLeapYear year)).foldr (· + ·) 0 : Nat) := by
  have leap : isLeapYear year = true ↔ year % 4 = 0 ∧ (year % 100 ≠ 0 ∨ year % 400 = 0) := by
    simp [isLeapYear]
  by_cases h : isLeapYear year = true
  · have rule := leap.mp h
    simp only [h, yearStart, leapYearsBefore, monthLengths]
    simp
    omega
  · have rule := mt leap.mpr h
    simp only [h, yearStart, leapYearsBefore, monthLengths]
    simp
    omega

theorem splitMonth_spec {lengths : List Nat} {days : Nat} (inside : days < lengths.foldr (· + ·) 0) (month : Nat) :
    ∃ later length rest, lengths.drop later = length :: rest ∧ (splitMonth lengths month days).1 = month + later ∧
      1 ≤ (splitMonth lengths month days).2 ∧ (splitMonth lengths month days).2 ≤ length ∧
      (lengths.take later).foldr (· + ·) 0 + (splitMonth lengths month days).2 = days + 1 := by
  induction lengths generalizing days month with
  | nil => simp at inside
  | cons length rest ih =>
    rw [List.foldr_cons] at inside
    by_cases first : days < length
    · refine ⟨0, length, rest, rfl, ?_⟩
      simp only [splitMonth, if_pos first, List.take_zero, List.foldr_nil]
      omega
    · have beyond : days - length < rest.foldr (· + ·) 0 := by omega
      obtain ⟨later, last, others, found, place, least, most, sum⟩ := ih beyond (month + 1)
      refine ⟨later + 1, last, others, found, ?_⟩
      simp only [splitMonth, if_neg first, List.take_succ_cons, List.foldr_cons]
      omega

theorem Day.civil_spec (day : Day) : 1 ≤ day.civil.month ∧ day.civil.month ≤ 12 ∧ 1 ≤ day.civil.day ∧
    day.civil.day ≤ monthLength (isLeapYear day.civil.year) day.civil.month ∧
    yearStart day.civil.year + daysBeforeMonth (isLeapYear day.civil.year) day.civil.month + day.civil.day - 1 =
      day.number := by
  have year : day.civil.year = yearOf day.number := rfl
  obtain ⟨started, ends⟩ := yearOf_spec day.number
  rw [yearStart_succ] at ends
  have inside : (day.number - yearStart (yearOf day.number)).toNat <
      (monthLengths (isLeapYear (yearOf day.number))).foldr (· + ·) 0 := by omega
  -- The month is found among the days that the year has left.
  obtain ⟨later, length, rest, found, place, least, most, sum⟩ := splitMonth_spec inside 1
  change day.civil.month = 1 + later at place
  change 1 ≤ day.civil.day at least
  change day.civil.day ≤ length at most
  change _ + day.civil.day = _ at sum
  have short : later < 12 := by
    have long := congrArg List.length found
    simp [monthLengths] at long
    omega
  have before : daysBeforeMonth (isLeapYear day.civil.year) day.civil.month =
      ((monthLengths (isLeapYear (yearOf day.number))).take later).foldr (· + ·) 0 := by
    rw [daysBeforeMonth, place, year, Nat.add_sub_cancel_left]
  have own : monthLength (isLeapYear day.civil.year) day.civil.month = length := by
    rw [monthLength, place, year, if_neg (by omega), Nat.add_sub_cancel_left, List.getD_eq_getElem?_getD]
    rw [← List.head?_drop, found]
    rfl
  rw [own, before, year]
  omega

theorem Day.exists_civil (day : Day) : day.civil.exists = true := by
  obtain ⟨first, last, least, most, -⟩ := day.civil_spec
  simp [Civil.exists, first, last, least, most]

theorem Day.ofCivil_civil (day : Day) : Day.ofCivil day.civil = day :=
  Day.eq_iff.mpr day.civil_spec.2.2.2.2

theorem Day.ofCivil?_civil {day : Day} (early : leastYear ≤ day.civil.year) (late : day.civil.year ≤ greatestYear) :
    Day.ofCivil? day.civil = some day := by
  simp [Day.ofCivil?, day.exists_civil, early, late, day.ofCivil_civil]

end RuleScript.Calendar
