import RuleScript.Proofs.Calendar.Following
import RuleScript.Proofs.Decimal.Doubles
import RuleScript.Value.Send

/-! Dates and whole numbers of days.

A number that is added to a date is cut to a whole number of days. Counted in days, dates behave like whole numbers:
what is added may be added at once or one after the other, subtracted again, and asked for as a difference. All of it
holds as long as no date is before or after those that there are, and then nothing is answered but the failure.
-/

set_option autoImplicit false

namespace RuleScript

open Calendar (Civil Day)
open Decimal (truncate64)

def Date.later (d : Date) (days : Int) : Date :=
  ⟨⟨d.day.number + days⟩, d.zone⟩

namespace Date

variable {d : Date}

theorem later_later (d : Date) (days more : Int) : (d.later days).later more = d.later (days + more) := by
  simp only [later, Int.add_assoc]

theorem later_zero (d : Date) : d.later 0 = d := by
  simp only [later, Int.add_zero]

theorem addDays_eq (d : Date) (x : Float) : d.addDays x =
    if (d.later (truncate64 x)).day.isSupported then .ok (d.later (truncate64 x))
    else .error (.invalidDate (d.text ++ " + " ++ Decimal.Layout.plain.write x)) := by
  have shift : d.shift? (truncate64 x) =
      (if (d.later (truncate64 x)).day.isSupported then some (d.later (truncate64 x)).day else none).map
        (⟨·, d.zone⟩) := rfl
  rw [addDays, shift]
  by_cases supported : (d.later (truncate64 x)).day.isSupported = true
  · simp only [if_pos supported]
    rfl
  · simp only [if_neg supported]
    rfl

theorem addDays_of_supported {x : Float} {days : Int} (cut : truncate64 x = days)
    (supported : (d.later days).day.isSupported = true) : d.addDays x = .ok (d.later days) := by
  rw [addDays_eq, cut, if_pos supported]

end Date

/-- Days in range are far fewer than the whole numbers that doubles can count. -/
theorem natAbs_number_lt {day : Day} (supported : day.isSupported = true) : day.number.natAbs < 2 ^ 52 := by
  rw [Day.isSupported, Bool.and_eq_true, decide_eq_true_iff, decide_eq_true_iff] at supported
  have first := Calendar.yearStart_bounds Day.leastYear
  have last := Calendar.yearStart_bounds (Day.greatestYear + 1)
  dsimp only [Day.leastYear, Day.greatestYear] at *
  omega

theorem natAbs_lt_of_supported {d : Date} {days : Int} (supported : d.day.isSupported = true)
    (reached : (d.later days).day.isSupported = true) : days.natAbs < 2 ^ 53 := by
  have here := natAbs_number_lt supported
  have there := natAbs_number_lt reached
  dsimp only [Date.later] at there
  omega

theorem compare_add_right (n days : Int) : compare n (n + days) = compare 0 days := by
  rcases lt_trichotomy 0 days with forward | rfl | backward
  · rw [Int.compare_eq_lt.mpr forward, Int.compare_eq_lt.mpr (by omega)]
  · rw [Int.add_zero, Int.compare_eq_eq.mpr rfl, Int.compare_eq_eq.mpr rfl]
  · rw [Int.compare_eq_gt.mpr backward, Int.compare_eq_gt.mpr (by omega)]

namespace Value

theorem send_add_date (d : Date) (x : Float) (memory : Memory) :
    (Value.date d).send .add [.number x] memory = ((d.addDays x).map Value.date, memory) := by
  change (do return .date (← Action.ofExcept (d.addDays x)) : Action Value) memory = _
  cases d.addDays x <;> rfl

theorem send_sub_date (d : Date) (x : Float) (memory : Memory) :
    (Value.date d).send .sub [.number x] memory = ((d.addDays (-x)).map Value.date, memory) := by
  change (do return .date (← Action.ofExcept (d.addDays (-x))) : Action Value) memory = _
  cases d.addDays (-x) <;> rfl

end Value

namespace Date

variable {d : Date}

/-- A number that is added to a date shifts it by as many days as the number has when it is cut. A date that there is as
many civil dates away is answered: subtracting the number leads back, the difference of the two dates is the number of
days, they compare as none with it, and a further shift is one by the sum. If there is no such date, the answer is a
failure that names the date and the number. Subtracting a number is adding its negation. -/
theorem shifts_count_days (supported : d.day.civil.Supported) (x : Float) (memory : Memory) :
    (Value.date d).send .sub [.number x] memory = (Value.date d).send .add [.number (-x)] memory ∧
    ((∃ later : Date, later.zone = d.zone ∧ later.day.civil.Supported ∧
      Civil.Apart (truncate64 x) d.day.civil later.day.civil ∧
      (Value.date d).send .add [.number x] memory = (.ok (.date later), memory) ∧
      (Value.date later).send .sub [.number x] memory = (.ok (.date d), memory) ∧
      (Value.date later).send .sub [.date d] memory = (.ok (.number (Float.ofInt (truncate64 x))), memory) ∧
      truncate64 (Float.ofInt (truncate64 x)) = truncate64 x ∧
      (Value.date d).send .compare [.date later] memory = (.ok (.ofOrdering (compare 0 (truncate64 x))), memory) ∧
      ∀ y last, (Value.date later).send .add [.number y] memory = (.ok (.date last), memory) →
        truncate64 (Float.ofInt (truncate64 x + truncate64 y)) = truncate64 x + truncate64 y ∧
        ∀ z, truncate64 z = truncate64 x + truncate64 y →
          (Value.date d).send .add [.number z] memory = (.ok (.date last), memory)) ∨
    (∀ c : Civil, c.Supported → ¬ Civil.Apart (truncate64 x) d.day.civil c) ∧
      (Value.date d).send .add [.number x] memory =
        (.error (.invalidDate (d.text ++ " + " ++ Decimal.Layout.plain.write x)), memory)) := by
  generalize cut : truncate64 x = days
  rw [← d.day.isSupported_iff] at supported
  refine ⟨(Value.send_sub_date d x memory).trans (Value.send_add_date d (-x) memory).symm, ?_⟩
  by_cases reached : (d.later days).day.isSupported = true
  · -- Both dates are in range, so few days are between them: they are counted and negated without a loss.
    have small := natAbs_lt_of_supported supported reached
    have back : truncate64 (-x) = -days := by
      rw [Decimal.truncate64_neg, cut] <;> rw [cut] <;> simp only [Decimal.int64Min, Decimal.int64Max] <;> omega
    refine .inl ⟨d.later days, rfl, (Day.isSupported_iff _).mp reached, Day.apart_iff.mpr rfl, ?add, ?sub, ?difference,
      Decimal.truncate64_ofInt small, ?order, fun y last added => ?twice⟩
    case add => rw [Value.send_add_date, addDays_of_supported cut reached]; rfl
    case sub =>
      have returned : (d.later days).later (-days) = d := by
        rw [later_later, Int.add_right_neg, later_zero]
      rw [Value.send_sub_date, addDays_of_supported back (by rwa [returned]), returned]
      rfl
    case difference =>
      have distance : (d.later days).daysSince d = days := by
        simp only [daysSince, later]
        omega
      change (Except.ok (Value.number (Float.ofInt ((d.later days).daysSince d))), memory) = _
      rw [distance]
    case order =>
      change (Except.ok (Value.ofOrdering (compare d.day.number (d.day.number + days))), memory) = _
      rw [compare_add_right]
    case twice =>
      rw [Value.send_add_date, addDays_eq] at added
      split at added
      · next further =>
        cases added
        rw [later_later] at further ⊢
        refine ⟨Decimal.truncate64_ofInt (natAbs_lt_of_supported supported further), fun z sum => ?_⟩
        rw [Value.send_add_date, addDays_of_supported sum further]
        rfl
      · cases added
  · refine .inr ⟨fun c there apart => reached ?_, ?_⟩
    · rw [← Calendar.civil_ofCivil there.1] at apart there
      -- A supported date that far away would be the shifted one, which is not supported.
      have same : (d.later days).day = Day.ofCivil c := Day.eq_iff.mpr (Day.apart_iff.mp apart).symm
      rwa [same, Day.isSupported_iff]
    · rw [Value.send_add_date, addDays_eq, cut, if_neg reached]
      rfl

/-- The leap day of year zero is passed and passed again on the way back, and no date is behind the last one. -/
theorem shifts_count_days_leap_day :
    let d : Date := ⟨.ofCivil ⟨0, 2, 28⟩, none⟩
    let last : Date := ⟨.ofCivil ⟨262142, 12, 31⟩, none⟩
    let memory : Memory := .ofDocument .null
    (d.day.civil.Supported ∧ ∃ later : Date, later.day.civil = ⟨0, 3, 1⟩ ∧
      (Value.date d).send .add [.number 2.9] memory = (.ok (.date later), memory) ∧
      (Value.date later).send .sub [.number 2.9] memory = (.ok (.date d), memory) ∧
      (Value.date later).send .sub [.date d] memory = (.ok (.number 2), memory)) ∧
    last.day.civil.Supported ∧
      ∃ text, (Value.date last).send .add [.number 1] memory = (.error (.invalidDate text), memory) := by
  intro d last memory
  have civil : d.day.civil = ⟨0, 2, 28⟩ := by decide
  have lastCivil : last.day.civil = ⟨262142, 12, 31⟩ := by decide
  have supported : d.day.civil.Supported := by rw [civil]; exact ⟨by decide, by decide, by decide⟩
  have lastSupported : last.day.civil.Supported := by rw [lastCivil]; exact ⟨by decide, by decide, by decide⟩
  have two : truncate64 2.9 = 2 := by decide +kernel
  have one : truncate64 1 = 1 := by decide +kernel
  refine ⟨⟨supported, ?_⟩, lastSupported, ?_⟩
  · obtain ⟨-, ⟨later, -, -, apart, add, sub, difference, -⟩ | ⟨none, -⟩⟩ := shifts_count_days supported 2.9 memory
    · rw [two, civil] at apart
      rw [two] at difference
      exact ⟨later, apart.symm, add, sub, difference⟩
    · rw [two, civil] at none
      exact absurd rfl (none ⟨0, 3, 1⟩ ⟨by decide, by decide, by decide⟩)
  · obtain ⟨-, ⟨later, -, inside, apart, -⟩ | ⟨-, failed⟩⟩ := shifts_count_days lastSupported 1 memory
    · rw [one, lastCivil] at apart
      rw [← show Civil.mk 262143 1 1 = later.day.civil from apart] at inside
      exact absurd inside.2.2 (by decide)
    · exact ⟨_, failed⟩

end Date

end RuleScript
