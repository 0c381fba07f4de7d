import Mathlib.Logic.Function.Iterate
import RuleScript.Proofs.Calendar.Civil

/-! Days that follow each other.

A calendar goes from one civil date to the next: to the next day of the month, from its last day to the first of the
next month, and from the last day of December to the first of January. The days that are counted keep step with it, over
every leap day, before and after year zero.
-/

set_option autoImplicit false

namespace RuleScript.Calendar

def Civil.next (c : Civil) : Civil :=
  if c.day < monthLength (isLeapYear c.year) c.month then ⟨c.year, c.month, c.day + 1⟩
  else if c.month < 12 then ⟨c.year, c.month + 1, 1⟩
  else ⟨c.year + 1, 1, 1⟩

def Civil.Supported (c : Civil) : Prop :=
  c.exists = true ∧ Day.leastYear ≤ c.year ∧ c.year ≤ Day.greatestYear

/-- As many days lead from one civil date to another, counted backward if there are less than none. -/
def Civil.Apart (days : Int) (first second : Civil) : Prop :=
  Civil.next^[days.toNat] first = Civil.next^[(-days).toNat] second

variable {c other : Civil}

theorem Civil.exists_iff : c.exists = true ↔
    1 ≤ c.month ∧ c.month ≤ 12 ∧ 1 ≤ c.day ∧ c.day ≤ monthLength (isLeapYear c.year) c.month := by
  simp [Civil.exists, and_assoc]

theorem daysBeforeMonth_succ : ∀ leap, ∀ month < 12, 1 ≤ month →
    daysBeforeMonth leap (month + 1) = daysBeforeMonth leap month + monthLength leap month := by
  decide

theorem daysBeforeMonth_december : ∀ leap,
    daysBeforeMonth leap 12 + monthLength leap 12 = (monthLengths leap).foldr (· + ·) 0 := by
  decide

theorem daysBeforeMonth_of_lt : ∀ leap, ∀ later < 13, ∀ month < later, 1 ≤ month →
    daysBeforeMonth leap month + monthLength leap month ≤ daysBeforeMonth leap later := by
  decide

theorem daysBeforeMonth_le : ∀ leap, ∀ month < 13, 1 ≤ month →
    daysBeforeMonth leap month + monthLength leap month ≤ (monthLengths leap).foldr (· + ·) 0 := by
  decide

theorem yearStart_mono {year later : Int} (before : year ≤ later) : yearStart year ≤ yearStart later := by
  simp only [yearStart, leapYearsBefore]
  omega

theorem ofCivil_bounds (there : c.exists = true) :
    yearStart c.year ≤ (Day.ofCivil c).number ∧ (Day.ofCivil c).number < yearStart (c.year + 1) := by
  obtain ⟨first, last, least, most⟩ := Civil.exists_iff.mp there
  have within := daysBeforeMonth_le (isLeapYear c.year) c.month (by omega) first
  rw [yearStart_succ]
  simp only [Day.ofCivil]
  omega

theorem year_eq_of_ofCivil (there : c.exists = true) (present : other.exists = true)
    (same : Day.ofCivil c = Day.ofCivil other) : c.year = other.year := by
  have bounds := ofCivil_bounds there
  have others := ofCivil_bounds present
  rw [same] at bounds
  rcases Int.lt_trichotomy c.year other.year with before | equal | after
  · have ends := yearStart_mono (Int.add_one_le_of_lt before)
    omega
  · exact equal
  · have ends := yearStart_mono (Int.add_one_le_of_lt after)
    omega

theorem ofCivil_injective (there : c.exists = true) (present : other.exists = true)
    (same : Day.ofCivil c = Day.ofCivil other) : c = other := by
  have years := year_eq_of_ofCivil there present same
  obtain ⟨year, month, day⟩ := c
  obtain ⟨_, later, day'⟩ := other
  cases years
  obtain ⟨first, last, least, most⟩ := Civil.exists_iff.mp there
  obtain ⟨first', last', least', most'⟩ := Civil.exists_iff.mp present
  have numbers := Day.eq_iff.mp same
  dsimp only [Day.ofCivil] at *
  -- Of two months the earlier one ends before the other begins.
  rcases Nat.lt_trichotomy month later with before | rfl | after
  · have ends := daysBeforeMonth_of_lt (isLeapYear year) later (by omega) month before first
    omega
  · have days : day = day' := by omega
    rw [days]
  · have ends := daysBeforeMonth_of_lt (isLeapYear year) month (by omega) later after first'
    omega

theorem civil_ofCivil (there : c.exists = true) : (Day.ofCivil c).civil = c :=
  ofCivil_injective (Day.exists_civil _) there (Day.ofCivil_civil _)

theorem Day.civil_injective {first second : Day} (same : first.civil = second.civil) : first = second := by
  rw [← first.ofCivil_civil, same, second.ofCivil_civil]

/-- The three ways to go on, within a month, a year and beyond it. -/
theorem next_cases (there : c.exists = true) :
    (c.day < monthLength (isLeapYear c.year) c.month ∧ c.next = ⟨c.year, c.month, c.day + 1⟩) ∨
    (c.day = monthLength (isLeapYear c.year) c.month ∧ c.month < 12 ∧ c.next = ⟨c.year, c.month + 1, 1⟩) ∨
    (c.day = monthLength (isLeapYear c.year) c.month ∧ c.month = 12 ∧ c.next = ⟨c.year + 1, 1, 1⟩) := by
  obtain ⟨first, last, least, most⟩ := Civil.exists_iff.mp there
  unfold Civil.next
  by_cases within : c.day < monthLength (isLeapYear c.year) c.month
  · exact .inl ⟨within, if_pos within⟩
  · rw [if_neg within]
    by_cases more : c.month < 12
    · exact .inr (.inl ⟨by omega, more, if_pos more⟩)
    · exact .inr (.inr ⟨by omega, by omega, if_neg more⟩)

theorem exists_next (there : c.exists = true) : c.next.exists = true := by
  obtain ⟨first, last, least, most⟩ := Civil.exists_iff.mp there
  have months : ∀ leap, ∀ month < 13, 1 ≤ month → 1 ≤ monthLength leap month := by decide
  rcases next_cases there with ⟨within, next⟩ | ⟨-, more, next⟩ | ⟨-, -, next⟩ <;> rw [next, Civil.exists_iff] <;>
    dsimp only
  · omega
  · exact ⟨by omega, more, Nat.le_refl 1, months _ _ (by omega) (by omega)⟩
  · exact ⟨Nat.le_refl 1, by omega, Nat.le_refl 1, months _ _ (by omega) (Nat.le_refl 1)⟩

theorem ofCivil_next (there : c.exists = true) : (Day.ofCivil c.next).number = (Day.ofCivil c).number + 1 := by
  obtain ⟨first, last, least, most⟩ := Civil.exists_iff.mp there
  rcases next_cases there with ⟨within, next⟩ | ⟨full, more, next⟩ | ⟨full, december, next⟩ <;> rw [next] <;>
    simp only [Day.ofCivil]
  · omega
  · have months := daysBeforeMonth_succ (isLeapYear c.year) c.month more first
    omega
  · have months := daysBeforeMonth_december (isLeapYear c.year)
    have january : ∀ leap, daysBeforeMonth leap 1 = 0 := by decide
    rw [yearStart_succ, january, december, full, december]
    omega

theorem Day.civil_succ (day : Day) : (Day.mk (day.number + 1)).civil = day.civil.next := by
  have next : Day.mk (day.number + 1) = Day.ofCivil day.civil.next := by
    rw [Day.eq_iff, ofCivil_next day.exists_civil, day.ofCivil_civil]
  rw [next, civil_ofCivil (exists_next day.exists_civil)]

theorem Day.civil_add (day : Day) (days : Nat) :
    (Day.mk (day.number + days)).civil = Civil.next^[days] day.civil := by
  induction days with
  | zero => simp
  | succ days ih =>
    have sum : day.number + (days + 1 : Nat) = day.number + days + 1 := by omega
    rw [Function.iterate_succ_apply', ← ih, ← Day.civil_succ, sum]

/-- Civil dates are as far from each other as their days. -/
theorem Day.apart_iff {first second : Day} {days : Int} :
    Civil.Apart days first.civil second.civil ↔ second.number = first.number + days := by
  rw [Civil.Apart, ← Day.civil_add, ← Day.civil_add]
  constructor
  · intro same
    have numbers := Day.eq_iff.mp (Day.civil_injective same)
    dsimp only at numbers
    omega
  · intro sum
    have numbers : first.number + days.toNat = second.number + (-days).toNat := by omega
    rw [numbers]

theorem Day.isSupported_iff (day : Day) : day.isSupported = true ↔ day.civil.Supported := by
  have bounds := ofCivil_bounds day.exists_civil
  rw [day.ofCivil_civil] at bounds
  rw [Day.isSupported, Bool.and_eq_true, decide_eq_true_iff, decide_eq_true_iff, Civil.Supported,
    and_iff_right day.exists_civil]
  constructor
  · rintro ⟨low, high⟩
    constructor
    · by_contra before
      have ends := yearStart_mono (Int.add_one_le_of_lt (Int.not_le.mp before))
      omega
    · by_contra after
      have starts := yearStart_mono (Int.add_one_le_of_lt (Int.not_le.mp after))
      omega
  · rintro ⟨low, high⟩
    have starts := yearStart_mono low
    have ends := yearStart_mono (Int.add_le_add_right high 1)
    omega

end RuleScript.Calendar
