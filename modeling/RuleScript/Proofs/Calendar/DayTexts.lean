import RuleScript.Proofs.Calendar.Heads

/-! Days as texts.

The text of a day is read as the day, whatever its year. But a date is read from the first ten bytes of a text only, and
those are the text of the day if its year has four digits.
-/

set_option autoImplicit false

namespace RuleScript.Calendar

open Decimal (AreDigits)
open Text (digitsValue isDigit isBlank)

def FourDigits (year : Int) : Prop :=
  0 ≤ year ∧ year ≤ 9999

theorem monthLength_le (leap : Bool) (month : Nat) : monthLength leap month ≤ 31 := by
  have all : ∀ length ∈ monthLengths leap, length ≤ 31 := by
    cases leap <;> decide
  unfold monthLength
  split
  · omega
  · rw [List.getD_eq_getElem?_getD]
    cases found : (monthLengths leap)[month - 1]? with
    | none => simp
    | some length => exact all length (List.mem_of_getElem? found)

theorem month_fits (day : Day) : (padded 2 day.civil.month).toList.length = 2 := by
  have spec := day.civil_spec
  rw [length_padded_iff (by decide)]
  omega

theorem day_fits (day : Day) : (padded 2 day.civil.day).toList.length = 2 := by
  have spec := day.civil_spec
  have most := monthLength_le (isLeapYear day.civil.year) day.civil.month
  rw [length_padded_iff (by decide)]
  omega

theorem yearText_of_fourDigits {year : Int} (four : FourDigits year) : yearText year = padded 4 year.natAbs := by
  obtain ⟨low, high⟩ := four
  simp [yearText, low, high]

theorem length_year {year : Int} (four : FourDigits year) : (padded 4 year.natAbs).toList.length = 4 := by
  obtain ⟨low, high⟩ := four
  rw [length_padded_iff (by decide)]
  omega

theorem ofCivil?_of_fourDigits {day : Day} (four : FourDigits day.civil.year) :
    Day.ofCivil? day.civil = some day := by
  obtain ⟨low, high⟩ := four
  apply Day.ofCivil?_civil
  · rw [Day.leastYear]
    omega
  · rw [Day.greatestYear]
    omega

theorem yearText_of_signed {year : Int} (signed : ¬ FourDigits year) : (yearText year).toList =
    (if year < 0 then '-' else '+') :: (padded 4 year.natAbs).toList := by
  have outside : ¬ (0 ≤ year && year ≤ 9999) = true := by
    simpa [FourDigits] using signed
  rw [yearText, if_neg outside]
  split <;> simp

theorem Day.text_toList (day : Day) (more : List Char) : day.text.toList ++ more = (yearText day.civil.year).toList ++
    '-' :: ((padded 2 day.civil.month).toList ++ '-' :: ((padded 2 day.civil.day).toList ++ more)) := by
  simp [Day.text]

theorem plain_text {day : Day} (four : FourDigits day.civil.year) (more : List Char) :
    Plain (day.text.toList ++ more) day.civil more := by
  refine ⟨_, _, _, padded_digits 4 day.civil.year.natAbs, padded_digits 2 day.civil.month, padded_digits 2 day.civil.day,
    length_year four, month_fits day, day_fits day, ?_, ?_⟩
  · rw [Day.text_toList, yearText_of_fourDigits four]
  · simp only [digitsValue_padded, Int.natAbs_of_nonneg four.1]

theorem year?_yearText (year : Int) (rest : List Char) :
    year? ((yearText year).toList ++ '-' :: rest) = some (year, '-' :: rest) := by
  have hyphen : Stops ('-' :: rest) := stops_cons.mpr (by decide)
  have some : (padded 4 year.natAbs).toList ≠ [] := by
    have := le_length_padded 4 year.natAbs
    exact List.ne_nil_of_length_pos (by omega)
  by_cases four : FourDigits year
  · rw [yearText_of_fourDigits four]
    have length := length_year four
    rw [year?_digits (padded_digits 4 _) some length.le (.inl length), digitsValue_padded, Int.natAbs_of_nonneg four.1]
  · have read := unbounded?_digits (padded_digits 4 year.natAbs) some hyphen
    rw [digitsValue_padded] at read
    rw [yearText_of_signed four, year?_eq, List.cons_append]
    by_cases negative : year < 0
    · rw [if_pos negative, RuleScript.Text.trimLeft, List.dropWhile_cons_of_neg (by decide)]
      simp only [yearHere?, read, Option.map_some]
      rw [show -(year.natAbs : Int) = year by omega]
    · rw [if_neg negative, RuleScript.Text.trimLeft, List.dropWhile_cons_of_neg (by decide)]
      simp only [yearHere?, read, Option.map_some]
      rw [show (year.natAbs : Int) = year by omega]

theorem civil?_text (day : Day) (more : List Char) : civil? (day.text.toList ++ more) = some (day.civil, more) := by
  have some : ∀ {digits : List Char}, digits.length = 2 → digits ≠ [] := fun length =>
    List.ne_nil_of_length_eq_add_one length
  have month := month_fits day
  have last := day_fits day
  simp only [civil?, month?, followed, Day.text_toList, year?_yearText, Option.bind_some, literal?_cons,
    Option.map_some, field?_digits (padded_digits 2 _) (some month) month.le (.inl month),
    field?_digits (padded_digits 2 _) (some last) last.le (.inl last), digitsValue_padded]

theorem narrow_yearText (year : Int) : Narrow (yearText year).toList := by
  by_cases four : FourDigits year
  · rw [yearText_of_fourDigits four]
    exact narrow_of_digits (padded_digits _ _)
  · rw [yearText_of_signed four]
    exact List.forall_mem_cons.mpr ⟨by split <;> decide, narrow_of_digits (padded_digits _ _)⟩

theorem narrow_text (day : Day) : Narrow day.text.toList := by
  rw [← List.append_nil day.text.toList, Day.text_toList, List.append_nil]
  exact (narrow_yearText _).joined
    ((narrow_of_digits (padded_digits _ _)).joined (narrow_of_digits (padded_digits _ _)))

/-- Ten characters are the text of a day if and only if its year has four digits; other texts are longer. -/
theorem length_text (day : Day) : day.text.toList.length = 10 ∧ FourDigits day.civil.year ∨
    10 < day.text.toList.length ∧ ¬ FourDigits day.civil.year := by
  have month := month_fits day
  have last := day_fits day
  have whole := congrArg List.length (Day.text_toList day [])
  simp only [List.append_nil, List.length_append, List.length_cons, month, last] at whole
  by_cases four : FourDigits day.civil.year
  · rw [yearText_of_fourDigits four, length_year four] at whole
    exact .inl ⟨whole, four⟩
  · have least := le_length_padded 4 day.civil.year.natAbs
    rw [yearText_of_signed four, List.length_cons] at whole
    exact .inr ⟨by omega, four⟩

/-- The head of the text of a day is read as the day if and only if its year has four digits. -/
theorem readDay?_head_text (day : Day) : readDay? (Date.head day.text) = some day ↔ FourDigits day.civil.year := by
  have whole := civil?_text day []
  rw [List.append_nil] at whole
  have cut : firstBytes? 10 day.text.toList = some (day.text.toList.take 10) := by
    have short : (day.text.toList.take 10).length = 10 := by
      rw [List.length_take]
      rcases length_text day with ⟨length, -⟩ | ⟨length, -⟩ <;> omega
    have narrow : Narrow (day.text.toList.take 10) := fun c member => narrow_text day c (List.mem_of_mem_take member)
    have found := firstBytes?_narrow narrow (day.text.toList.drop 10)
    rwa [short, List.take_append_drop] at found
  have head : Date.head day.text = day.text.toList.take 10 := by
    rw [Date.head, cut]
    rfl
  rw [head]
  constructor
  · intro read
    rw [← List.take_append_drop 10 day.text.toList] at whole
    -- The head is read as the day of the whole text only if it is all of that text.
    have nothing := rest_eq_of_readDay? whole (day.ofCivil_civil.symm ▸ read)
    rcases length_text day with ⟨-, four⟩ | ⟨long, -⟩
    · exact four
    · have left := congrArg List.length nothing
      rw [List.length_drop, List.length_nil] at left
      omega
  · intro four
    have all : day.text.toList.take 10 = day.text.toList := by
      rcases length_text day with ⟨length, -⟩ | ⟨-, signed⟩
      · rw [← length, List.take_length]
      · exact absurd four signed
    rw [all, readDay?_eq_some, lenientDay?_eq_some]
    exact ⟨_, whole, ofCivil?_of_fourDigits four⟩

end RuleScript.Calendar
