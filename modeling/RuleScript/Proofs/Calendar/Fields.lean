import Mathlib.Data.List.TakeWhile
import RuleScript.Calendar.Reading
import RuleScript.Proofs.Decimal.Literal

/-! The fields of days and times: digits in front of a text.

A field takes digits up to the most it may have. What is left does not go on with a digit, unless the field is full.
-/

set_option autoImplicit false

namespace RuleScript.Calendar

open RuleScript.Decimal (AreDigits)
open RuleScript.Text (isDigit digitsValue digitValue isBlank trimLeft)

def Stops (chars : List Char) : Prop :=
  ∀ c rest, chars = c :: rest → isDigit c = false

theorem stops_nil : Stops [] :=
  fun _ _ same => nomatch same

theorem stops_cons {c : Char} {rest : List Char} : Stops (c :: rest) ↔ isDigit c = false := by
  constructor
  · exact fun stops => stops c rest rfl
  · rintro other _ _ same
    cases same
    exact other

theorem Stops.append {front : List Char} (stops : Stops front) (some : front ≠ []) (more : List Char) :
    Stops (front ++ more) := by
  cases front with
  | nil => exact absurd rfl some
  | cons c rest => exact stops_cons.mpr (stops_cons.mp stops)

theorem Stops.of_append {front more : List Char} (stops : Stops (front ++ more)) : Stops front := by
  cases front with
  | nil => exact stops_nil
  | cons c rest => exact stops_cons.mpr (stops_cons.mp stops)

variable {least most n : Nat} {chars digits rest more front : List Char}

/-- Digits in front are read, if there are enough and not too many, and no digit that would fit comes next. -/
theorem number?_digits (are : AreDigits digits) (enough : least ≤ digits.length) (fits : digits.length ≤ most)
    (ends : digits.length = most ∨ Stops rest) :
    number? least most (digits ++ rest) = some (digitsValue digits, rest) := by
  have front : ((digits ++ rest).take most).takeWhile isDigit = digits := by
    rw [List.take_append, List.take_of_length_le fits, List.takeWhile_append_of_pos are]
    rcases ends with full | stops
    · simp [full]
    · cases taken : rest.take (most - digits.length) with
      | nil => simp
      | cons c tail =>
        obtain ⟨other, same⟩ : ∃ other, rest = c :: other := by
          cases rest with
          | nil => simp at taken
          | cons first other =>
            cases room : most - digits.length with
            | zero => simp [room] at taken
            | succ _ =>
              rw [room, List.take_succ_cons] at taken
              exact ⟨other, by rw [(List.cons.inj taken).1]⟩
        simp [stops c other same]
  rw [number?, front, if_neg (Nat.not_lt.mpr enough), List.drop_left]

theorem number?_spec (read : number? least most chars = some (n, rest)) :
    ∃ digits, chars = digits ++ rest ∧ AreDigits digits ∧ least ≤ digits.length ∧ digits.length ≤ most ∧
      n = digitsValue digits ∧ (digits.length = most ∨ Stops rest) := by
  unfold number? at read
  generalize taken : (chars.take most).takeWhile isDigit = digits at read
  have front : digits <+: chars.take most := taken ▸ List.takeWhile_prefix isDigit
  obtain ⟨beyond, whole⟩ := front.trans <| List.take_prefix most chars
  by_cases few : digits.length < least
  · simp [few] at read
  · simp only [few, if_false, Option.some.injEq, Prod.mk.injEq] at read
    obtain ⟨value, left⟩ := read
    rw [← whole, List.drop_left] at left
    subst left whole
    have are : AreDigits digits := fun c member => List.mem_takeWhile_imp (taken ▸ member)
    have fits : digits.length ≤ most := front.length_le.trans (List.length_take_le _ _)
    refine ⟨digits, rfl, are, Nat.not_lt.mp few, fits, value.symm, ?_⟩
    rw [or_iff_not_imp_left]
    rintro notFull c tail rfl
    -- The character after the digits was in reach, so it was not taken because it is no digit.
    by_contra digit
    rw [Bool.not_eq_false] at digit
    have reach : ((digits ++ c :: tail).take most).takeWhile isDigit =
        digits ++ ((c :: tail).take (most - digits.length)).takeWhile isDigit := by
      rw [List.take_append, List.take_of_length_le fits, List.takeWhile_append_of_pos are]
    obtain ⟨room, same⟩ : ∃ room, most - digits.length = room + 1 := ⟨most - digits.length - 1, by omega⟩
    rw [reach, same, List.take_succ_cons, List.takeWhile_cons_of_pos digit] at taken
    simpa using congrArg List.length taken

theorem unbounded?_digits (are : AreDigits digits) (some : digits ≠ []) (stops : Stops rest) :
    unbounded? (digits ++ rest) = Option.some (digitsValue digits, rest) :=
  number?_digits are (List.length_pos_iff.mpr some) (by simp) (.inr stops)

theorem unbounded?_spec (read : unbounded? chars = some (n, rest)) :
    ∃ digits, chars = digits ++ rest ∧ AreDigits digits ∧ digits ≠ [] ∧ n = digitsValue digits ∧ Stops rest := by
  obtain ⟨digits, whole, are, enough, -, value, ends⟩ := number?_spec read
  refine ⟨digits, whole, are, List.ne_nil_of_length_pos enough, value, ends.elim (fun full => ?_) id⟩
  obtain rfl : rest = [] := by
    rw [whole, List.length_append] at full
    exact List.eq_nil_of_length_eq_zero (by omega)
  exact stops_nil

theorem literal?_eq_some {c : Char} : literal? c chars = some rest ↔ chars = c :: rest := by
  cases chars with
  | nil => simp [literal?]
  | cons first tail =>
    by_cases same : first = c <;> simp [literal?, same]

theorem literal?_cons (c : Char) (rest : List Char) : literal? c (c :: rest) = some rest :=
  literal?_eq_some.mpr rfl

theorem complete?_eq_some {α : Type} {read : Option (α × List Char)} {value : α} :
    complete? read = some value ↔ read = some (value, []) := by
  cases read with
  | none => simp [complete?]
  | some p =>
    obtain ⟨found, rest⟩ := p
    cases rest <;> simp [complete?]

theorem isDigit_iff {c : Char} : isDigit c = true ↔ 48 ≤ c.toNat ∧ c.toNat ≤ 57 := by
  simp [isDigit, Char.le_def, UInt32.le_iff_toNat_le]

theorem not_blank_of_digit {c : Char} (digit : isDigit c = true) : isBlank c = false := by
  obtain ⟨low, high⟩ := isDigit_iff.mp digit
  simp [isBlank]
  omega

theorem ne_of_digit {c other : Char} (digit : isDigit c = true) (no : isDigit other = false) : c ≠ other := by
  rintro rfl
  rw [digit] at no
  cases no

theorem trimLeft_append (remains : trimLeft chars ≠ []) (more : List Char) :
    trimLeft (chars ++ more) = trimLeft chars ++ more := by
  rw [trimLeft, List.dropWhile_append, if_neg (by simpa [trimLeft] using remains)]
  rfl

theorem trimLeft_append_of_nil (blank : trimLeft chars = []) (more : List Char) :
    trimLeft (chars ++ more) = trimLeft more := by
  rw [trimLeft, List.dropWhile_append, if_pos (by simpa [trimLeft] using blank)]
  rfl

theorem trimLeft_of_digits (are : AreDigits digits) (some : digits ≠ []) :
    trimLeft (digits ++ rest) = digits ++ rest := by
  cases digits with
  | nil => exact absurd rfl some
  | cons c tail => simp [trimLeft, not_blank_of_digit (are c List.mem_cons_self)]

theorem field?_digits (are : AreDigits digits) (some : digits ≠ []) (fits : digits.length ≤ 2)
    (ends : digits.length = 2 ∨ Stops rest) : field? (digits ++ rest) = Option.some (digitsValue digits, rest) := by
  rw [field?, trimLeft_of_digits are some]
  exact number?_digits are (List.length_pos_iff.mpr some) fits ends

theorem year?_digits (are : AreDigits digits) (some : digits ≠ []) (fits : digits.length ≤ 4)
    (ends : digits.length = 4 ∨ Stops rest) :
    year? (digits ++ rest) = Option.some ((digitsValue digits : Int), rest) := by
  have read := number?_digits are (List.length_pos_iff.mpr some) fits ends
  cases digits with
  | nil => exact absurd rfl some
  | cons c tail =>
    have digit := are c List.mem_cons_self
    have minus : c ≠ '-' := ne_of_digit digit (by decide)
    have plus : c ≠ '+' := ne_of_digit digit (by decide)
    rw [List.cons_append] at read
    simp [year?, trimLeft, not_blank_of_digit digit, minus, plus, read]

theorem isDigit_of_isDigit {c : Char} (digit : c.isDigit = true) : isDigit c = true := by
  simpa [Char.isDigit, isDigit, Char.le_def] using digit

theorem digitsValue_eq (digits : List Char) : digitsValue digits = Nat.ofDigitChars 10 digits 0 := by
  rw [digitsValue, Nat.ofDigitChars_eq_foldl]
  simp only [digitValue, Nat.mul_comm]

theorem padded_digits (width n : Nat) : AreDigits (padded width n).toList := by
  intro c member
  simp only [padded, String.toList_ofList, List.mem_append, List.mem_replicate] at member
  rcases member with ⟨-, rfl⟩ | member
  · decide
  · exact isDigit_of_isDigit (Nat.isDigit_of_mem_toDigits (by decide) (by decide) member)

theorem digitsValue_padded (width n : Nat) : digitsValue (padded width n).toList = n := by
  simp [digitsValue_eq, padded, Nat.ofDigitChars_append, Nat.ofDigitChars_replicate_zero, Nat.ofDigitChars_toDigits]

theorem le_length_padded (width n : Nat) : width ≤ (padded width n).toList.length := by
  simp [padded]
  omega

theorem length_padded_iff {width n : Nat} (some : 0 < width) :
    (padded width n).toList.length = width ↔ n < 10 ^ width := by
  rw [← Nat.length_toDigits_le_iff (b := 10) (by decide) some]
  simp [padded]
  omega

end RuleScript.Calendar
