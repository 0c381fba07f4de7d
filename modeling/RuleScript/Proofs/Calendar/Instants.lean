import Mathlib.Data.List.Induction
import RuleScript.Proofs.Calendar.Heads

/-! Instants that clocks can show.

A clock is a number of whole minutes away from UTC, and it shows a leap second at the end of a minute only. So it is for
the instants that are read from texts, and shifting them keeps it so.
-/

set_option autoImplicit false

namespace RuleScript.Calendar

open Decimal (AreDigits)
open Text (digitsValue digitValue isDigit)

def IsOffset (offset : Int) : Prop :=
  offset % 60 = 0 ∧ -86400 < offset ∧ offset < 86400

/-- An offset of whole minutes, less than two seconds, and leap seconds only at the end of a minute. -/
structure Instant.Valid (t : Instant) : Prop where
  offset : IsOffset t.offset
  nanos : t.nanos < 2 * nanosPerSecond
  leap : nanosPerSecond ≤ t.nanos → t.seconds % 60 = 59

variable {chars rest : List Char} {n : Nat} {t u : Instant}

theorem digitsValue_lt {digits : List Char} (are : AreDigits digits) : digitsValue digits < 10 ^ digits.length := by
  induction digits using List.reverseRecOn with
  | nil => simp [digitsValue]
  | append_singleton front c ih =>
    obtain ⟨others, last⟩ := List.forall_mem_append.mp are
    have digit := isDigit_iff.mp (last c List.mem_cons_self)
    have value : digitsValue (front ++ [c]) = digitsValue front * 10 + digitValue c := by simp [digitsValue]
    have less : digitValue c ≤ 9 := by
      have zero : '0'.toNat = 48 := rfl
      rw [digitValue, zero]
      omega
    have lower := ih others
    rw [value, List.length_append, List.length_singleton, Nat.pow_succ]
    omega

theorem fraction?_lt (read : fraction? chars = some (n, rest)) : n < nanosPerSecond := by
  simp only [fraction?, Option.bind_eq_bind, Option.bind_eq_some_iff, Prod.exists] at read
  obtain ⟨value, tail, found, same⟩ := read
  cases same
  obtain ⟨digits, rfl, are, least, most, rfl, -⟩ := number?_spec found
  rw [List.length_append, Nat.add_sub_cancel]
  calc digitsValue digits * 10 ^ (9 - digits.length)
      < 10 ^ digits.length * 10 ^ (9 - digits.length) :=
        Nat.mul_lt_mul_of_pos_right (digitsValue_lt are) (Nat.pow_pos (by decide))
    _ = 10 ^ 9 := by rw [← Nat.pow_add, Nat.add_sub_cancel' most]

theorem optionalFraction?_lt (read : optionalFraction? chars = some (n, rest)) : n < nanosPerSecond := by
  unfold optionalFraction? at read
  split at read
  · exact fraction?_lt read
  · cases read
    decide

def offsetDigits? (direction : Int) (chars : List Char) : Option (Int × List Char) := do
  let (hours, rest) ← number? 2 2 chars
  let rest ← literal? ':' rest
  let (minutes, rest) ← number? 2 2 rest
  if hours ≤ 23 && minutes ≤ 59 then some (direction * (hours * 3600 + minutes * 60 : Nat), rest)
  else none

theorem isOffset_of_digits {direction offset : Int} (one : direction = 1 ∨ direction = -1)
    (read : offsetDigits? direction chars = some (offset, rest)) : IsOffset offset := by
  simp only [offsetDigits?, Option.bind_eq_bind, Option.bind_eq_some_iff, Prod.exists] at read
  obtain ⟨hours, _, -, _, -, minutes, _, -, read⟩ := read
  split at read
  · next fits =>
    cases read
    simp only [Bool.and_eq_true, decide_eq_true_eq] at fits
    unfold IsOffset
    rcases one with rfl | rfl <;> omega
  · cases read

theorem isOffset_zero : IsOffset 0 := by
  unfold IsOffset
  omega

theorem isOffset_of_offset? {offset : Int} (read : offset? chars = some (offset, rest)) : IsOffset offset := by
  unfold offset? at read
  split at read
  · cases read
    exact isOffset_zero
  · cases read
    exact isOffset_zero
  · split at read
    · exact isOffset_of_digits (.inl rfl) read
    · split at read
      · exact isOffset_of_digits (.inr rfl) read
      · cases read
  · cases read

/-- The time of a clock is in a day, and in a leap second only at the end of a minute. -/
theorem ofFields?_spec {hour minute second nanos : Nat} {time : ClockTime}
    (made : ClockTime.ofFields? hour minute second nanos = some time) (part : nanos < nanosPerSecond) :
    time.nanos < 2 * nanosPerSecond ∧ (nanosPerSecond ≤ time.nanos → time.second % 60 = 59) := by
  unfold ClockTime.ofFields? at made
  split at made
  · cases made
    dsimp only
    split
    · next last =>
      rw [last]
      omega
    · omega
  · cases made

theorem valid_ofLocal {time : ClockTime} {offset : Int} (whole : IsOffset offset) (day : Day)
    (spec : time.nanos < 2 * nanosPerSecond ∧ (nanosPerSecond ≤ time.nanos → time.second % 60 = 59)) :
    (Instant.ofLocal day time.second time.nanos offset).Valid := by
  refine ⟨whole, spec.1, fun leap => ?_⟩
  have last := spec.2 leap
  have minutes := whole.1
  simp only [Instant.ofLocal, secondsPerDay]
  omega

theorem valid_of_readStrictTime? {c : Civil} (read : readStrictTime? c chars = some t) : t.Valid := by
  obtain ⟨_, _, _, _, _, _, offset, day, time, fraction, complete, -, shown, rfl⟩ := readStrictTime?_parts read
  exact valid_ofLocal (isOffset_of_offset? (complete?_eq_some.mp complete)) day
    (ofFields?_spec shown (optionalFraction?_lt fraction))

theorem valid_of_readLenient? (read : readLenient? chars = some t) : t.Valid := by
  obtain ⟨day, _, time, -, rfl, rfl | ⟨_, timed⟩⟩ := readLenient?_parts read
  · exact valid_ofLocal isOffset_zero day (by decide)
  · obtain ⟨_, _, _, _, shown, rfl | ⟨_, fraction⟩⟩ := lenientTime?_parts timed
    · exact valid_ofLocal isOffset_zero day (ofFields?_spec shown (by decide))
    · exact valid_ofLocal isOffset_zero day (ofFields?_spec shown (optionalFraction?_lt fraction))

theorem valid_of_readInstant? {text : String} (read : readInstant? text = some t) : t.Valid := by
  unfold readInstant? at read
  cases strict : readStrict? text.toList with
  | some found =>
    rw [strict] at read
    cases read
    obtain ⟨c, separator, rest, -, timed⟩ := readStrict?_time strict
    exact valid_of_readStrictTime? timed
  | none =>
    rw [strict] at read
    exact valid_of_readLenient? read

theorem valid_of_carry (whole : IsOffset t.offset) (seconds nanos : Int) :
    ({ t with seconds := seconds, nanos := (nanos % (nanosPerSecond : Int)).toNat } : Instant).Valid := by
  have less : (nanos % (nanosPerSecond : Int)).toNat < nanosPerSecond := by
    have second : (nanosPerSecond : Int) = 1000000000 := rfl
    have value : nanosPerSecond = 1000000000 := rfl
    rw [second, value]
    omega
  exact ⟨whole, Nat.lt_of_lt_of_le less (Nat.le_mul_of_pos_left _ (by decide)), fun leap => absurd less (Nat.not_lt.mpr leap)⟩

theorem Instant.Valid.shifted (valid : t.Valid) (millis : Int) : (t.shifted millis).Valid := by
  unfold Instant.shifted
  dsimp only
  split
  · exact valid_of_carry valid.offset _ _
  · next leap =>
    split
    · exact valid_of_carry valid.offset _ _
    · next stays =>
      split
      · exact valid_of_carry valid.offset _ _
      · -- The shift is less than a second and stays within the leap second or falls back into the one before it.
        refine ⟨valid.offset, ?_, fun _ => valid.leap (Nat.le_of_not_lt leap)⟩
        have bound := valid.nanos
        simp only [Bool.or_eq_true, Bool.and_eq_true, decide_eq_true_eq, not_or, not_and] at stays
        generalize nanosPerSecond = second at *
        dsimp only
        omega

theorem Instant.Valid.shift? {millis : Int} (valid : t.Valid) (later : t.shift? millis = some u) : u.Valid := by
  simp only [Instant.shift?] at later
  split at later
  · cases later
    exact valid.shifted millis
  · cases later

end RuleScript.Calendar
