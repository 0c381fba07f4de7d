import RuleScript.Proofs.Calendar.DayTexts
import RuleScript.Proofs.Calendar.Instants

/-! Instants as texts.

The text of an instant shows it in whole milliseconds on its own clock. If the year there has four digits, it is read
back as just that; other years have a sign, which no format takes together with an offset.
-/

set_option autoImplicit false

namespace RuleScript.Calendar

open Decimal (AreDigits)
open Text (digitsValue isDigit isBlank)

theorem offsetText_toList {offset : Int} (some : offset ≠ 0) : (Instant.offsetText offset).toList =
    (if offset < 0 then '-' else '+') :: ((padded 2 (offset.natAbs / 60 / 60)).toList ++
      ':' :: (padded 2 (offset.natAbs / 60 % 60)).toList) := by
  simp only [Instant.offsetText, if_neg some]
  split <;> simp

theorem offsetText_ends (offset : Int) :
    Stops (Instant.offsetText offset).toList ∧ (Instant.offsetText offset).toList ≠ [] := by
  by_cases zero : offset = 0
  · subst zero
    exact ⟨stops_cons.mpr (by decide), List.cons_ne_nil _ _⟩
  · rw [offsetText_toList zero]
    refine ⟨stops_cons.mpr ?_, List.cons_ne_nil _ _⟩
    split <;> decide

theorem number?_two {n : Nat} (fits : n < 100) (rest : List Char) :
    number? 2 2 ((padded 2 n).toList ++ rest) = some (n, rest) := by
  have length : (padded 2 n).toList.length = 2 := (length_padded_iff (by decide)).mpr fits
  rw [number?_digits (padded_digits 2 n) length.ge length.le (.inl length), digitsValue_padded]

theorem offset?_signed {sign : Char} {direction : Int} {hours minutes : Nat}
    (signs : sign = '+' ∧ direction = 1 ∨ sign = '-' ∧ direction = -1) (fits : hours ≤ 23) (rest : minutes ≤ 59) :
    offset? (sign :: ((padded 2 hours).toList ++ ':' :: (padded 2 minutes).toList)) =
      some (direction * (hours * 3600 + minutes * 60 : Nat), []) := by
  have first := number?_two (n := hours) (by omega) (':' :: (padded 2 minutes).toList)
  have last := number?_two (n := minutes) (by omega) []
  rw [List.append_nil] at last
  rcases signs with ⟨rfl, rfl⟩ | ⟨rfl, rfl⟩ <;> simp [offset?, first, last, literal?, fits, rest]

theorem offset?_offsetText {offset : Int} (whole : IsOffset offset) :
    offset? (Instant.offsetText offset).toList = some (offset, []) := by
  obtain ⟨minutes, low, high⟩ := whole
  by_cases zero : offset = 0
  · subst zero
    rfl
  · have hours : offset.natAbs / 60 / 60 ≤ 23 := by omega
    have rest : offset.natAbs / 60 % 60 ≤ 59 := by omega
    have size : offset.natAbs / 60 / 60 * 3600 + offset.natAbs / 60 % 60 * 60 = offset.natAbs := by omega
    rw [offsetText_toList zero]
    by_cases negative : offset < 0
    · rw [if_pos negative, offset?_signed (.inr ⟨rfl, rfl⟩) hours rest, size, Int.neg_one_mul, Int.ofNat_natAbs_of_nonpos]
      · simp
      · omega
    · rw [if_neg negative, offset?_signed (.inl ⟨rfl, rfl⟩) hours rest, size, Int.one_mul, Int.natAbs_of_nonneg]
      omega

def timeChars (hour minute second millis : Nat) (zone : List Char) : List Char :=
  (padded 2 hour).toList ++ ':' :: ((padded 2 minute).toList ++ ':' :: ((padded 2 second).toList ++
    '.' :: ((padded 3 millis).toList ++ zone)))

section Times

variable {hour minute second millis : Nat} {zone : List Char} {c : Civil} {chars rest : List Char}

theorem optionalFraction?_millis (fits : millis < 1000) (stops : Stops zone) :
    optionalFraction? ('.' :: ((padded 3 millis).toList ++ zone)) = some (millis * 1000000, zone) := by
  have length : (padded 3 millis).toList.length = 3 := (length_padded_iff (by decide)).mpr fits
  have read : number? 1 9 ((padded 3 millis).toList ++ zone) = some (millis, zone) := by
    rw [number?_digits (padded_digits 3 millis) (by omega) (by omega) (.inr stops), digitsValue_padded]
  have left : zone.dropWhile isDigit = zone := by
    cases zone with
    | nil => rfl
    | cons c tail => rw [List.dropWhile_cons_of_neg (by simp [stops_cons.mp stops])]
  simp [optionalFraction?, fraction?, read, length, left]

theorem bind_of_some {α β : Type} {x : Option α} {a : α} {f : α → Option β} {y : Option β} (found : x = some a)
    (next : f a = y) : (x >>= f) = y := by
  rw [found]
  exact next

theorem readStrictTime?_timeChars {offset : Int} (hours : hour < 100) (minutes : minute < 100) (seconds : second < 100)
    (fits : millis < 1000) (stops : Stops zone) (read : offset? zone = some (offset, [])) :
    readStrictTime? c (timeChars hour minute second millis zone) = (Day.ofCivil? c).bind fun day =>
      (ClockTime.ofFields? hour minute second (millis * 1000000)).map fun time =>
        .ofLocal day time.second time.nanos offset := by
  refine bind_of_some (number?_two hours _) ?_
  refine bind_of_some (literal?_cons _ _) ?_
  refine bind_of_some (number?_two minutes _) ?_
  refine bind_of_some (literal?_cons _ _) ?_
  refine bind_of_some (number?_two seconds _) ?_
  refine bind_of_some (optionalFraction?_millis fits stops) ?_
  refine bind_of_some (complete?_eq_some.mpr read) ?_
  simp only [Option.map_eq_bind]
  rfl

theorem field?_two {n : Nat} (fits : n < 100) (rest : List Char) :
    field? ((padded 2 n).toList ++ rest) = some (n, rest) := by
  have length : (padded 2 n).toList.length = 2 := (length_padded_iff (by decide)).mpr fits
  rw [field?_digits (padded_digits 2 n) (List.ne_nil_of_length_eq_add_one length) length.le (.inl length),
    digitsValue_padded]

theorem lenientTime?_timeChars (hours : hour < 100) (minutes : minute < 100) (seconds : second < 100)
    (fits : millis < 1000) (stops : Stops zone) : lenientTime? (timeChars hour minute second millis zone) =
      (ClockTime.ofFields? hour minute second (millis * 1000000)).map (·, zone) := by
  refine bind_of_some (field?_two hours _) ?_
  refine bind_of_some (literal?_cons _ _) ?_
  refine bind_of_some (field?_two minutes _) ?_
  dsimp only
  rw [literal?_cons]
  refine bind_of_some (field?_two seconds _) ?_
  exact bind_of_some (optionalFraction?_millis fits stops) rfl

theorem readStrict?_of_plain (plain : Plain chars c ('T' :: rest)) : readStrict? chars = readStrictTime? c rest := by
  obtain ⟨year, month, day, years, months, days, four, two, last, rfl, rfl⟩ := plain
  refine bind_of_some (number?_digits years four.ge four.le (.inl four)) ?_
  refine bind_of_some (literal?_cons _ _) ?_
  refine bind_of_some (number?_digits months two.ge two.le (.inl two)) ?_
  refine bind_of_some (literal?_cons _ _) ?_
  exact bind_of_some (number?_digits days last.ge last.le (.inl last)) rfl

theorem ofFields?_regular (hours : hour ≤ 23) (minutes : minute ≤ 59) (seconds : second ≤ 59) (nanos : Nat) :
    ClockTime.ofFields? hour minute second nanos = some ⟨hour * 3600 + minute * 60 + second, nanos⟩ := by
  have most : second ≤ 60 := by omega
  have shown : second ≠ 60 := by omega
  simp [ClockTime.ofFields?, hours, minutes, most, shown]

theorem ofFields?_leap (hours : hour ≤ 23) (minutes : minute ≤ 59) (nanos : Nat) :
    ClockTime.ofFields? hour minute 60 nanos =
      some ⟨hour * 3600 + minute * 60 + 59, nanos + nanosPerSecond⟩ := by
  simp [ClockTime.ofFields?, hours, minutes]

end Times

namespace Instant

def localYear (t : Instant) : Int :=
  t.localDay.civil.year

/-- The instant without the part beyond its milliseconds. -/
def inMillis (t : Instant) : Instant :=
  { t with nanos := t.nanos / 1000000 * 1000000 }

def leapSecond (t : Instant) : Nat :=
  if t.nanos < nanosPerSecond then 0 else 1

variable {t : Instant}

theorem shown_toList (day hour minute second millis zone : String) :
    (day ++ "T" ++ hour ++ ":" ++ minute ++ ":" ++ second ++ "." ++ millis ++ zone).toList =
      day.toList ++ 'T' :: (hour.toList ++ ':' :: (minute.toList ++ ':' :: (second.toList ++
        '.' :: (millis.toList ++ zone.toList)))) := by
  simp

theorem text_toList (t : Instant) : t.text.toList = t.localDay.text.toList ++ 'T' :: timeChars (t.localSecond / 3600)
    (t.localSecond / 60 % 60) (t.localSecond % 60 + t.leapSecond) ((t.nanos - t.leapSecond * nanosPerSecond) / 1000000)
    (offsetText t.offset).toList := by
  unfold text leapSecond timeChars
  generalize nanosPerSecond = whole
  by_cases regular : t.nanos < whole
  · simp only [if_pos regular, shown_toList, Nat.zero_mul, Nat.sub_zero]
  · simp only [if_neg regular, shown_toList, Nat.one_mul]

theorem localSecond_lt (t : Instant) : t.localSecond < 86400 := by
  simp only [localSecond, secondsPerDay]
  omega

theorem millis_of_leap {nanos second : Nat} (inLeap : second ≤ nanos) (value : second = 1000000000) :
    (nanos - 1 * second) / 1000000 * 1000000 + second = nanos / 1000000 * 1000000 := by
  omega

theorem Valid.ofFields? (valid : t.Valid) : ClockTime.ofFields? (t.localSecond / 3600) (t.localSecond / 60 % 60)
    (t.localSecond % 60 + t.leapSecond) ((t.nanos - t.leapSecond * nanosPerSecond) / 1000000 * 1000000) =
      some ⟨t.localSecond, t.nanos / 1000000 * 1000000⟩ := by
  have inDay := t.localSecond_lt
  obtain ⟨⟨minutes, -, -⟩, bound, leap⟩ := valid
  have minute : (t.localSecond : Int) % 60 = t.seconds % 60 := by
    simp only [localSecond, secondsPerDay]
    omega
  -- A leap second is shown as second 60, which is read as the end of the minute before.
  by_cases regular : t.nanos < nanosPerSecond
  · have whole : (t.nanos - 0 * nanosPerSecond) / 1000000 = t.nanos / 1000000 := by omega
    have time : ClockTime.ofFields? (t.localSecond / 3600) (t.localSecond / 60 % 60) (t.localSecond % 60 + 0)
        (t.nanos / 1000000 * 1000000) = some ⟨t.localSecond, t.nanos / 1000000 * 1000000⟩ := by
      rw [ofFields?_regular (by omega) (by omega) (by omega)]
      congr 2
      omega
    rw [leapSecond, if_pos regular, whole, time]
  · have last := leap (Nat.le_of_not_lt regular)
    have sixty : t.localSecond % 60 + 1 = 60 := by omega
    have second : t.localSecond / 3600 * 3600 + t.localSecond / 60 % 60 * 60 + 59 = t.localSecond := by omega
    have nanos : (t.nanos - 1 * nanosPerSecond) / 1000000 * 1000000 + nanosPerSecond = t.nanos / 1000000 * 1000000 :=
      millis_of_leap (Nat.le_of_not_lt regular) rfl
    rw [leapSecond, if_neg regular, sixty, ofFields?_leap (by omega) (by omega), second, nanos]

theorem ofLocal_local (t : Instant) (nanos : Nat) :
    ofLocal t.localDay t.localSecond nanos t.offset = { t with nanos := nanos } := by
  obtain ⟨seconds, _, offset⟩ := t
  simp only [ofLocal, localDay, localSecond, secondsPerDay, Instant.mk.injEq, and_true]
  omega

theorem Valid.fits (valid : t.Valid) : t.localSecond / 3600 < 100 ∧ t.localSecond / 60 % 60 < 100 ∧
    t.localSecond % 60 + t.leapSecond < 100 ∧ (t.nanos - t.leapSecond * nanosPerSecond) / 1000000 < 1000 := by
  have inDay := t.localSecond_lt
  have bound := valid.nanos
  have value : nanosPerSecond = 1000000000 := rfl
  unfold leapSecond
  rw [value] at bound ⊢
  split <;> omega

/-- The text of an instant whose year has four digits is read as the instant in milliseconds. -/
theorem Valid.readInstant?_text (valid : t.Valid) (four : FourDigits t.localYear) :
    readInstant? t.text = some t.inMillis := by
  obtain ⟨hours, minutes, seconds, millis⟩ := valid.fits
  have strict : readStrict? t.text.toList = some t.inMillis := by
    rw [text_toList, readStrict?_of_plain (plain_text four _), readStrictTime?_timeChars hours minutes seconds millis
      (offsetText_ends t.offset).1 (offset?_offsetText valid.offset), ofCivil?_of_fourDigits four, valid.ofFields?]
    exact congrArg some (ofLocal_local t _)
  rw [readInstant?, strict]

/-- The text of an instant whose year has a sign is no text of an instant. -/
theorem Valid.readInstant?_text_of_signed (valid : t.Valid) (signed : ¬ FourDigits t.localYear) :
    readInstant? t.text = none := by
  obtain ⟨hours, minutes, seconds, millis⟩ := valid.fits
  have strict : readStrict? t.text.toList = none := by
    rw [Option.eq_none_iff_forall_not_mem]
    intro found read
    obtain ⟨c, rest, ⟨year, month, day, years, -, -, length, -, -, same, -⟩, -⟩ := readStrict?_spec read
    have sign : (yearText t.localDay.civil.year).toList = _ := yearText_of_signed signed
    rw [text_toList, Day.text_toList, sign] at same
    cases year with
    | nil => cases length
    | cons first others =>
      have digit := years first List.mem_cons_self
      rw [← (List.cons.inj same).1] at digit
      split at digit <;> cases digit
  have lenient : readLenient? t.text.toList = none := by
    rw [text_toList, readLenient?, lenientDay?_eq, civil?_text, Option.bind_some]
    cases Day.ofCivil? t.localDay.civil with
    | none => rfl
    | some day =>
      -- The offset is left when the time has been read.
      simp only [Option.map_some, Option.bind_eq_bind, Option.bind_some]
      rw [lenientTime?_timeChars hours minutes seconds millis (offsetText_ends t.offset).1, valid.ofFields?]
      cases zone : (offsetText t.offset).toList with
      | nil => exact absurd zone (offsetText_ends t.offset).2
      | cons sign digits => rfl
  rw [readInstant?, strict]
  exact lenient

end Instant

end RuleScript.Calendar
