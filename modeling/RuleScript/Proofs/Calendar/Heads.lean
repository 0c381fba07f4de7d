import RuleScript.Calendar.Date
import RuleScript.Proofs.Calendar.Readers

/-! The day in front of the text of an instant.

A date is read from the first ten bytes of a text. They hold the day of every text in the strict format. A text in a
lenient format may write its day in fewer or more characters; then the ten bytes are no day or another one.
-/

set_option autoImplicit false

namespace RuleScript

namespace Calendar

open Decimal (AreDigits)
open Text (digitsValue isDigit)

/-- Characters that begin with four digits for the year, two for the month and two for the day, joined by hyphens. -/
def Plain (chars : List Char) (c : Civil) (rest : List Char) : Prop :=
  ∃ year month day, AreDigits year ∧ AreDigits month ∧ AreDigits day ∧ year.length = 4 ∧ month.length = 2 ∧
    day.length = 2 ∧ chars = year ++ '-' :: (month ++ '-' :: (day ++ rest)) ∧
    c = ⟨digitsValue year, digitsValue month, digitsValue day⟩

variable {chars rest front : List Char} {c : Civil} {day : Day} {t : Instant}

theorem civil?_of_plain (plain : Plain chars c rest) : civil? chars = some (c, rest) := by
  obtain ⟨year, month, day, years, months, days, four, two, last, rfl, rfl⟩ := plain
  have hyphen : ∀ tail, Stops ('-' :: tail) := fun _ => stops_cons.mpr (by decide)
  have some : ∀ {digits : List Char} {n : Nat}, digits.length = n + 1 → digits ≠ [] := fun length =>
    List.ne_nil_of_length_eq_add_one length
  simp only [civil?, month?, followed, year?_digits years (some four) four.le (.inl four), Option.bind_some,
    literal?_cons, Option.map_some, field?_digits months (some two) two.le (.inl two),
    field?_digits days (some last) last.le (.inl last)]

theorem firstBytes?_front {size : Nat} (cut : firstBytes? size chars = some front) : front <+: chars := by
  induction chars generalizing size front with
  | nil =>
    cases size with
    | zero =>
      cases cut
      exact List.nil_prefix
    | succ size => cases cut
  | cons c tail ih =>
    cases size with
    | zero =>
      cases cut
      exact List.nil_prefix
    | succ size =>
      simp only [firstBytes?] at cut
      split at cut
      · obtain ⟨others, found, rfl⟩ := Option.map_eq_some_iff.mp cut
        exact List.cons_prefix_cons.mpr ⟨rfl, ih found⟩
      · cases cut

def Narrow (chars : List Char) : Prop :=
  ∀ c ∈ chars, c.utf8Size = 1

theorem narrow_of_digits (are : AreDigits chars) : Narrow chars := by
  intro c member
  obtain ⟨-, high⟩ := isDigit_iff.mp (are c member)
  have value : c.toNat = c.val.toNat := rfl
  have most : (127 : UInt32).toNat = 127 := rfl
  rw [Char.utf8Size_eq_one_iff, UInt32.le_iff_toNat_le]
  omega

theorem Narrow.joined (narrow : Narrow front) (further : Narrow rest) : Narrow (front ++ '-' :: rest) :=
  List.forall_mem_append.mpr ⟨narrow, List.forall_mem_cons.mpr ⟨by decide, further⟩⟩

theorem firstBytes?_narrow (narrow : Narrow front) (rest : List Char) :
    firstBytes? front.length (front ++ rest) = some front := by
  induction front with
  | nil => simp [firstBytes?]
  | cons c tail ih =>
    obtain ⟨one, others⟩ := List.forall_mem_cons.mp narrow
    simp [firstBytes?, one, ih others]

theorem firstBytes?_of_plain (plain : Plain chars c rest) :
    ∃ front, firstBytes? 10 chars = some front ∧ chars = front ++ rest := by
  obtain ⟨year, month, day, years, months, days, four, two, last, rfl, rfl⟩ := plain
  have whole : year ++ '-' :: (month ++ '-' :: (day ++ rest)) = (year ++ '-' :: (month ++ '-' :: day)) ++ rest := by
    simp
  have length : (year ++ '-' :: (month ++ '-' :: day)).length = 10 := by
    simp [four, two, last]
  have narrow : Narrow (year ++ '-' :: (month ++ '-' :: day)) :=
    (narrow_of_digits years).joined ((narrow_of_digits months).joined (narrow_of_digits days))
  refine ⟨year ++ '-' :: (month ++ '-' :: day), ?_, whole⟩
  rw [whole, ← length]
  exact firstBytes?_narrow narrow rest

theorem localDay_ofLocal {second : Nat} (inDay : second < 86400) (day : Day) (nanos : Nat) (offset : Int) :
    (Instant.ofLocal day second nanos offset).localDay = day := by
  rw [Day.eq_iff]
  simp only [Instant.localDay, Instant.ofLocal, secondsPerDay]
  omega

theorem second_of_ofFields? {hour minute second nanos : Nat} {time : ClockTime}
    (made : ClockTime.ofFields? hour minute second nanos = some time) : time.second < 86400 := by
  unfold ClockTime.ofFields? at made
  split at made
  · next valid =>
    cases made
    simp only [Bool.and_eq_true, decide_eq_true_eq] at valid
    dsimp only
    split <;> omega
  · cases made

def readStrictTime? (c : Civil) (chars : List Char) : Option Instant := do
  let (hour, rest) ← number? 2 2 chars
  let rest ← literal? ':' rest
  let (minute, rest) ← number? 2 2 rest
  let rest ← literal? ':' rest
  let (second, rest) ← number? 2 2 rest
  let (nanos, rest) ← optionalFraction? rest
  let offset ← complete? (offset? rest)
  let day ← Day.ofCivil? c
  let time ← ClockTime.ofFields? hour minute second nanos
  some (.ofLocal day time.second time.nanos offset)

theorem readStrictTime?_parts (read : readStrictTime? c chars = some t) :
    ∃ hour minute second part nanos after offset day time, optionalFraction? part = some (nanos, after) ∧
      complete? (offset? after) = some offset ∧ Day.ofCivil? c = some day ∧
      ClockTime.ofFields? hour minute second nanos = some time ∧ t = .ofLocal day time.second time.nanos offset := by
  unfold readStrictTime? at read
  obtain ⟨⟨hour, _⟩, -, read⟩ := Option.bind_eq_some_iff.mp read
  obtain ⟨_, -, read⟩ := Option.bind_eq_some_iff.mp read
  obtain ⟨⟨minute, _⟩, -, read⟩ := Option.bind_eq_some_iff.mp read
  obtain ⟨_, -, read⟩ := Option.bind_eq_some_iff.mp read
  obtain ⟨⟨second, part⟩, -, read⟩ := Option.bind_eq_some_iff.mp read
  obtain ⟨⟨nanos, after⟩, fraction, read⟩ := Option.bind_eq_some_iff.mp read
  obtain ⟨offset, complete, read⟩ := Option.bind_eq_some_iff.mp read
  obtain ⟨day, made, read⟩ := Option.bind_eq_some_iff.mp read
  obtain ⟨time, shown, read⟩ := Option.bind_eq_some_iff.mp read
  exact ⟨hour, minute, second, part, nanos, after, offset, day, time, fraction, complete, made, shown,
    (Option.some.inj read).symm⟩

theorem localDay_of_readStrictTime? (read : readStrictTime? c chars = some t) : Day.ofCivil? c = some t.localDay := by
  obtain ⟨_, _, _, _, _, _, _, day, time, -, -, made, shown, rfl⟩ := readStrictTime?_parts read
  rw [made, localDay_ofLocal (second_of_ofFields? shown)]

/-- A text in the strict format begins with its day, plainly written, and a separator before its time. -/
theorem readStrict?_time (read : readStrict? chars = some t) :
    ∃ c separator rest, Plain chars c (separator :: rest) ∧ readStrictTime? c rest = some t := by
  unfold readStrict? at read
  obtain ⟨⟨year, _⟩, readYear, read⟩ := Option.bind_eq_some_iff.mp read
  obtain ⟨_, hyphen, read⟩ := Option.bind_eq_some_iff.mp read
  obtain ⟨⟨month, _⟩, readMonth, read⟩ := Option.bind_eq_some_iff.mp read
  obtain ⟨_, second, read⟩ := Option.bind_eq_some_iff.mp read
  obtain ⟨⟨day, rest⟩, readDay, read⟩ := Option.bind_eq_some_iff.mp read
  obtain ⟨years, rfl, areYears, least, most, rfl, -⟩ := number?_spec readYear
  obtain rfl := literal?_eq_some.mp hyphen
  obtain ⟨months, rfl, areMonths, leastMonth, mostMonth, rfl, -⟩ := number?_spec readMonth
  obtain rfl := literal?_eq_some.mp second
  obtain ⟨days, rfl, areDays, leastDay, mostDay, rfl, -⟩ := number?_spec readDay
  -- Four, two and two digits, as the reader has counted them.
  have plain : Plain (years ++ '-' :: (months ++ '-' :: (days ++ rest)))
      ⟨digitsValue years, digitsValue months, digitsValue days⟩ rest :=
    ⟨years, months, days, areYears, areMonths, areDays, by omega, by omega, by omega, rfl, rfl⟩
  dsimp only at read
  split at read
  · exact ⟨_, _, _, plain, read⟩
  · exact ⟨_, _, _, plain, read⟩
  · exact ⟨_, _, _, plain, read⟩
  · cases read

theorem readStrict?_spec (read : readStrict? chars = some t) :
    ∃ c rest, Plain chars c rest ∧ Day.ofCivil? c = some t.localDay := by
  obtain ⟨c, separator, rest, plain, time⟩ := readStrict?_time read
  exact ⟨c, separator :: rest, plain, localDay_of_readStrictTime? time⟩

theorem lenientTime?_parts {time : ClockTime} (read : lenientTime? chars = some (time, rest)) :
    ∃ hour minute second nanos, ClockTime.ofFields? hour minute second nanos = some time ∧
      (nanos = 0 ∨ ∃ part, optionalFraction? part = some (nanos, rest)) := by
  unfold lenientTime? at read
  obtain ⟨⟨hour, _⟩, -, read⟩ := Option.bind_eq_some_iff.mp read
  obtain ⟨_, -, read⟩ := Option.bind_eq_some_iff.mp read
  obtain ⟨⟨minute, _⟩, -, read⟩ := Option.bind_eq_some_iff.mp read
  dsimp only at read
  split at read
  · obtain ⟨made, shown, same⟩ := Option.map_eq_some_iff.mp read
    cases same
    exact ⟨hour, minute, 0, 0, shown, .inl rfl⟩
  · obtain ⟨⟨second, part⟩, -, read⟩ := Option.bind_eq_some_iff.mp read
    obtain ⟨⟨nanos, _⟩, fraction, read⟩ := Option.bind_eq_some_iff.mp read
    obtain ⟨made, shown, same⟩ := Option.map_eq_some_iff.mp read
    cases same
    exact ⟨hour, minute, second, nanos, shown, .inr ⟨part, fraction⟩⟩

theorem readLenient?_parts (read : readLenient? chars = some t) :
    ∃ day rest time, lenientDay? chars = some (day, rest) ∧ t = .ofLocal day time.second time.nanos 0 ∧
      (time = ⟨0, 0⟩ ∨ ∃ part, lenientTime? part = some (time, [])) := by
  unfold readLenient? at read
  obtain ⟨⟨day, rest⟩, found, read⟩ := Option.bind_eq_some_iff.mp read
  dsimp only at read
  split at read
  · exact ⟨day, [], ⟨0, 0⟩, found, (Option.some.inj read).symm, .inl rfl⟩
  · obtain ⟨time, complete, same⟩ := Option.bind_eq_some_iff.mp read
    exact ⟨day, _, time, found, (Option.some.inj same).symm, .inr ⟨_, complete?_eq_some.mp complete⟩⟩
  · cases read

/-- A text that is read as an instant begins with the day of the instant on its own clock. -/
theorem lenientDay?_of_readInstant? {text : String} (read : readInstant? text = some t) :
    ∃ rest, lenientDay? text.toList = some (t.localDay, rest) := by
  unfold readInstant? at read
  cases strict : readStrict? text.toList with
  | some found =>
    rw [strict] at read
    cases read
    obtain ⟨c, rest, plain, made⟩ := readStrict?_spec strict
    exact ⟨rest, lenientDay?_eq_some.mpr ⟨c, civil?_of_plain plain, made⟩⟩
  | none =>
    rw [strict] at read
    obtain ⟨day, rest, time, found, rfl, none | ⟨part, timed⟩⟩ := readLenient?_parts read
    · subst none
      exact ⟨rest, by rw [localDay_ofLocal (by decide), found]⟩
    · obtain ⟨_, _, _, _, shown, -⟩ := lenientTime?_parts timed
      exact ⟨rest, by rw [localDay_ofLocal (second_of_ofFields? shown), found]⟩

end Calendar

theorem DateTime.read_ok_iff {text : String} {zone : Option String} {t : DateTime} :
    DateTime.read text zone = .ok t ↔ Calendar.readInstant? text = some t.instant ∧ t.text = text ∧ t.zone = zone := by
  have same : read? text zone = (Calendar.readInstant? text).map fun instant => ⟨text, instant, zone⟩ := rfl
  obtain ⟨written, instant, tag⟩ := t
  unfold DateTime.read
  cases read : Calendar.readInstant? text with
  | none => simp [same, read]
  | some found =>
    simp only [same, read, Option.map_some, Except.ok.injEq, mk.injEq, Option.some.injEq]
    grind

namespace Date

open Calendar

/-- What a date is read from: the first ten bytes of a text, or the whole text if it is shorter or a character crosses
their end. -/
def head (text : String) : List Char :=
  (firstBytes? 10 text.toList).getD text.toList

/-- The head of a text is the day that the text begins with, with all the characters that it is written in. -/
def HeadIsDay (text : String) : Prop :=
  ∃ day rest, lenientDay? text.toList = some (day, rest) ∧ text.toList = head text ++ rest

def BeginsPlain (text : String) : Prop :=
  ∃ c rest, Plain text.toList c rest

variable {text : String} {zone : Option String} {t : DateTime}

theorem head_front (text : String) : head text <+: text.toList := by
  unfold head
  cases cut : firstBytes? 10 text.toList with
  | none => exact List.prefix_rfl
  | some front => exact firstBytes?_front cut

theorem head_of_plain {c : Civil} {rest : List Char} (plain : Plain text.toList c rest) :
    text.toList = head text ++ rest := by
  obtain ⟨front, cut, whole⟩ := firstBytes?_of_plain plain
  rw [head, cut]
  exact whole

theorem read_ok_iff {d : Date} :
    Date.read text zone = .ok d ↔ readDay? (head text) = some d.day ∧ d.zone = zone := by
  have same : read? text zone = (readDay? (head text)).map fun day => ⟨day, zone⟩ := rfl
  obtain ⟨day, tag⟩ := d
  unfold Date.read
  cases read : readDay? (head text) with
  | none => simp [same, read]
  | some found =>
    simp only [same, read, Option.map_some, Except.ok.injEq, mk.injEq, Option.some.injEq]
    exact and_congr_right fun _ => eq_comm

/-- A text of an instant is read as the day of the instant if and only if its head is the day. -/
theorem read_eq_date_iff (read : DateTime.read text zone = .ok t) :
    Date.read text zone = .ok t.date ↔ HeadIsDay text := by
  obtain ⟨instant, -, tag⟩ := DateTime.read_ok_iff.mp read
  obtain ⟨rest, found⟩ := lenientDay?_of_readInstant? instant
  obtain ⟨more, whole⟩ := head_front text
  -- Both sides say that the head ends where the day does.
  have front : readDay? (head text) = some t.instant.localDay ↔ rest = more := by
    rw [← whole] at found
    exact readDay?_front_iff found
  have split : text.toList = head text ++ rest ↔ rest = more := by
    constructor
    · intro same
      exact (List.append_cancel_left (whole.trans same)).symm
    · rintro rfl
      exact whole.symm
  rw [read_ok_iff]
  constructor
  · rintro ⟨same, -⟩
    exact ⟨_, rest, found, split.mpr (front.mp same)⟩
  · rintro ⟨day, other, again, same⟩
    rw [found] at again
    cases again
    exact ⟨front.mpr (split.mp same), tag⟩

theorem headIsDay_of_plain (read : DateTime.read text zone = .ok t) (plain : BeginsPlain text) : HeadIsDay text := by
  obtain ⟨c, rest, plain⟩ := plain
  obtain ⟨other, found⟩ := lenientDay?_of_readInstant? (DateTime.read_ok_iff.mp read).1
  obtain ⟨d, civil, made⟩ := lenientDay?_eq_some.mp found
  rw [civil?_of_plain plain] at civil
  cases civil
  exact ⟨_, rest, found, head_of_plain plain⟩

end Date

namespace Clock

/-- Today is the day of the present moment on its own clock, for the clocks whose text begins with that day in its first
ten bytes; and a text is read as the day of the instant that it is read as if and only if it begins so.

All texts of the strict format begin so, and all others that write the day in full digits. -/
theorem tells_one_day :
    (∀ (clock : Clock) t, clock.now = .ok t → (clock.today = .ok t.date ↔ Date.HeadIsDay clock.present)) ∧
    (∀ text zone t, DateTime.read text zone = .ok t →
      (Date.read text zone = .ok t.date ↔ Date.HeadIsDay text)) ∧
    (∀ text zone t, DateTime.read text zone = .ok t → Date.BeginsPlain text → Date.HeadIsDay text) ∧
    ∀ text t, Calendar.readStrict? text.toList = some t → Date.BeginsPlain text := by
  refine ⟨fun _ _ => Date.read_eq_date_iff, fun _ _ _ => Date.read_eq_date_iff,
    fun _ _ _ => Date.headIsDay_of_plain, ?_⟩
  intro text t read
  obtain ⟨c, rest, plain, -⟩ := Calendar.readStrict?_spec read
  exact ⟨c, rest, plain⟩

/-- Late on a leap day two hours west of UTC, where it is the next day in UTC. -/
theorem tells_one_day_west :
    let clock : Clock := ⟨"2024-02-29T23:30:00.5-02:00", none⟩
    let present : DateTime := ⟨"2024-02-29T23:30:00.5-02:00", ⟨1709256600, 500000000, -7200⟩, none⟩
    clock.now = .ok present ∧ clock.today = .ok present.date ∧
      DateTime.read clock.present none = .ok present ∧ Date.read clock.present none = .ok present.date := by
  intro clock present
  obtain ⟨clocks, texts, plain, strict⟩ := tells_one_day
  have now : clock.now = .ok present := by decide +kernel
  have format : Calendar.readStrict? clock.present.toList = some present.instant := by decide +kernel
  have head := plain _ none _ now (strict _ _ format)
  exact ⟨now, (clocks clock present now).mpr head, now, (texts _ none _ now).mpr head⟩

/-- Lenient spellings of the day: in few characters, with a sign, and after a blank. The first has no day in its first ten
bytes, and the others have another day there. -/
theorem tells_two_days :
    let few : Clock := ⟨"2024-1-15T10:00", none⟩
    let signed : Clock := ⟨"+2024-01-15T10:00:00", none⟩
    let spaced : Clock := ⟨" 2024-01-15", none⟩
    let first : Date := ⟨⟨19723⟩, none⟩
    let fifteenth : Date := ⟨⟨19737⟩, none⟩
    (∀ clock ∈ [few, signed, spaced], clock.now.map DateTime.date = .ok fifteenth) ∧
      few.today = .error (.invalidDate few.present) ∧ signed.today = .ok first ∧ spaced.today = .ok first := by
  intro few signed spaced first fifteenth
  decide +kernel

end Clock

end RuleScript
