import RuleScript.Proofs.Calendar.InstantTexts
import RuleScript.Proofs.Value.Handles
import RuleScript.Proofs.Value.Moments

/-! Reading dates and date-times back from their texts.

A date or date-time leaves a program as its text, and comes back as a literal. One that was read keeps its text. One that
was computed has a text of its own, in whole milliseconds; it comes back as what it was if it is at a whole millisecond
and in a year of four digits.
-/

set_option autoImplicit false

namespace RuleScript

open Calendar (FourDigits Instant IsOffset)

namespace Moment

inductive Read (clock : Clock) : Moment → Prop
  | date {text : String} {zone : Option String} {d : Date} : Date.read text zone = .ok d → Read clock (.date d)
  | dateTime {text : String} {zone : Option String} {t : DateTime} :
    DateTime.read text zone = .ok t → Read clock (.dateTime t)
  | now {t : DateTime} : clock.now = .ok t → Read clock (.dateTime t)
  | today {d : Date} : clock.today = .ok d → Read clock (.date d)

def Answers (m n : Moment) : Prop :=
  ∃ message arguments memory later, m.value.send message arguments memory = (.ok n.value, later)

/-- The answer to one or more messages, each sent to the answer before, the first one to what was read. -/
inductive Computed (clock : Clock) : Moment → Prop
  | first {m n : Moment} : Read clock m → Answers m n → Computed clock n
  | next {m n : Moment} : Computed clock m → Answers m n → Computed clock n

def text : Moment → String
  | date d => d.text
  | dateTime t => t.text

/-- The text as a literal of the same kind, with the time zone tag of the run. -/
def reread (zone : Option String) : Moment → Except Failure Moment
  | date d => (Date.read d.text zone).map date
  | dateTime t => (DateTime.read t.text zone).map dateTime

def Same : Moment → Moment → Prop
  | date d, date e => d.day = e.day
  | dateTime t, dateTime u => t.instant = u.instant
  | _, _ => False

variable {clock : Clock} {m n : Moment} {d : Date} {t u : DateTime} {zone : Option String}

theorem order_of_same (same : m.Same n) : m.order n = .eq := by
  cases m with
  | date d =>
    cases n with
    | date e =>
      rw [order_date_left, Int.compare_eq_eq]
      exact congrArg Calendar.Day.number same
    | dateTime u => cases same
  | dateTime t =>
    cases n with
    | date e => cases same
    | dateTime u =>
      rw [order, instant_compare_eq_iff]
      exact ⟨congrArg Instant.seconds same, congrArg Instant.nanos same⟩

def dateTime? : Value → Option DateTime
  | .dateTime t => some t
  | _ => none

theorem dateTime?_ofOrdering (order : Ordering) : dateTime? (.ofOrdering order) = none := by
  cases order <;> rfl

def Makes (act : Action Value) (post : DateTime → Prop) : Prop :=
  Action.Ensures (fun _ => True) act fun answer => ∀ u ∈ dateTime? answer, post u

theorem Makes.other {value : Value} {post : DateTime → Prop} (none : dateTime? value = .none) :
    Makes (pure value) post := by
  refine .pure fun u member => ?_
  rw [none] at member
  cases member

theorem Makes.one {post : DateTime → Prop} (good : post t) : Makes (pure (.dateTime t)) post :=
  .pure fun _ member => Option.some.inj member ▸ good

theorem sendDate_makes (d : Date) (message : Message) (arguments : List Value) :
    Makes (Value.sendDate d message arguments) fun u => u = d.start ∨ u = d.finish := by
  cases message with
  | start => exact Makes.one (Or.inl rfl)
  | finish => exact Makes.one (Or.inr rfl)
  | _ =>
    unfold Value.sendDate
    dsimp only
    repeat' split
    all_goals first
      | exact .throw _
      | exact Makes.other (dateTime?_ofOrdering _)
      | exact Makes.other rfl
      | exact .andThen (.ofExcept fun _ _ => trivial) fun _ => Makes.other rfl

theorem sendDateTime_makes (t : DateTime) (message : Message) (arguments : List Value) :
    Makes (Value.sendDateTime t message arguments) fun u => ∃ days, t.addDays days = .ok u := by
  unfold Value.sendDateTime
  dsimp only
  repeat' split
  all_goals first
    | exact .throw _
    | exact Makes.other (dateTime?_ofOrdering _)
    | exact Makes.other rfl
    | exact .bind (.ofExcept fun _ shifted => shifted) fun _ shifted => Makes.one ⟨_, shifted⟩

theorem answers_dateTime (answers : Answers m (dateTime u)) :
    (∃ d, m = date d ∧ (u = d.start ∨ u = d.finish)) ∨ ∃ t days, m = dateTime t ∧ t.addDays days = .ok u := by
  obtain ⟨message, arguments, memory, later, sent⟩ := answers
  have all : memory.All fun _ => True := ⟨fun _ _ _ => trivial, fun _ _ _ => trivial⟩
  have answer : (m.value.send message arguments memory).1 = .ok (.dateTime u) := congrArg Prod.fst sent
  unfold Value.send at answer
  split at answer
  · cases answer
  · cases m with
    | date d => exact .inl ⟨d, rfl, (sendDate_makes d message arguments memory all).2 _ answer u rfl⟩
    | dateTime t =>
      obtain ⟨days, shifted⟩ := (sendDateTime_makes t message arguments memory all).2 _ answer u rfl
      exact .inr ⟨t, days, rfl, shifted⟩

theorem addDays_ok {days : Float} (shifted : t.addDays days = .ok u) :
    ∃ millis instant, t.instant.shift? millis = some instant ∧ u = .ofInstant instant t.zone := by
  unfold DateTime.addDays at shifted
  generalize DateTime.daysToMillis days = millis at shifted
  by_cases least : millis = Decimal.int64Min
  · simp [least] at shifted
  · simp only [if_neg least] at shifted
    cases found : t.instant.shift? millis with
    | none => simp [found] at shifted
    | some instant =>
      simp only [found] at shifted
      split at shifted
      · exact ⟨millis, instant, found, (Except.ok.inj shifted).symm⟩
      · cases shifted

theorem valid_start (d : Date) : d.start.instant.Valid :=
  @Calendar.valid_ofLocal ⟨0, 0⟩ 0 Calendar.isOffset_zero d.day (by decide)

theorem valid_finish (d : Date) : d.finish.instant.Valid :=
  @Calendar.valid_ofLocal ⟨86399, 999000000⟩ 0 Calendar.isOffset_zero d.day (by decide)

theorem Read.kept (read : Read clock (.dateTime t)) : Calendar.readInstant? t.text = some t.instant := by
  have keeps : ∀ {text : String} {zone : Option String}, DateTime.read text zone = .ok t →
      Calendar.readInstant? t.text = some t.instant := by
    intro text zone read
    obtain ⟨instant, same, -⟩ := DateTime.read_ok_iff.mp read
    rw [same, instant]
  cases read with
  | dateTime read => exact keeps read
  | now read => exact keeps read

theorem Answers.shown (answers : Answers m (.dateTime u)) (valid : ∀ t, m = dateTime t → t.instant.Valid) :
    u.instant.Valid ∧ u.text = u.instant.text := by
  rcases answers_dateTime answers with ⟨d, -, rfl | rfl⟩ | ⟨t, days, rfl, shifted⟩
  · exact ⟨valid_start d, rfl⟩
  · exact ⟨valid_finish d, rfl⟩
  · obtain ⟨millis, instant, later, rfl⟩ := addDays_ok shifted
    exact ⟨(valid t rfl).shift? later, rfl⟩

theorem Computed.shown (computed : Computed clock m) : ∀ u, m = dateTime u → u.instant.Valid ∧ u.text = u.instant.text := by
  induction computed with
  | first read answers =>
    rintro u rfl
    refine answers.shown ?_
    rintro t rfl
    exact Calendar.valid_of_readInstant? read.kept
  | next _ answers ih =>
    rintro u rfl
    exact answers.shown fun t same => (ih t same).1

theorem answers_of_addDays {days : Float} (shifted : t.addDays days = .ok u) : Answers (dateTime t) (dateTime u) := by
  refine ⟨.add, [.number days], ⟨#[], #[], #[]⟩, ⟨#[], #[], #[]⟩, ?_⟩
  have act : (dateTime t).value.send .add [.number days] =
      (Action.ofExcept (t.addDays days) >>= fun later => pure (.dateTime later)) := rfl
  rw [act, shifted]
  rfl

def Denotes (zone : Option String) (m : Moment) : Prop :=
  ∃ n, m.reread zone = .ok n ∧ m.Same n

theorem denotes_date_iff : Denotes zone (date d) ↔ FourDigits d.day.civil.year := by
  rw [← Calendar.readDay?_head_text]
  constructor
  · rintro ⟨n, again, same⟩
    simp only [reread] at again
    cases read : Date.read d.text zone with
    | error failure =>
      rw [read] at again
      cases again
    | ok e =>
      rw [read] at again
      cases again
      change d.day = e.day at same
      rw [same]
      exact same ▸ (Date.read_ok_iff.mp read).1
  · intro read
    have again : Date.read d.text zone = .ok ⟨d.day, zone⟩ := Date.read_ok_iff.mpr ⟨read, rfl⟩
    exact ⟨date ⟨d.day, zone⟩, by simp [reread, again, Except.map], rfl⟩

theorem reread_dateTime {instant : Instant} (read : Calendar.readInstant? t.text = some instant) :
    (dateTime t).reread zone = .ok (dateTime ⟨t.text, instant, zone⟩) := by
  have again : DateTime.read t.text zone = .ok ⟨t.text, instant, zone⟩ := DateTime.read_ok_iff.mpr ⟨read, rfl, rfl⟩
  simp [reread, again, Except.map]

theorem inMillis_eq_iff {instant : Instant} : instant = instant.inMillis ↔ instant.nanos % 1000000 = 0 := by
  obtain ⟨seconds, nanos, offset⟩ := instant
  simp only [Instant.inMillis, Instant.mk.injEq, true_and, and_true]
  omega

theorem denotes_computed_iff (computed : Computed clock (dateTime t)) :
    Denotes zone (dateTime t) ↔ FourDigits t.instant.localYear ∧ t.instant.nanos % 1000000 = 0 := by
  obtain ⟨valid, text⟩ := computed.shown t rfl
  by_cases four : FourDigits t.instant.localYear
  · have again : (dateTime t).reread zone = _ := reread_dateTime (text.symm ▸ valid.readInstant?_text four)
    rw [Denotes, again, ← inMillis_eq_iff]
    constructor
    · rintro ⟨n, same, equal⟩
      cases same
      exact ⟨four, equal⟩
    · rintro ⟨-, whole⟩
      exact ⟨_, rfl, whole⟩
  · -- A year with a sign is not read at all, whatever the milliseconds are.
    have none : Calendar.readInstant? t.text = .none := text.symm ▸ valid.readInstant?_text_of_signed four
    constructor
    · rintro ⟨n, again, -⟩
      cases read : DateTime.read t.text zone with
      | error failure =>
        rw [reread, read] at again
        cases again
      | ok u =>
        rw [DateTime.read_ok_iff, none] at read
        cases read.1
    · exact fun whole => absurd whole.1 four

/-- The text of a date or date-time denotes it, in years of four digits and at whole milliseconds.

It is what the host sees of it. A date comes back from its text if and only if its year has four digits. A date-time that
was read always comes back. One that was computed comes back if and only if its year has four digits and it is at a whole
millisecond; in such a year, it comes back without the part beyond its milliseconds in any case. What comes back as the
same day or instant compares equal. -/
theorem texts_denote (clock : Clock) (zone : Option String) :
    (∀ (m : Moment) memory, m.value.toText memory = m.text ∧ m.value.native memory = .string m.text) ∧
    (∀ d : Date, Denotes zone (date d) ↔ FourDigits d.day.civil.year) ∧
    (∀ t, Read clock (dateTime t) → Denotes zone (dateTime t)) ∧
    (∀ t, Computed clock (dateTime t) →
      (Denotes zone (dateTime t) ↔ FourDigits t.instant.localYear ∧ t.instant.nanos % 1000000 = 0)) ∧
    (∀ t, Computed clock (dateTime t) → FourDigits t.instant.localYear →
      (dateTime t).reread zone = .ok (dateTime ⟨t.text, t.instant.inMillis, zone⟩)) ∧
    ∀ (m n : Moment) memory, m.Same n → m.value.compare n.value memory = (.ok (.ofOrdering .eq), memory) := by
  refine ⟨?_, fun _ => denotes_date_iff, ?_, fun _ => denotes_computed_iff, ?_, ?_⟩
  · intro m memory
    cases m <;> exact ⟨rfl, by simp only [value, text, Value.native, Value.nativeWithin]⟩
  · exact fun t read => ⟨_, reread_dateTime read.kept, rfl⟩
  · intro t computed four
    obtain ⟨valid, text⟩ := computed.shown t rfl
    exact reread_dateTime (text.symm ▸ valid.readInstant?_text four)
  · intro m n memory same
    rw [compare_value, order_of_same same]

/-- A leap second before midnight on a clock five and a half hours east of UTC, and half a day later. -/
theorem texts_denote_leap_second :
    let leap : DateTime := ⟨"2016-12-31T23:59:60.25+05:30", ⟨1483208999, 1250000000, 19800⟩, none⟩
    let noon : DateTime := ⟨"2017-01-01T11:59:59.250+05:30", ⟨1483252199, 250000000, 19800⟩, none⟩
    Denotes none (dateTime leap) ∧ Denotes none (dateTime noon) ∧
      (dateTime noon).reread none = .ok (dateTime ⟨noon.text, noon.instant.inMillis, none⟩) ∧
      (dateTime noon).value.compare (dateTime noon).value ⟨#[], #[], #[]⟩ = (.ok (.ofOrdering .eq), ⟨#[], #[], #[]⟩) := by
  intro leap noon
  let clock : Clock := ⟨"2024-01-01", none⟩
  obtain ⟨-, -, kept, computed, again, equal⟩ := texts_denote clock none
  have read : Read clock (dateTime leap) :=
    .dateTime (show DateTime.read leap.text none = .ok leap by decide +kernel)
  have later : leap.addDays 0.5 = .ok noon := by decide +kernel
  have shifted : Computed clock (dateTime noon) := .first read (answers_of_addDays later)
  have four : FourDigits noon.instant.localYear := ⟨by decide +kernel, by decide +kernel⟩
  exact ⟨kept leap read, (computed noon shifted).mpr ⟨four, by decide⟩, again noon shifted four, equal _ _ _ rfl⟩

/-- Texts that tell no day, another day or another instant: past the year 9999, before the year 0, and of a date-time to
the nanosecond, a day later. -/
theorem texts_deny :
    let far : Date := ⟨⟨2932897⟩, none⟩
    let before : Date := ⟨⟨-719879⟩, none⟩
    let precise : DateTime := ⟨"2024-01-01T00:00:00.123456789Z", ⟨1704067200, 123456789, 0⟩, none⟩
    let later : DateTime := ⟨"2024-01-02T00:00:00.123Z", ⟨1704153600, 123456789, 0⟩, none⟩
    (Date.read "+10000-1-1" none = .ok far ∧ Date.read far.text none = .error (.invalidDate "+10000-01-01") ∧
      DateTime.read far.start.text none = .error (.invalidDate "+10000-01-01T00:00:00.000Z")) ∧
    (Date.read "-1-1-15" none = .ok before ∧ Date.read before.text none = .ok ⟨⟨-719893⟩, none⟩) ∧
    DateTime.read precise.text none = .ok precise ∧ precise.addDays 1.0 = .ok later ∧
      DateTime.read later.text none = .ok ⟨later.text, ⟨1704153600, 123000000, 0⟩, none⟩ := by
  decide +kernel

end Moment

end RuleScript
