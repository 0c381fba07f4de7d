import RuleScript.Calendar.Reading
import RuleScript.Decimal.Layout
import RuleScript.Failure

/-! Dates, date-times and the clock of a run.

A date is a calendar day, a date-time an instant together with the text it was written as. Both carry the
time zone tag of the run. The tag is handed on and never looked at: the bounds of a day are in UTC.
-/

set_option autoImplicit false

namespace RuleScript

open RuleScript.Calendar (Day Instant)

structure DateTime where
  text : String
  instant : Instant
  zone : Option String
  deriving DecidableEq, Repr

structure Date where
  day : Day
  zone : Option String
  deriving DecidableEq, Repr

namespace DateTime

def read? (text : String) (zone : Option String) : Option DateTime :=
  (Calendar.readInstant? text).map fun instant => ⟨text, instant, zone⟩

def read (text : String) (zone : Option String) : Except Failure DateTime :=
  match read? text zone with
  | some t => .ok t
  | none => .error (.invalidDate text)

def ofInstant (instant : Instant) (zone : Option String) : DateTime :=
  ⟨instant.text, instant, zone⟩

/-- The calendar day at the instant's own offset. -/
def date (t : DateTime) : Date :=
  ⟨t.instant.localDay, t.zone⟩

/-- The milliseconds in a number of days, to the nearest and within 64 bits. -/
def daysToMillis (days : Float) : Int :=
  Decimal.round64 (days * 86400000.0)

/-- The date-time a number of days later, which may have a fraction. The range is checked in UTC; writing the
later instant then takes its day on the clock of its own offset. -/
def addDays (t : DateTime) (days : Float) : Except Failure DateTime :=
  let millis := daysToMillis days
  match if millis = Decimal.int64Min then none else t.instant.shift? millis with
  | some instant =>
    if instant.localDay.isSupported then .ok (ofInstant instant t.zone)
    else .error (.crash .dayOutOfRange)
  | none => .error (.invalidDate (t.text ++ " + " ++ Decimal.Layout.plain.write days))

end DateTime

namespace Date

def text (d : Date) : String :=
  d.day.text

/-- The day in the first ten bytes of a text, or in the whole text if a character crosses their end. -/
def read? (text : String) (zone : Option String) : Option Date :=
  let head := (Calendar.firstBytes? 10 text.toList).getD text.toList
  (Calendar.readDay? head).map fun day => ⟨day, zone⟩

def read (text : String) (zone : Option String) : Except Failure Date :=
  match read? text zone with
  | some d => .ok d
  | none => .error (.invalidDate text)

def shift? (d : Date) (days : Int) : Option Date :=
  (d.day.shift? days).map fun day => ⟨day, d.zone⟩

/-- The date a number of days later; a fraction of a day is dropped. -/
def addDays (d : Date) (days : Float) : Except Failure Date :=
  match d.shift? (Decimal.truncate64 days) with
  | some shifted => .ok shifted
  | none => .error (.invalidDate (d.text ++ " + " ++ Decimal.Layout.plain.write days))

def daysSince (d other : Date) : Int :=
  d.day.number - other.day.number

def start (d : Date) : DateTime :=
  .ofInstant (.ofLocal d.day 0 0 0) d.zone

def finish (d : Date) : DateTime :=
  .ofInstant (.ofLocal d.day 86399 999000000 0) d.zone

end Date

/-- What a run takes for the present moment, and its time zone tag. -/
structure Clock where
  present : String
  zone : Option String
  deriving DecidableEq, Repr

namespace Clock

def now (clock : Clock) : Except Failure DateTime :=
  DateTime.read clock.present clock.zone

def today (clock : Clock) : Except Failure Date :=
  Date.read clock.present clock.zone

end Clock

end RuleScript
