import RuleScript.Calendar.Day

/-! Instants: a second of the time line, a part of it, and the offset they are written in. -/

set_option autoImplicit false

namespace RuleScript.Calendar

def secondsPerDay : Int := 86400

def nanosPerSecond : Nat := 1000000000

/-- `seconds` since the first of January 1970 in UTC and `nanos` of the next one. A leap second is the
part from one second on of the second before it. The offset is in seconds east of UTC. -/
structure Instant where
  seconds : Int
  nanos : Nat
  offset : Int
  deriving DecidableEq, Repr

namespace Instant

def ofLocal (day : Day) (secondOfDay nanos : Nat) (offset : Int) : Instant :=
  ⟨day.number * secondsPerDay + secondOfDay - offset, nanos, offset⟩

def localDay (t : Instant) : Day :=
  ⟨(t.seconds + t.offset) / secondsPerDay⟩

def localSecond (t : Instant) : Nat :=
  ((t.seconds + t.offset) % secondsPerDay).toNat

def utcDay (t : Instant) : Day :=
  ⟨t.seconds / secondsPerDay⟩

def compare (s t : Instant) : Ordering :=
  (Ord.compare s.seconds t.seconds).then (Ord.compare s.nanos t.nanos)

/-- The seconds and the nanoseconds that a number of milliseconds later means. A shift by less than a second may
stay inside a leap second; any other shift counts the leap second as the second before it when it
goes on, and as the second after it when it goes back. -/
def shifted (t : Instant) (millis : Int) : Instant :=
  let whole := Int.tdiv millis 1000
  let part := Int.tmod millis 1000 * 1000000
  let second : Int := nanosPerSecond
  let carry (seconds nanos : Int) : Instant :=
    { t with seconds := seconds + nanos / second, nanos := (nanos % second).toNat }
  if t.nanos < nanosPerSecond then carry (t.seconds + whole) (t.nanos + part)
  else if 0 < whole || (0 < part && 2 * second - part ≤ t.nanos) then
    carry (t.seconds + whole) (t.nanos - second + part)
  else if whole < 0 then carry (t.seconds + 1 + whole) (t.nanos - second + part)
  else { t with nanos := (t.nanos + part).toNat }

def shift? (t : Instant) (millis : Int) : Option Instant :=
  let later := t.shifted millis
  if later.utcDay.isSupported then some later else none

def offsetText (offset : Int) : String :=
  if offset = 0 then "Z"
  else
    let minutes := offset.natAbs / 60
    (if offset < 0 then "-" else "+") ++ padded 2 (minutes / 60) ++ ":" ++ padded 2 (minutes % 60)

/-- The instant on the clock of its own offset, in milliseconds; a leap second is second 60. -/
def text (t : Instant) : String :=
  let second := t.localSecond
  let (leap, nanos) :=
    if t.nanos < nanosPerSecond then (0, t.nanos) else (1, t.nanos - nanosPerSecond)
  t.localDay.text ++ "T" ++ padded 2 (second / 3600) ++ ":" ++ padded 2 (second / 60 % 60) ++ ":" ++
    padded 2 (second % 60 + leap) ++ "." ++ padded 3 (nanos / 1000000) ++ offsetText t.offset

end Instant

end RuleScript.Calendar
