import RuleScript.Calendar.Instant
import RuleScript.Text.Blank

/-! Reading days and instants.

A lenient reader takes fields of one or two digits with white space in front of them, and a year with
an optional sign; it knows no offset and means UTC. A strict reader takes the internet date format:
fixed digits, a `T` or a blank between day and time, and an offset.
Every reader answers what it read and the characters that follow.
-/

set_option autoImplicit false

namespace RuleScript.Calendar

open RuleScript.Text (isDigit digitsValue trimLeft)

def number? (least most : Nat) (chars : List Char) : Option (Nat × List Char) :=
  let digits := (chars.take most).takeWhile isDigit
  if digits.length < least then none
  else some (digitsValue digits, chars.drop digits.length)

def unbounded? (chars : List Char) : Option (Nat × List Char) :=
  number? 1 chars.length chars

def literal? (c : Char) : List Char → Option (List Char)
  | first :: rest => if first = c then some rest else none
  | [] => none

/-- A year after white space: with a sign any digits, without one at most four. -/
def year? (chars : List Char) : Option (Int × List Char) :=
  match trimLeft chars with
  | '-' :: rest => (unbounded? rest).map fun (n, rest) => (-(n : Int), rest)
  | '+' :: rest => (unbounded? rest).map fun (n, rest) => ((n : Int), rest)
  | rest => (number? 1 4 rest).map fun (n, rest) => ((n : Int), rest)

def field? (chars : List Char) : Option (Nat × List Char) :=
  number? 1 2 (trimLeft chars)

def lenientDay? (chars : List Char) : Option (Day × List Char) := do
  let (year, rest) ← year? chars
  let rest ← literal? '-' rest
  let (month, rest) ← field? rest
  let rest ← literal? '-' rest
  let (day, rest) ← field? rest
  let day ← Day.ofCivil? ⟨year, month, day⟩
  some (day, rest)

/-- A time of day, second 60 being the leap second after second 59. -/
structure ClockTime where
  second : Nat
  nanos : Nat
  deriving DecidableEq, Repr

def ClockTime.ofFields? (hour minute second nanos : Nat) : Option ClockTime :=
  if hour ≤ 23 && minute ≤ 59 && second ≤ 60 then
    let leap := if second = 60 then 1 else 0
    some ⟨hour * 3600 + minute * 60 + second - leap, nanos + leap * nanosPerSecond⟩
  else none

/-- Digits as a decimal fraction of a second; those after the ninth are dropped. -/
def fraction? (chars : List Char) : Option (Nat × List Char) := do
  let (n, rest) ← number? 1 9 chars
  let length := chars.length - rest.length
  some (n * Nat.pow 10 (9 - length), rest.dropWhile isDigit)

def optionalFraction? : List Char → Option (Nat × List Char)
  | '.' :: rest => fraction? rest
  | rest => some (0, rest)

def lenientTime? (chars : List Char) : Option (ClockTime × List Char) := do
  let (hour, rest) ← field? chars
  let rest ← literal? ':' rest
  let (minute, rest) ← field? rest
  match literal? ':' rest with
  -- Seconds may be left out, but then no fraction is read.
  | none => (ClockTime.ofFields? hour minute 0 0).map (·, rest)
  | some rest => do
    let (second, rest) ← field? rest
    let (nanos, rest) ← optionalFraction? rest
    (ClockTime.ofFields? hour minute second nanos).map (·, rest)

def complete? {α : Type} : Option (α × List Char) → Option α
  | some (value, []) => some value
  | _ => none

def readDay? (chars : List Char) : Option Day :=
  complete? (lenientDay? chars)

/-- A day, perhaps with a `T` and a time, in UTC. A day alone is its midnight. -/
def readLenient? (chars : List Char) : Option Instant := do
  let (day, rest) ← lenientDay? chars
  match rest with
  | [] => some (.ofLocal day 0 0 0)
  | 'T' :: rest => do
    let time ← complete? (lenientTime? rest)
    some (.ofLocal day time.second time.nanos 0)
  | _ => none

/-- `Z`, or a sign, two digits of hours, a colon and two digits of minutes; less than a day. The sign may be
the mathematical minus. -/
def offset? : List Char → Option (Int × List Char)
  | 'Z' :: rest => some (0, rest)
  | 'z' :: rest => some (0, rest)
  | sign :: rest => do
    let direction : Int ←
      if sign = '+' then some 1
      else if sign = '-' || sign.toNat = 0x2212 then some (-1)
      else none
    let (hours, rest) ← number? 2 2 rest
    let rest ← literal? ':' rest
    let (minutes, rest) ← number? 2 2 rest
    if hours ≤ 23 && minutes ≤ 59 then some (direction * (hours * 3600 + minutes * 60 : Nat), rest)
    else none
  | [] => none

def readStrict? (chars : List Char) : Option Instant := do
  let (year, rest) ← number? 4 4 chars
  let rest ← literal? '-' rest
  let (month, rest) ← number? 2 2 rest
  let rest ← literal? '-' rest
  let (day, rest) ← number? 2 2 rest
  let rest ← match rest with
    | 'T' :: rest | 't' :: rest | ' ' :: rest => some rest
    | _ => none
  let (hour, rest) ← number? 2 2 rest
  let rest ← literal? ':' rest
  let (minute, rest) ← number? 2 2 rest
  let rest ← literal? ':' rest
  let (second, rest) ← number? 2 2 rest
  let (nanos, rest) ← optionalFraction? rest
  -- An offset has to be there, and has to be the end.
  let offset ← complete? (offset? rest)
  let day ← Day.ofCivil? ⟨year, month, day⟩
  let time ← ClockTime.ofFields? hour minute second nanos
  some (.ofLocal day time.second time.nanos offset)

/-- The strict format first, then the lenient ones. -/
def readInstant? (text : String) : Option Instant :=
  match readStrict? text.toList with
  | some t => some t
  | none => readLenient? text.toList

/-- The characters that make up exactly the first `size` bytes of a text, if a character ends there. -/
def firstBytes? : Nat → List Char → Option (List Char)
  | 0, _ => some []
  | _, [] => none
  | size, c :: rest =>
    if c.utf8Size ≤ size then (firstBytes? (size - c.utf8Size) rest).map (c :: ·) else none

end RuleScript.Calendar
