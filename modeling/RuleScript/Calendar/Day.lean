/-! Days of the proleptic Gregorian calendar, counted from the first of January 1970. -/

set_option autoImplicit false

namespace RuleScript.Calendar

def isLeapYear (year : Int) : Bool :=
  year % 4 = 0 && (year % 100 != 0 || year % 400 = 0)

def leapYearsBefore (year : Int) : Int :=
  (year - 1) / 4 - (year - 1) / 100 + (year - 1) / 400

def yearStart (year : Int) : Int :=
  365 * (year - 1970) + leapYearsBefore year - leapYearsBefore 1970

/-- The year that holds a day: a year is 146097 / 400 days long on average, and that guess is off by
one year at most. -/
def yearOf (number : Int) : Int :=
  let guess := 1970 + number * 400 / 146097
  if number < yearStart guess then guess - 1
  else if number < yearStart (guess + 1) then guess
  else guess + 1

def monthLengths (leap : Bool) : List Nat :=
  [31, if leap then 29 else 28, 31, 30, 31, 30, 31, 31, 30, 31, 30, 31]

def monthLength (leap : Bool) (month : Nat) : Nat :=
  if month = 0 then 0 else (monthLengths leap).getD (month - 1) 0

def daysBeforeMonth (leap : Bool) (month : Nat) : Nat :=
  ((monthLengths leap).take (month - 1)).foldr (· + ·) 0

def splitMonth : List Nat → Nat → Nat → Nat × Nat
  | [], month, days => (month, days + 1)
  | length :: rest, month, days =>
    if days < length then (month, days + 1) else splitMonth rest (month + 1) (days - length)

structure Civil where
  year : Int
  month : Nat
  day : Nat
  deriving DecidableEq, Repr

def Civil.exists (c : Civil) : Bool :=
  1 ≤ c.month && c.month ≤ 12 && 1 ≤ c.day && c.day ≤ monthLength (isLeapYear c.year) c.month

structure Day where
  number : Int
  deriving DecidableEq, Repr

namespace Day

def ofCivil (c : Civil) : Day :=
  ⟨yearStart c.year + daysBeforeMonth (isLeapYear c.year) c.month + c.day - 1⟩

def civil (day : Day) : Civil :=
  let year := yearOf day.number
  let (month, inMonth) :=
    splitMonth (monthLengths (isLeapYear year)) 1 (day.number - yearStart year).toNat
  ⟨year, month, inMonth⟩

def leastYear : Int := -262143
def greatestYear : Int := 262142

def isSupported (day : Day) : Bool :=
  yearStart leastYear ≤ day.number && day.number < yearStart (greatestYear + 1)

def ofCivil? (c : Civil) : Option Day :=
  if c.exists && leastYear ≤ c.year && c.year ≤ greatestYear then some (ofCivil c) else none

def shift? (day : Day) (days : Int) : Option Day :=
  let shifted : Day := ⟨day.number + days⟩
  if shifted.isSupported then some shifted else none

end Day

def padded (width n : Nat) : String :=
  let digits := Nat.toDigits 10 n
  String.ofList (List.replicate (width - digits.length) '0' ++ digits)

/-- Four digits, or a sign and at least four for years that need more or lie before year 0. -/
def yearText (year : Int) : String :=
  if 0 ≤ year && year ≤ 9999 then padded 4 year.natAbs
  else (if year < 0 then "-" else "+") ++ padded 4 year.natAbs

def Day.text (day : Day) : String :=
  let c := day.civil
  yearText c.year ++ "-" ++ padded 2 c.month ++ "-" ++ padded 2 c.day

end RuleScript.Calendar
