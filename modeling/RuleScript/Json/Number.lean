import RuleScript.Json.Basic
import RuleScript.Decimal.Numeral

/-! Numbers of JSON text.

A whole number of 64 bits is kept as it is. Any other number is a double: as many of its digits as fit 64 bits
are read as a whole number, and that is scaled by a power of ten. Each of the two steps rounds to the nearest
double, so the result may be a neighbour of the double nearest to the text.
-/

set_option autoImplicit false

namespace RuleScript.Json

open RuleScript.Text (digitValue digitsValue)
open RuleScript.Decimal (splitDigits)

/-- The number `digits · 10 ^ exponent`, its digits below `2 ^ 64`. -/
structure Scaled where
  digits : Nat
  exponent : Int
  deriving DecidableEq, Repr

namespace Scaled

def zero : Scaled := ⟨0, 0⟩

def extend? (s : Scaled) (digit : Char) : Option Nat :=
  let digits := s.digits * 10 + digitValue digit
  if digits < Nat.pow 2 64 then some digits else none

/-- Read the digits before the point. From the first one on that does not fit they only count. -/
def readWhole (s : Scaled) : List Char → Scaled
  | [] => s
  | digit :: rest =>
    match s.extend? digit with
    | some digits => readWhole { s with digits } rest
    | none => { s with exponent := s.exponent + (rest.length + 1) }

def readFraction (s : Scaled) : List Char → Scaled
  | [] => s
  | digit :: rest =>
    match s.extend? digit with
    | some digits => readFraction ⟨digits, s.exponent - 1⟩ rest
    -- Digits that do not fit are dropped.
    | none => s

def maxPower : Nat := 308

def power (exponent : Nat) : Float :=
  Float.ofScientific 1 false exponent

/-- `x` times a power of ten, `none` beyond the doubles. Below the least power of ten `x` is scaled down in
steps. -/
def scale? (x : Float) (exponent : Int) : Option Float :=
  if exponent.natAbs ≤ maxPower then
    if exponent < 0 then some (x / power exponent.natAbs)
    else
      let scaled := x * power exponent.natAbs
      if scaled.isInf then none else some scaled
  else if x == 0.0 then some x
  else if 0 < exponent then none
  else scale? (x / power maxPower) (exponent + maxPower)
termination_by exponent.natAbs
decreasing_by simp only [maxPower] at *; omega

def toFloat? (s : Scaled) : Option Float :=
  scale? (Float.ofScientific s.digits false 0) s.exponent

end Scaled

def readWhole? (chars : List Char) : Option (List Char × List Char) :=
  match splitDigits chars with
  | ([], _) => none
  -- A zero in front stands alone.
  | ('0' :: _ :: _, _) => none
  | split => some split

def readSome? (chars : List Char) : Option (List Char × List Char) :=
  match splitDigits chars with
  | ([], _) => none
  | split => some split

/-- The number of a text without fraction and exponent, if it can stay whole: it fits 64 bits, and is not zero
with a minus sign. -/
def wholeNumber? (negative : Bool) (digits : Nat) : Option Int :=
  if negative then
    if digits != 0 && digits ≤ Nat.pow 2 63 then some (-(digits : Int)) else none
  else if digits < Nat.pow 2 64 then some digits
  else none

def readNumber? (chars : List Char) : Option (Json × List Char) := do
  let (negative, unsigned) : Bool × List Char := match chars with
    | '-' :: rest => (true, rest)
    | rest => (false, rest)
  let (whole, rest) ← readWhole? unsigned
  let (fraction, rest) ← match rest with
    | '.' :: more => readSome? more
    | rest => some ([], rest)
  let (exponent, rest) ← match rest with
    | 'e' :: more | 'E' :: more =>
      let (down, digits) := Decimal.splitSign more
      (readSome? digits).map fun (digits, rest) =>
        (some (if down then -(digitsValue digits : Int) else digitsValue digits), rest)
    | rest => some (none, rest)
  let kept := if fraction.isEmpty && exponent.isNone then wholeNumber? negative (digitsValue whole) else none
  match kept with
  | some n => some (.integer n, rest)
  | none =>
    let read := (Scaled.zero.readWhole whole).readFraction fraction
    let x ← { read with exponent := read.exponent + exponent.getD 0 }.toFloat?
    some (.float (if negative then -x else x), rest)

end RuleScript.Json
