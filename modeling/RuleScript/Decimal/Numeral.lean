import RuleScript.Decimal.Shortest
import RuleScript.Text.Blank

/-! Reading numbers: decimal literals, the words for the special doubles, and array positions.

A decimal literal has an optional sign, digits with an optional point and at least one digit, and
an optional exponent with at least one digit.
-/

set_option autoImplicit false

namespace RuleScript.Decimal

open RuleScript.Text (isDigit digitsValue)

/-- The decimal `± digits · 10 ^ exponent`. -/
structure Numeral where
  negative : Bool
  digits : Nat
  exponent : Int
  deriving DecidableEq, Repr

/-- The nearest double. Beyond `10 ^ ±400` only infinity and zero are near. -/
def Numeral.toFloat (n : Numeral) : Float :=
  let leading := n.exponent + digitCount n.digits
  let magnitude : Float :=
    if n.digits = 0 || leading < -400 then 0.0
    else if 400 < leading then 1.0 / 0.0
    else Float.ofScientific n.digits (n.exponent < 0) n.exponent.natAbs
  if n.negative then -magnitude else magnitude

def splitSign : List Char → Bool × List Char
  | '-' :: rest => (true, rest)
  | '+' :: rest => (false, rest)
  | chars => (false, chars)

def splitDigits (chars : List Char) : List Char × List Char :=
  (chars.takeWhile isDigit, chars.dropWhile isDigit)

def readExponent? (chars : List Char) : Option Int :=
  let (negative, rest) := splitSign chars
  if rest.isEmpty || !rest.all isDigit then none
  else some (if negative then -(digitsValue rest : Int) else digitsValue rest)

def Numeral.read? (chars : List Char) : Option Numeral :=
  let (negative, unsigned) := splitSign chars
  let (whole, afterWhole) := splitDigits unsigned
  let (fraction, rest) := match afterWhole with
    | '.' :: afterPoint => splitDigits afterPoint
    | _ => ([], afterWhole)
  if whole.isEmpty && fraction.isEmpty then none
  else
    let digits := digitsValue (whole ++ fraction)
    match rest with
    | [] => some ⟨negative, digits, -(fraction.length : Int)⟩
    | mark :: exponent =>
      if mark = 'e' || mark = 'E' then
        (readExponent? exponent).map fun e => ⟨negative, digits, e - fraction.length⟩
      else none

def readWord? (chars : List Char) : Option Float :=
  let (negative, word) := splitSign chars
  let sign (x : Float) : Float := if negative then -x else x
  match Text.asciiLower (String.ofList word) with
  | "inf" | "infinity" => some (sign (1.0 / 0.0))
  | "nan" => some (sign (0.0 / 0.0))
  | _ => none

def readFloat? (chars : List Char) : Option Float :=
  match Numeral.read? chars with
  | some numeral => some numeral.toFloat
  | none => readWord? chars

def isNumeric (c : Char) : Bool :=
  isDigit c || c = '+' || c = '-' || c = '.' || c = 'e' || c = 'E'

def longestNumeral? (chars : List Char) : Nat → Option Numeral
  | 0 => none
  | length + 1 =>
    match Numeral.read? (chars.take (length + 1)) with
    | some numeral => some numeral
    | none => longestNumeral? chars length

/-- The double at the start of a text, after white space; `none` if the text starts with no literal. -/
def leadingFloat? (text : String) : Option Float :=
  let candidate := (Text.trimLeft text.toList).takeWhile isNumeric
  (longestNumeral? candidate candidate.length).map Numeral.toFloat

/-- A position: digits after an optional plus sign, below `2 ^ 64`. -/
def readIndex? (text : String) : Option Nat :=
  let digits := match text.toList with
    | '+' :: rest => rest
    | chars => chars
  if digits.isEmpty || !digits.all isDigit then none
  else
    let n := digitsValue digits
    if n < Nat.pow 2 64 then some n else none

end RuleScript.Decimal
