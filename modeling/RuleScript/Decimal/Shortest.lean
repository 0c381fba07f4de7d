import RuleScript.Decimal.Binary

/-! The shortest decimal that reads back as a given double.

A positive double stands for an interval of reals, those nearer to it than to its neighbours, with both
ends if its mantissa is even. For one digit, two digits and so on the two neighbours of the
value on that decimal grid are tried in exact arithmetic. The first grid with a neighbour inside
the interval wins; of two neighbours inside, the nearer one, and `Tie` says which at equal distance.
-/

set_option autoImplicit false

namespace RuleScript.Decimal

structure Scientific where
  digits : Nat
  exponent : Int
  deriving DecidableEq, Repr

inductive Tie where
  | up
  | even
  deriving DecidableEq, Repr

/-- The value and the ends of its interval over one denominator. -/
structure Interval where
  low : Nat
  value : Nat
  high : Nat
  denominator : Nat
  closed : Bool

namespace Interval

/-- The reals that round to the positive double `mantissa · 2 ^ exponent`. Below a power of two the
neighbours are half as far away, the smallest exponent apart. -/
def ofBinary (mantissa : Nat) (exponent : Int) : Interval :=
  let below := if mantissa = Nat.pow 2 52 && exponent != -1074 then 1 else 2
  let (scale, denominator) : Nat × Nat :=
    match exponent - 2 with
    | .ofNat e => (Nat.pow 2 e, 1)
    | .negSucc e => (1, Nat.pow 2 (e + 1))
  { low := (4 * mantissa - below) * scale
    value := 4 * mantissa * scale
    high := (4 * mantissa + 2) * scale
    denominator
    closed := mantissa % 2 = 0 }

def holds (i : Interval) (digits num den : Nat) : Bool :=
  let point := digits * num * i.denominator
  if i.closed then i.low * den ≤ point && point ≤ i.high * den
  else i.low * den < point && point < i.high * den

def nearest? (i : Interval) (tie : Tie) (exponent : Int) : Option Nat :=
  let (num, den) : Nat × Nat :=
    match exponent with
    | .ofNat e => (Nat.pow 10 e, 1)
    | .negSucc e => (1, Nat.pow 10 (e + 1))
  let below := i.value * den / (num * i.denominator)
  let above := below + 1
  match i.holds below num den, i.holds above num den with
  | true, true =>
    let down := i.value * den - below * num * i.denominator
    let up := above * num * i.denominator - i.value * den
    if down < up then some below
    else if up < down then some above
    else match tie with
      | .up => some above
      | .even => if below % 2 = 0 then some below else some above
  | true, false => some below
  | false, true => some above
  | false, false => none

end Interval

def digitCount (n : Nat) : Nat :=
  (Nat.toDigits 10 n).length

def leadingExponent (num den : Nat) : Int :=
  let guess : Int := (digitCount num : Int) - digitCount den
  let reaches : Bool :=
    match guess with
    | .ofNat e => den * Nat.pow 10 e ≤ num
    | .negSucc e => den ≤ num * Nat.pow 10 (e + 1)
  -- The number of digits tells the exponent but for one.
  if reaches then guess else guess - 1

def Scientific.strip (s : Scientific) : Nat → Scientific
  | 0 => s
  | count + 1 =>
    if s.digits % 10 = 0 && s.digits != 0 then
      Scientific.strip ⟨s.digits / 10, s.exponent + 1⟩ count
    else s

/-- The shortest decimal for the positive double `mantissa · 2 ^ exponent`. Seventeen digits are
always enough. -/
def shortest (tie : Tie) (mantissa : Nat) (exponent : Int) : Scientific :=
  let interval := Interval.ofBinary mantissa exponent
  let leading := leadingExponent interval.value interval.denominator
  let found := (List.range 17).findSome? fun (more : Nat) =>
    let exponent := leading - (more : Int)
    (interval.nearest? tie exponent).map (Scientific.mk · exponent)
  (found.getD ⟨0, 0⟩).strip 20

end RuleScript.Decimal
