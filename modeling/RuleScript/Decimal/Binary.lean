/-! Doubles as exact binary fractions: every finite double is `± mantissa · 2 ^ exponent`.

Flooring, truncating and rounding are read off that form in whole-number arithmetic, so they are
exact and can be reasoned about.
-/

set_option autoImplicit false

namespace RuleScript.Decimal

/-- The value `mantissa · 2 ^ exponent`, negated if `negative`. -/
structure Binary where
  negative : Bool
  mantissa : Nat
  exponent : Int
  deriving DecidableEq, Repr, Inhabited

namespace Binary

def ofFloat? (x : Float) : Option Binary :=
  let bits : Nat := x.toBits.toNat
  let negative : Bool := bits / Nat.pow 2 63 = 1
  let field : Nat := bits / Nat.pow 2 52 % Nat.pow 2 11
  let fraction : Nat := bits % Nat.pow 2 52
  if field = Nat.pow 2 11 - 1 then none
  else if field = 0 then some ⟨negative, fraction, -1074⟩
  else some ⟨negative, fraction + Nat.pow 2 52, (field : Int) - 1075⟩

def signed (b : Binary) (magnitude : Nat) : Int :=
  if b.negative then -(magnitude : Int) else magnitude

def ratio (b : Binary) : Nat × Nat :=
  match b.exponent with
  | .ofNat e => (b.mantissa * Nat.pow 2 e, 1)
  | .negSucc e => (b.mantissa, Nat.pow 2 (e + 1))

def isWhole (b : Binary) : Bool :=
  let (num, den) := b.ratio
  num % den = 0

def truncate (b : Binary) : Int :=
  let (num, den) := b.ratio
  b.signed (num / den)

def floor (b : Binary) : Int :=
  let (num, den) := b.ratio
  Int.fdiv (b.signed num) den

/-- To the nearest whole number, a half away from zero. -/
def round (b : Binary) : Int :=
  let (num, den) := b.ratio
  b.signed ((2 * num + den) / (2 * den))

end Binary

def isWhole (x : Float) : Bool :=
  match Binary.ofFloat? x with
  | some b => b.isWhole
  | none => false

def floor (x : Float) : Float :=
  match Binary.ofFloat? x with
  | some b => if b.isWhole then x else Float.ofInt b.floor
  | none => x

def int64Min : Int := -9223372036854775808
def int64Max : Int := 9223372036854775807

def clamp64 (n : Int) : Int :=
  max int64Min (min int64Max n)

/-- The whole number that `pick` takes from a finite double, limited to 64 bits with sign; an infinity
is the limit on its side, and what is no number is 0. -/
def toInt64 (pick : Binary → Int) (x : Float) : Int :=
  match Binary.ofFloat? x with
  | some b => clamp64 (pick b)
  | none => if x.isNaN then 0 else if x < 0 then int64Min else int64Max

def truncate64 (x : Float) : Int :=
  toInt64 Binary.truncate x

def round64 (x : Float) : Int :=
  toInt64 Binary.round x

/-- Half up to two decimals, the precision in which numbers leave a program. -/
def roundToCents (x : Float) : Float :=
  floor (x * 100.0 + 0.5) / 100.0

end RuleScript.Decimal
