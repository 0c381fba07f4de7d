import RuleScript.Decimal.Shortest

/-! How a double is written: its shortest digits, laid out with or without an exponent. -/

set_option autoImplicit false

namespace RuleScript.Decimal

structure Layout where
  /-- Which of two equally near decimals is written. -/
  tie : Tie
  /-- Exponents of the leading digit that are written without an exponent, all if absent. -/
  positional : Option (Int × Int)
  /-- Whether a whole number keeps a fraction. -/
  fraction : Bool

/-- Numbers in texts that a program makes: never an exponent, no fraction on a whole number. -/
def Layout.plain : Layout := ⟨.up, none, false⟩

/-- Numbers in JSON text: an exponent outside of `10⁻⁵` to `10¹⁶`, otherwise always a fraction. -/
def Layout.json : Layout := ⟨.even, some (-5, 15), true⟩

def zeros (count : Nat) : List Char :=
  List.replicate count '0'

def Layout.writePositional (layout : Layout) (digits : List Char) (exponent : Int) : List Char :=
  match exponent with
  | .ofNat e => digits ++ zeros e ++ (if layout.fraction then ['.', '0'] else [])
  | .negSucc e =>
    let places := e + 1
    if places < digits.length then
      digits.take (digits.length - places) ++ '.' :: digits.drop (digits.length - places)
    else ['0', '.'] ++ zeros (places - digits.length) ++ digits

def writeExponent (digits : List Char) (leading : Int) : List Char :=
  let mantissa := match digits with
    | first :: second :: rest => first :: '.' :: second :: rest
    | short => short
  mantissa ++ 'e' :: (if leading < 0 then '-' else '+') :: Nat.toDigits 10 leading.natAbs

def Layout.writeBinary (layout : Layout) (b : Binary) : List Char :=
  let sign := if b.negative then ['-'] else []
  if b.mantissa = 0 then sign ++ layout.writePositional ['0'] 0
  else
    let s := shortest layout.tie b.mantissa b.exponent
    let digits := Nat.toDigits 10 s.digits
    let leading := s.exponent + digits.length - 1
    let positional := match layout.positional with
      | some (least, most) => least ≤ leading && leading ≤ most
      | none => true
    sign ++ if positional then layout.writePositional digits s.exponent
      else writeExponent digits leading

def Layout.write (layout : Layout) (x : Float) : String :=
  match Binary.ofFloat? x with
  | some b => String.ofList (layout.writeBinary b)
  | none => if x.isNaN then "NaN" else if x < 0 then "-inf" else "inf"

end RuleScript.Decimal
