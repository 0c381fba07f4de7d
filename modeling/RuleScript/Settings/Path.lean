import RuleScript.Text.Blank
import RuleScript.Decimal.Binary

/-! Paths to settings: `name.name[2].name`, names joined by points and positions of lists in brackets. -/

set_option autoImplicit false

namespace RuleScript

/-- A step of a path: to the entry of a table, or to an item of a list. Positions below zero count from the end. -/
inductive SettingStep where
  | entry (name : String)
  | item (position : Int)
  deriving DecidableEq, Repr

abbrev SettingPath := List SettingStep

namespace SettingPath

def isNameChar (c : Char) : Bool :=
  ('a' ≤ c && c ≤ 'z') || ('A' ≤ c && c ≤ 'Z') || Text.isDigit c || c = '_' || c = '-' || c = ' '

def skipBlanks (chars : List Char) : List Char :=
  chars.dropWhile fun c => c = ' ' || c = '\t'

def readName? (chars : List Char) : Option (String × List Char) :=
  let name := chars.takeWhile isNameChar
  if name.isEmpty then none else some (String.ofList name, chars.dropWhile isNameChar)

def readPosition? (chars : List Char) : Option (Int × List Char) :=
  let (negative, unsigned) : Bool × List Char := match skipBlanks chars with
    | '-' :: rest => (true, rest)
    | rest => (false, rest)
  let digits := unsigned.takeWhile Text.isDigit
  let n : Int := Text.digitsValue digits
  let position := if negative then -n else n
  match skipBlanks (unsigned.dropWhile Text.isDigit) with
  | ']' :: rest =>
    if !digits.isEmpty && Decimal.int64Min ≤ position && position ≤ Decimal.int64Max then
      some (position, rest)
    else none
  | _ => none

/-- The steps after the first name; `count` is above the length of the text. -/
def readSteps? : Nat → List Char → Option SettingPath
  | 0, _ => none
  | count + 1, chars =>
    match chars with
    | [] => some []
    | '.' :: rest => do
      let (name, rest) ← readName? rest
      some (.entry name :: (← readSteps? count rest))
    | '[' :: rest => do
      let (position, rest) ← readPosition? rest
      some (.item position :: (← readSteps? count rest))
    | _ => none

def read? (text : String) : Option SettingPath := do
  let (name, rest) ← readName? text.toList
  some (.entry name :: (← readSteps? (rest.length + 1) rest))

/-- The path that a text writes; any other text is one name. -/
def ofText (text : String) : SettingPath :=
  (read? text).getD [.entry text]

end SettingPath

end RuleScript
