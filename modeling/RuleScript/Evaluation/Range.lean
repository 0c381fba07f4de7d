import RuleScript.Value.Send

/-! Relations between values, and ranges of numbers. -/

set_option autoImplicit false

namespace RuleScript

def relation? : String → Option (Float → Bool)
  | "==" => some (· == 0.0)
  | "!=" => some (· != 0.0)
  | ">" => some (0.0 < ·)
  | "<" => some (· < 0.0)
  | "<=" => some (· ≤ 0.0)
  | ">=" => some (0.0 ≤ ·)
  | _ => none

/-- Whether an operator holds of a comparison. What could not be compared only differs. -/
def relate (operator : String) (order : Value) : Except Failure Bool :=
  match relation? operator with
  | none => .error (.unknownOperator operator)
  | some holds =>
    match order with
    | .number x => .ok (holds x)
    | _ => .ok (operator = "!=")

def maxRange : Float := 1000000.0

def rangeOf (first last : Value) : Except Failure (Array Value) :=
  match first, last with
  | .number a, .number b =>
    if !a.isFinite || !b.isFinite then .error (.typeMismatch .generate .number .number)
    else if b < a then .ok #[]
    else
      let span := Decimal.floor (b - a)
      if maxRange ≤ span then .error (.typeMismatch .generate .number .number)
      else
        .ok (Array.ofFn fun (step : Fin ((Decimal.truncate64 span).toNat + 1)) =>
          .number (a + Float.ofNat step))
  | a, b => .error (.typeMismatch .generate a.variant b.variant)

end RuleScript
