import RuleScript.Value.Send

/-! The standard library: conversions, aggregates over the items of an array, and the clock. -/

set_option autoImplicit false

namespace RuleScript

inductive Standard where
  | string
  | number
  | bool
  | count
  | min
  | max
  | sum
  | first
  | last
  | concat
  | now
  | today
  deriving DecidableEq, Repr

namespace Standard

def name : Standard → String
  | string => "STRING"
  | number => "NUMBER"
  | bool => "BOOL"
  | count => "COUNT"
  | min => "MIN"
  | max => "MAX"
  | sum => "SUM"
  | first => "FIRST"
  | last => "LAST"
  | concat => "CONCAT"
  | now => "now"
  | today => "today"

def all : List Standard :=
  [string, number, bool, count, min, max, sum, first, last, concat, now, today]

def ofName? (name : String) : Option Standard :=
  all.find? fun function => function.name = name

def toString (memory : Memory) (value : Value) : Value :=
  let text := value.toText memory
  if text.isEmpty then .empty else .text text

def toNumber (memory : Memory) : Value → Value
  | .number x => .number x
  | value =>
    match Decimal.leadingFloat? (value.toText memory) with
    | some x => .number x
    | none => .empty

/-- Truth, but `false` written out is false, and a number is true unless it is exactly zero or zero in cents. -/
def toBool (memory : Memory) : Value → Value
  | .text "false" => .bool false
  | .number x => .bool (x != 0.0 && (Value.number x).isTruthy memory)
  | value => .bool (value.isTruthy memory)

def items (memory : Memory) : Value → List Value
  | .array place => (memory.items place).toList
  | _ => []

/-- Go through the items and take the next one for the best so far where `replaces` holds of how the best
compares with it. -/
def extreme (replaces : Float → Bool) : Value → List Value → Action Value
  | best, [] => pure best
  | best, next :: rest => do
    match ← best.compare next with
    | .number order => extreme replaces (if replaces order then next else best) rest
    | _ => extreme replaces best rest

def addAll : Value → List Value → Action Value
  | total, [] => pure total
  | total, next :: rest => do addAll (← total.add next) rest

def onItems (f : Value → List Value → Action Value) : List Value → Action Value
  | [] => pure .empty
  | head :: rest => f head rest

def call (clock : Clock) (function : Standard) (arguments : List Value) : Action Value := do
  let memory ← get
  let value := Value.argument arguments 0
  let items := items memory value
  match function with
  | string => pure (toString memory value)
  | number => pure (toNumber memory value)
  | bool => pure (toBool memory value)
  | count => pure (.number (Float.ofNat items.length))
  | min => onItems (extreme (0.0 < ·)) items
  | max => onItems (extreme (· < 0.0)) items
  | sum => onItems addAll items
  | first => pure (items.head?.getD .empty)
  | last => pure (items.getLast?.getD .empty)
  | concat =>
    match items with
    | [] => pure (.text "")
    -- A first item without text is missing data, which takes in all the others.
    | head :: rest => addAll (toString memory head) rest
  | now => return .dateTime (← Action.ofExcept clock.now)
  | today => return .date (← Action.ofExcept clock.today)

end Standard

end RuleScript
