import RuleScript.Value.Native
import RuleScript.Text.Case

/-! Sending a message to a value. Each variant of value answers the messages it knows. -/

set_option autoImplicit false

namespace RuleScript.Value

def argument (arguments : List Value) (position : Nat) : Value :=
  arguments.getD position .empty

def mismatch {α : Type} (operation : Operation) (left : Variant) (right : Value) : Action α :=
  throw (.typeMismatch operation left right.variant)

def unknown {α : Type} (message : Message) (receiver : Variant) : Action α :=
  throw (.messageNotFound message receiver)

def orderNumbers (a b : Float) : Ordering :=
  if a < b then .lt else if a == b then .eq else if b < a then .gt else .lt

def orderBools (a b : Bool) : Ordering :=
  if a = b then .eq else if b then .lt else .gt

def sendNumber (x : Float) (message : Message) (arguments : List Value) : Action Value := do
  let other := argument arguments 0
  match message with
  | .add =>
    match other with
    | .number y => pure (.number (x + y))
    | .text s => pure (.text (numberText x ++ s))
    | _ => mismatch .add .number other
  | .sub =>
    match other with
    | .number y => pure (.number (x - y))
    | _ => mismatch .subtract .number other
  | .mul =>
    match other with
    | .number y => pure (.number (x * y))
    | _ => mismatch .multiply .number other
  | .div =>
    match other with
    | .number y => pure (.number (x / y))
    | _ => mismatch .divide .number other
  | .compare =>
    match other with
    | .number y => pure (.ofOrdering (orderNumbers x y))
    | _ => mismatch .compare .number other
  | .neg => pure (.number (-x))
  | .isEmpty => pure (.bool false)
  | _ => unknown message .number

def sendText (s : String) (message : Message) (arguments : List Value) : Action Value := do
  let memory ← get
  let other := argument arguments 0
  match message with
  | .add => pure (.text (s ++ other.toText memory))
  | .compare => pure (.ofOrdering (Ord.compare s (other.toText memory)))
  | .isEmpty => pure (.bool s.isEmpty)
  | .toUpper => pure (.text (Text.toUpper s))
  | .toLower => pure (.text (Text.toLower s))
  | .length => pure (.number (Float.ofNat s.length))
  | _ => unknown message .text

def sendBool (b : Bool) (message : Message) (arguments : List Value) : Action Value := do
  let memory ← get
  let other := argument arguments 0
  match message with
  | .and => pure (.bool (b && other.isTruthy memory))
  | .or => pure (.bool (b || other.isTruthy memory))
  | .neg => pure (.bool !b)
  | .isEmpty => pure (.bool false)
  | .compare =>
    match other with
    | .bool c => pure (.ofOrdering (orderBools b c))
    | _ => mismatch .compare .bool other
  | _ => unknown message .bool

def maxGap : Nat := 10000

/-- The position that a whole number from 0 on means, or the text of a position. -/
def position? : Value → Option Nat
  | .number x =>
    match Decimal.Binary.ofFloat? x with
    | some b => if 0.0 ≤ x && b.isWhole then some b.truncate.toNat else none
    | none => none
  | .text s => Decimal.readIndex? s
  | _ => none

/-- Write at a position, filling up with missing data from the end of the items. -/
def writeItem (items : Array Value) (position : Nat) (value : Value) : Array Value :=
  if position < items.size then items.setIfInBounds position value
  else (items ++ Array.replicate (position - items.size) Value.empty).push value

def sendArray (place : Nat) (message : Message) (arguments : List Value) : Action Value := do
  match message with
  | .get =>
    let memory ← get
    match position? (argument arguments 0) with
    | some position => pure ((memory.items place).getD position .empty)
    | none => pure .empty
  | .set =>
    let size := ((← get).items place).size
    match position? (argument arguments 0) with
    | some position =>
      -- Behind the end, items are filled in up to the position.
      if position ≤ size + maxGap then
        let value := argument arguments 1
        modify fun memory =>
          { memory with arrays := memory.arrays.modify place (writeItem · position value) }
        pure value
      else mismatch .index .array (argument arguments 0)
    | none => mismatch .index .array (argument arguments 0)
  | .length => pure (.number (Float.ofNat ((← get).items place).size))
  | .isEmpty => pure (.bool ((← get).items place).isEmpty)
  | _ => unknown message .array

def sendObject (place : Nat) (message : Message) (arguments : List Value) : Action Value := do
  let memory ← get
  let name := (argument arguments 0).toText memory
  match message with
  | .get => pure ((Fields.get? (memory.members place) name).getD .empty)
  | .set =>
    -- The object is held for the write already while the text of its key is made.
    if (argument arguments 0).reads memory place then throw (.crash .objectInUse)
    else
      let value := argument arguments 1
      modify fun memory =>
        { memory with objects := memory.objects.modify place (Fields.put · name value) }
      pure value
  | .has => pure (.bool (Fields.contains (memory.members place) name))
  | .length => pure (.number (Float.ofNat (memory.members place).length))
  | .isEmpty => pure (.bool (memory.members place).isEmpty)
  | _ => unknown message .object

def sendDate (d : Date) (message : Message) (arguments : List Value) : Action Value := do
  let other := argument arguments 0
  match message with
  | .add =>
    match other with
    | .number x => return .date (← Action.ofExcept (d.addDays x))
    | _ => pure .empty
  | .sub =>
    match other with
    | .number x => return .date (← Action.ofExcept (d.addDays (-x)))
    | .date e => pure (.number (Float.ofInt (d.daysSince e)))
    | .dateTime t => pure (.number (Float.ofInt (d.daysSince t.date)))
    | _ => pure .empty
  | .compare =>
    match other with
    | .date e => pure (.ofOrdering (Ord.compare d.day.number e.day.number))
    | .dateTime t => pure (.ofOrdering (Ord.compare d.day.number t.date.day.number))
    | .text s => pure (.ofOrdering (Ord.compare d.text s))
    | _ => mismatch .compare .date other
  | .start => pure (.dateTime d.start)
  | .finish => pure (.dateTime d.finish)
  | .isEmpty => pure (.bool false)
  | _ => unknown message .date

def sendDateTime (t : DateTime) (message : Message) (arguments : List Value) : Action Value := do
  let other := argument arguments 0
  match message with
  | .add =>
    match other with
    | .number x => return .dateTime (← Action.ofExcept (t.addDays x))
    | _ => pure .empty
  | .sub =>
    match other with
    | .number x => return .dateTime (← Action.ofExcept (t.addDays (-x)))
    | .dateTime u => pure (.number (Float.ofInt (t.date.daysSince u.date)))
    | .date d => pure (.number (Float.ofInt (t.date.daysSince d)))
    | _ => pure .empty
  | .compare =>
    match other with
    | .dateTime u => pure (.ofOrdering (t.instant.compare u.instant))
    -- Mixed pairs compare by the day on the clock of the date-time.
    | .date d => pure (.ofOrdering (Ord.compare t.date.day.number d.day.number))
    | .text s => pure (.ofOrdering (Ord.compare t.text s))
    | _ => mismatch .compare .dateTime other
  | .date => pure (.date t.date)
  | .isEmpty => pure (.bool false)
  | _ => unknown message .dateTime

def sendView (view : View) (message : Message) (arguments : List Value) : Action Value := do
  let memory ← get
  let name := (argument arguments 0).toText memory
  match message with
  | .get => view.get name
  | .set => view.set name (argument arguments 1)
  | .has => pure (.bool (view.has name memory))
  | .isEmpty => pure (.bool (view.isEmpty memory))
  | _ => unknown message .data

/-- The answer to a message that needs no evaluation. Missing data answers with itself, and nothing is
ordered against it, whichever side it is on. -/
def send (receiver : Value) (message : Message) (arguments : List Value) : Action Value :=
  if message = .compare && (argument arguments 0).isEmpty then pure .empty
  else
    match receiver with
    | .empty => pure (if message = .isEmpty then .bool true else .empty)
    | .number x => sendNumber x message arguments
    | .text s => sendText s message arguments
    | .bool b => sendBool b message arguments
    | .array place => sendArray place message arguments
    | .object place => sendObject place message arguments
    | .date d => sendDate d message arguments
    | .dateTime t => sendDateTime t message arguments
    | .data view => sendView view message arguments
    | .closure _ => unknown message .closure
    | .scope _ => unknown message .scope

def compare (left right : Value) : Action Value :=
  left.send .compare [right]

def add (left right : Value) : Action Value :=
  left.send .add [right]

end RuleScript.Value
