import RuleScript.Library.Standard

/-! Libraries of host functions.

A library is a name and a table of functions. Apart from the standard library there are tables of functions
that answer at once, and tables of functions that suspend before they answer.
-/

set_option autoImplicit false

namespace RuleScript

/-- A value described by the host. It is made anew each time it is asked for. -/
inductive Given where
  | empty
  | bool (value : Bool)
  | number (value : Float)
  | text (value : String)
  | array (items : List Given)
  | object (members : List (String × Given))
  | date (text : String) (zone : Option String)
  | dateTime (text : String) (zone : Option String)
  /-- Projected from a document of its own. -/
  | native (document : Json)
  deriving Inhabited

mutual

/-- Make the described value. Parts are made in order, and the first invalid date is reported. -/
def Given.make : Given → Action Value
  | .empty => pure .empty
  | .bool value => pure (.bool value)
  | .number value => pure (.number value)
  | .text value => pure (.text value)
  | .array items => do Action.newArray (← Given.makeItems items).toArray
  | .object members => do Action.newObject (Fields.ofList (← Given.makeMembers members))
  | .date written zone => return .date (← Action.ofExcept (Date.read written zone))
  | .dateTime written zone =>
    return .dateTime (← Action.ofExcept (DateTime.read written zone))
  | .native document => do
    let view ← modifyGet fun memory => memory.addDocument document
    view.project

def Given.makeItems : List Given → Action (List Value)
  | [] => pure []
  | item :: rest => do
    let value ← Given.make item
    let values ← Given.makeItems rest
    pure (value :: values)

def Given.makeMembers : List (String × Given) → Action (List (String × Value))
  | [] => pure []
  | (name, item) :: rest => do
    let value ← Given.make item
    let values ← Given.makeMembers rest
    pure ((name, value) :: values)

end

/-- What a host function does. -/
inductive Behaviour where
  | answer (value : Given)
  /-- One of the arguments, missing data if there are too few. -/
  | argument (position : Nat)
  /-- All arguments as an array. -/
  | arguments
  | now
  | today
  | fail (name : String)
  deriving Inhabited

def Behaviour.call (clock : Clock) (arguments : List Value) : Behaviour → Action Value
  | .answer value => value.make
  | .argument position => pure (Value.argument arguments position)
  | .arguments => Action.newArray arguments.toArray
  | .now => return .dateTime (← Action.ofExcept clock.now)
  | .today => return .date (← Action.ofExcept clock.today)
  | .fail name => throw (.methodNotFound name)

inductive Library where
  | standard
  | table (name : String) (functions : Fields Behaviour)
  /-- Functions that answer their first argument after suspending as often as it says. -/
  | suspending (name : String) (functions : List String)

namespace Library

def name : Library → String
  | standard => "standard"
  | table name _ => name
  | suspending name _ => name

def has (library : Library) (function : String) : Bool :=
  match library with
  | standard => (Standard.ofName? function).isSome
  | table _ functions => Fields.contains functions function
  | suspending _ functions => functions.contains function

/-- How often a call suspends: once for each whole unit of its first argument, if that is a number. -/
def suspensions (library : Library) (arguments : List Value) : Nat :=
  match library, Value.argument arguments 0 with
  | suspending .., .number x => (Decimal.truncate64 x).toNat
  | _, _ => 0

def answer (clock : Clock) (library : Library) (function : String) (arguments : List Value) :
    Action Value :=
  match library with
  | standard =>
    match Standard.ofName? function with
    | some known => known.call clock arguments
    | none => pure .empty
  | table _ functions =>
    match Fields.get? functions function with
    | some behaviour => behaviour.call clock arguments
    | none => throw (.methodNotFound function)
  | suspending .. => pure (Value.argument arguments 0)

end Library

end RuleScript
