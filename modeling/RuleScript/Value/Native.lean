import RuleScript.Value.View
import RuleScript.Json.Printer

/-! Values as host data, as text and as conditions. Only here are numbers rounded. -/

set_option autoImplicit false

namespace RuleScript

def isWholeAmount (rounded : Float) : Bool :=
  Decimal.isWhole rounded && rounded.abs < 9.0e15

/-- A number in cents; whole amounts are whole numbers, and what no JSON number can be is `null`. -/
def numberNative (x : Float) : Json :=
  let rounded := Decimal.roundToCents x
  if isWholeAmount rounded then .integer (Decimal.truncate64 rounded)
  else if rounded.isFinite then .float rounded
  else .null

def numberText (x : Float) : String :=
  let rounded := Decimal.roundToCents x
  if isWholeAmount rounded then toString (Decimal.truncate64 rounded)
  else Decimal.Layout.plain.write rounded

inductive Container where
  | array (place : Nat)
  | object (place : Nat)
  deriving DecidableEq, Repr

namespace Value

/-- The host form of a value. `opened` are the containers around it: a container inside itself is `null`.
`room` counts the containers that may still be opened. -/
def nativeWithin (memory : Memory) : Nat → List Container → Value → Json
  | _, _, .empty => .null
  | _, _, .number x => numberNative x
  | _, _, .text s => .string s
  | _, _, .bool b => .bool b
  | room, opened, .array place =>
    if .array place ∈ opened then .null
    else
      match room with
      | 0 => .null
      | room + 1 =>
        .array ((memory.items place).toList.map (nativeWithin memory room (.array place :: opened)))
  | room, opened, .object place =>
    if .object place ∈ opened then .null
    else
      match room with
      | 0 => .null
      | room + 1 =>
        .object ((memory.members place).map fun (name, value) =>
          (name, nativeWithin memory room (.object place :: opened) value))
  | _, _, .date d => .string d.text
  | _, _, .dateTime t => .string t.text
  | _, _, .closure _ => .null
  | _, _, .data view => view.native memory
  | _, _, .scope _ => .null

/-- The host form of a value. No more containers can be open than there are. -/
def native (memory : Memory) (value : Value) : Json :=
  nativeWithin memory (memory.arrays.size + memory.objects.size) [] value

/-- Whether the host form of a value reads the members of an object, on the way that `nativeWithin` takes. -/
def readsWithin (memory : Memory) (target : Nat) : Nat → List Container → Value → Bool
  | room, opened, .array place =>
    if .array place ∈ opened then false
    else
      match room with
      | 0 => false
      | room + 1 => (memory.items place).toList.any (readsWithin memory target room (.array place :: opened))
  | room, opened, .object place =>
    if .object place ∈ opened then false
    else if place = target then true
    else
      match room with
      | 0 => false
      | room + 1 =>
        (memory.members place).any fun (_, value) =>
          readsWithin memory target room (.object place :: opened) value
  | _, _, _ => false

/-- Whether an object has to be read for the host form of a value. -/
def reads (memory : Memory) (target : Nat) (value : Value) : Bool :=
  readsWithin memory target (memory.arrays.size + memory.objects.size) [] value

def toText (memory : Memory) : Value → String
  | .empty | .closure _ | .scope _ => ""
  | .number x => numberText x
  | .text s => s
  | .bool b => if b then "true" else "false"
  | .date d => d.text
  | .dateTime t => t.text
  | value => (value.native memory).compact

def isTruthy (memory : Memory) : Value → Bool
  | .empty => false
  | .bool b => b
  | .number x =>
    let rounded := Decimal.roundToCents x
    rounded != 0.0 && !rounded.isNaN
  | .text s => !s.isEmpty
  | .data view => !view.isNull memory
  | _ => true

end Value

/-- Write a member of the viewed object in its host form, and answer the value itself. Without an object there
nothing is written and the answer is missing data. -/
def View.set (view : View) (name : String) (value : Value) : StateM Memory Value :=
  modifyGet fun memory =>
    match Json.putAt? name (value.native memory) (memory.document view.document) view.path with
    | some document =>
      (value, { memory with documents := memory.documents.setIfInBounds view.document document })
    | none => (.empty, memory)

end RuleScript
