import RuleScript.Calendar.Date
import RuleScript.Document.Path
import RuleScript.Instruction.Basic

/-! Values of a run, and the memory that arrays, objects and host documents live in. -/

set_option autoImplicit false

namespace RuleScript

/-- A handle on a scope. -/
structure ScopeId where
  index : Nat
  deriving DecidableEq, Repr

/-- A live projection of one node of a document. -/
structure View where
  document : Nat
  path : Path
  deriving DecidableEq, Repr

def View.child (view : View) (step : Step) : View :=
  { view with path := view.path ++ [step] }

/-- Parameter names, a body, and the scope that the body's frame is a child of. -/
structure Closure where
  parameters : List String
  body : Instruction
  scope : ScopeId

/-- A value. Arrays and objects are places in memory, so copies of a value share them. -/
inductive Value where
  /-- Missing data; it answers every message with itself. -/
  | empty
  | number (value : Float)
  | text (value : String)
  | bool (value : Bool)
  | array (place : Nat)
  | object (place : Nat)
  | date (value : Date)
  | dateTime (value : DateTime)
  | closure (value : Closure)
  | data (view : View)
  | scope (id : ScopeId)
  deriving Inhabited

namespace Value

def variant : Value → Variant
  | empty => .empty
  | number _ => .number
  | text _ => .text
  | bool _ => .bool
  | array _ => .array
  | object _ => .object
  | date _ => .date
  | dateTime _ => .dateTime
  | closure _ => .closure
  | data _ => .data
  | scope _ => .scope

def isEmpty : Value → Bool
  | empty => true
  | _ => false

def ofOrdering : Ordering → Value
  | .lt => number (-1.0)
  | .eq => number 0.0
  | .gt => number 1.0

end Value

structure Memory where
  arrays : Array (Array Value)
  objects : Array (Fields Value)
  documents : Array Json

namespace Memory

def ofDocument (document : Json) : Memory :=
  ⟨#[], #[], #[document]⟩

def items (memory : Memory) (place : Nat) : Array Value :=
  memory.arrays.getD place #[]

def members (memory : Memory) (place : Nat) : Fields Value :=
  memory.objects.getD place []

def document (memory : Memory) (index : Nat) : Json :=
  memory.documents.getD index .null

def addArray (memory : Memory) (items : Array Value) : Value × Memory :=
  (.array memory.arrays.size, { memory with arrays := memory.arrays.push items })

def addObject (memory : Memory) (members : Fields Value) : Value × Memory :=
  (.object memory.objects.size, { memory with objects := memory.objects.push members })

def addDocument (memory : Memory) (document : Json) : View × Memory :=
  (⟨memory.documents.size, []⟩, { memory with documents := memory.documents.push document })

end Memory

abbrev Action (α : Type) := ExceptT Failure (StateM Memory) α

namespace Action

def ofExcept {α : Type} : Except Failure α → Action α
  | .ok value => pure value
  | .error failure => throw failure

def newArray (items : Array Value) : Action Value :=
  modifyGet fun memory => memory.addArray items

def newObject (members : Fields Value) : Action Value :=
  modifyGet fun memory => memory.addObject members

end Action

end RuleScript
