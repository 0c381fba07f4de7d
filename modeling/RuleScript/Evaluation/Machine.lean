import RuleScript.Scope.Arena
import RuleScript.Task

/-! The state of a run, and the steps that read and change it. -/

set_option autoImplicit false

namespace RuleScript

structure Machine where
  arena : Arena
  memory : Memory

/-- A computation of a run: it may suspend, and it may fail. A failure is an answer like any other for the
members of a group. -/
abbrev Run (α : Type) := ExceptT Failure (Task Machine) α

inductive Flow where
  /-- Without a value. -/
  | nothing
  | value (value : Value)
  /-- With a break, which goes up to the nearest loop over an array. -/
  | stop

namespace Flow

def toValue : Flow → Value
  | value v => v
  | _ => .empty

def isStop : Flow → Bool
  | stop => true
  | _ => false

/-- Go on with the value of a flow; a break is handed on. -/
def withValue (flow : Flow) (next : Value → Run Flow) : Run Flow :=
  match flow with
  | stop => pure stop
  | flow => next flow.toValue

end Flow

namespace Run

def action {α : Type} (act : Action α) : Run α :=
  fun machine =>
    match machine with
    | ⟨arena, memory⟩ =>
      let (result, memory) := act memory
      .done ⟨arena, memory⟩ result

def inspect {α : Type} (read : Memory → α) : Run α :=
  fun machine => .done machine (.ok (read machine.memory))

def scopes {α : Type} (change : Arena → α × Arena) : Run α :=
  fun machine =>
    match machine with
    | ⟨arena, memory⟩ =>
      let (result, arena) := change arena
      .done ⟨arena, memory⟩ (.ok result)

def suspend (count : Nat) : Run Unit :=
  ExceptT.lift (Task.suspend count)

/-- Run to the end; what was changed before a failure stays. `none` means that a limit was exceeded. -/
def perform {α : Type} (run : Run α) (machine : Machine) : Option (Except Failure α × Machine) :=
  (Task.run run machine).map fun (machine, result) => (result, machine)

end Run

namespace Machine

/-- Read a name: as a variable of the scope, else as a member of its data view, else from its parent, through at
most `limit` scopes. -/
def lookUpWithin (name : String) : Nat → ScopeId → Run Value
  | 0, _ => throw (.crash .endlessSearch)
  | limit + 1, scope => do
    let machine ← get
    let frame := machine.arena.frame scope
    let upwards : Run Value :=
      match frame.parent with
      | some parent => lookUpWithin name limit parent
      | none => pure .empty
    match Fields.get? frame.locals name, frame.view with
    | some value, _ => pure value
    | none, some view => if view.has name machine.memory then Run.action (view.get name) else upwards
    | none, none => upwards

/-- The value of a name; no binding is missing data. A search through more scopes than there are never ends. -/
def lookUp (scope : ScopeId) (name : String) : Run Value := do
  lookUpWithin name (← get).arena.frames.size scope

/-- Overwrite a name: a variable of the scope, else a member of its data view, else what its parent has, through at
most `limit` scopes. -/
def assignWithin (name : String) (value : Value) : Nat → ScopeId → Run Value
  | 0, _ => throw (.crash .endlessSearch)
  | limit + 1, scope => do
    let machine ← get
    let frame := machine.arena.frame scope
    let upwards : Run Value :=
      match frame.parent with
      | some parent => assignWithin name value limit parent
      | none => throw (.undeclaredVariable name)
    if Fields.contains frame.locals name then
      Run.scopes fun arena => (value, arena.modifyFrame scope fun frame =>
        { frame with locals := Fields.put frame.locals name value })
    else
      match frame.view with
      | some view => if view.has name machine.memory then Run.action (view.set name value) else upwards
      | none => upwards

def assign (scope : ScopeId) (name : String) (value : Value) : Run Value := do
  assignWithin name value (← get).arena.frames.size scope

def declare (scope : ScopeId) (name : String) (value : Value) : Run Value :=
  fun machine =>
    match machine with
    | ⟨arena, memory⟩ =>
      match arena.declare scope name value with
      | .ok arena => .done ⟨arena, memory⟩ (.ok value)
      | .error failure => .done ⟨arena, memory⟩ (.error failure)

/-- Run a body in a new child scope, which is released however the body ends. -/
def inChild (parent : ScopeId) (view : Option View) (body : ScopeId → Run Flow) : Run Flow :=
  ExceptT.mk do
    let scope ← modifyGet fun (machine : Machine) =>
      let (scope, arena) := machine.arena.child parent view
      (scope, { machine with arena })
    let result ← (body scope).run
    modify fun (machine : Machine) => { machine with arena := machine.arena.release scope }
    pure result

end Machine

end RuleScript
