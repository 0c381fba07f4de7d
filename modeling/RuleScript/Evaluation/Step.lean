import RuleScript.Evaluation.Machine
import RuleScript.Evaluation.Range

/-! Evaluating one instruction, given how its parts are evaluated.

Each rule takes the evaluator of the parts as an argument, so a rule is no recursion of its own: loops go
over the parts, the items of an array or the matches of a search. Only the members of array and object
literals are polled together; all else goes in source order.
-/

set_option autoImplicit false

namespace RuleScript

abbrev Evaluator := Instruction → ScopeId → Run Flow

namespace Evaluator

variable (clock : Clock) (eval : Evaluator)

def valueOf (instruction : Instruction) (scope : ScopeId) (next : Value → Run Flow) : Run Flow := do
  (← eval instruction scope).withValue next

/-- Lines one after another, up to one that breaks. `last` is the flow of the line before. -/
def lines (scope : ScopeId) (last : Flow) : List Instruction → Run Flow
  | [] => pure last
  | line :: rest => do
    let flow ← eval line scope
    if flow.isStop then pure flow else lines scope flow rest

def bindParameters (scope : ScopeId) : List String → List Value → Run Unit
  | [], _ => pure ()
  | parameter :: parameters, arguments => do
    let _ ← Machine.declare scope parameter (arguments.headD .empty)
    bindParameters scope parameters arguments.tail

/-- Run a closure in a new child of the scope it was made in. -/
def invoke (closure : Closure) (arguments : List Value) : Run Flow :=
  Machine.inChild closure.scope none fun scope => do
    bindParameters scope closure.parameters arguments
    eval closure.body scope

def ask (library : Library) (function : String) (arguments : List Value) : Run Flow := do
  Run.suspend (library.suspensions arguments)
  return .value (← Run.action (library.answer clock function arguments))

def callName (scope : ScopeId) (name : String) (arguments : List Value) : Run Flow := do
  match (← get).arena.resolveCall scope name with
  | .ok (.closure closure) => invoke eval closure arguments
  | .ok (.library library) => ask clock library name arguments
  | .error failure => throw failure

def callValue (receiver : Value) (arguments : List Value) : Run Flow :=
  match receiver with
  | .closure closure => invoke eval closure arguments
  | .scope scope => callName clock eval scope Message.call.name arguments
  | _ => do return .value (← Run.action (receiver.send .call arguments))

/-- Call a body for each item in turn, up to one that breaks. The answer is the last value, and `last` the one so
far. -/
def iterate (body : Value) (last : Flow) : List Value → Run Flow
  | [] => pure last
  | item :: rest => do
    match ← callValue clock eval body [item] with
    | .stop => pure last
    | .nothing => iterate body last rest
    | .value v => iterate body (.value v) rest

/-- Send a message that may need evaluation: to a scope, a closure, or the items of an array as they are when
the iteration starts. All others are answered by the value alone. -/
def send (receiver : Value) (message : Message) (arguments : List Value) : Run Flow :=
  match receiver, message with
  | .scope scope, .get => do
    let name ← Run.inspect fun memory => (arguments.headD .empty).toText memory
    return .value (← Machine.lookUp scope name)
  | .scope scope, .set => do
    let name ← Run.inspect fun memory => (arguments.headD .empty).toText memory
    return .value (← Machine.assign scope name (Value.argument arguments 1))
  | .scope scope, _ => callName clock eval scope message.name arguments
  | .closure _, .call => callValue clock eval receiver arguments
  | .array place, .iterate => do
    let items ← Run.inspect fun memory => (memory.items place).toList
    iterate clock eval (arguments.headD .empty) .nothing items
  | _, _ => do return .value (← Run.action (receiver.send message arguments))

/-- Send the message of a name. A scope takes the name as it is written; `isNotEmpty` asks `isEmpty` and
negates the answer. -/
def call (target : Value) (name : String) (arguments : List Value) : Run Flow :=
  match target with
  | .scope scope => callName clock eval scope name arguments
  | _ =>
    match Message.ofName name with
    | .isNotEmpty => do
      (← send clock eval target .isEmpty arguments).withValue fun answer => do
        return .value (← Run.action (answer.send .neg []))
    | message => send clock eval target message arguments

def operands (scope : ScopeId) : List Instruction → Run (Option (List Value))
  | [] => pure (some [])
  | argument :: rest => do
    match ← eval argument scope with
    | .stop => pure none
    | flow => return (← operands scope rest).map (flow.toValue :: ·)

/-- The values of a target and the arguments after it. A scope named as the target is used for this message
only, so it is not captured. -/
def arguments (scope : ScopeId) : List Instruction → Run (Option (List Value))
  | .scope :: rest => do return (← operands eval scope rest).map (.scope scope :: ·)
  | all => operands eval scope all

def access (kind : Access) (scope : ScopeId) (parts : List Instruction) : Run Flow := do
  match ← arguments eval scope parts with
  | none => pure .stop
  | some values =>
    let target := values.headD .empty
    match kind with
    | .get => send clock eval target .get values.tail
    | .set => send clock eval target .set values.tail
    | .call =>
      match values.tail with
      | [] => call clock eval target "" []
      | named :: rest => do
        let name ← Run.inspect fun memory => named.toText memory
        call clock eval target name rest

/-- The values of members that have ended: the first failure or break in order decides. -/
def gather : List (Except Failure Flow) → Except Failure (Option (List Value))
  | [] => .ok (some [])
  | .error failure :: _ => .error failure
  | .ok .stop :: _ => .ok none
  | .ok flow :: rest =>
    match gather rest with
    | .ok (some values) => .ok (some (flow.toValue :: values))
    | other => other

def crash? : Except Failure Flow → Option Crash
  | .error (.crash cause) => some cause
  | _ => none

/-- The values of the members of a literal. A crash stops all members at once, whatever they had come to. -/
def collect (outcomes : List (Except Failure Flow)) : Except Failure (Option (List Value)) :=
  match outcomes.findSome? crash? with
  | some cause => .error (.crash cause)
  | none => gather outcomes

def literal (scope : ScopeId) (members : List Instruction) (make : List Value → Action Value) :
    Run Flow := do
  -- Failures are outcomes here, so a member that fails does not stop the others.
  let flows ← ExceptT.lift (Task.all (members.map fun member => (eval member scope).run))
  match collect flows with
  | .error failure => throw failure
  | .ok none => pure .stop
  | .ok (some values) => return .value (← Run.action (make values))

def foldNumbers (scope : ScopeId) (total : Value) : List (String × Instruction) → Run Flow
  | [] => pure (.value total)
  | (operator, operand) :: rest =>
    match Message.arithmetic? operator with
    | none => throw (.unknownOperator operator)
    | some message =>
      valueOf eval operand scope fun value => do
        foldNumbers scope (← Run.action (total.send message [value])) rest

/-- Fold with logical messages, up to a value that decides: a true one if `decisive`, else a false one. -/
def foldTruth (decisive : Bool) (scope : ScopeId) (total : Value) :
    List (String × Instruction) → Run Flow
  | [] => pure (.value total)
  | (operator, operand) :: rest => do
    if (← Run.inspect fun memory => total.isTruthy memory) = decisive then pure (.value total)
    else
      match Message.logical? operator with
      | none => throw (.unknownOperator operator)
      | some message =>
        valueOf eval operand scope fun value => do
          foldTruth decisive scope (← Run.action (total.send message [value])) rest

def eachMatch (scope : ScopeId) (body : Instruction) (last : Value) : List View → Run Flow
  | [] => pure (.value last)
  | view :: rest => do
    -- A break ends all matches, not this one alone.
    let flow ← Machine.inChild scope (some view) (eval body)
    flow.withValue fun value => eachMatch scope body value rest

def branch (test : Instruction) (scope : ScopeId) (ok fail : Run Flow) : Run Flow :=
  valueOf eval test scope fun value => do
    if ← Run.inspect fun memory => value.isTruthy memory then ok else fail

def give (value : Value) : Run Flow :=
  pure (.value value)

def step : Evaluator
  | .block parts, scope => lines eval scope .nothing parts
  | .number x, _ => give (.number x)
  | .text s, _ => give (.text s)
  | .truth b, _ => give (.bool b)
  | .date text, _ => do return .value (.date (← Run.action (.ofExcept (Date.read text clock.zone))))
  | .dateTime text, _ => do
    return .value (.dateTime (← Run.action (.ofExcept (DateTime.read text clock.zone))))
  -- The argument of a title is never evaluated.
  | .translate title _, _ => give (.text title)
  | .scope, scope => do
    Run.scopes fun arena => ((), arena.capture scope)
    give (.scope scope)
  | .stop, _ => pure .stop
  | .nest part, scope => eval part scope
  | .result (some part), scope => eval part scope
  | .result none, _ => pure .nothing
  | .negation part, scope =>
    valueOf eval part scope fun value => do
      return .value (← Run.action (value.send .neg []))
  | .choice test ok fail, scope => branch eval test scope (eval ok scope) (eval fail scope)
  | .branch test ok (some fail), scope => branch eval test scope (eval ok scope) (eval fail scope)
  | .branch test ok none, scope => branch eval test scope (eval ok scope) (pure .nothing)
  | .array items, scope => literal eval scope items fun values => Action.newArray values.toArray
  | .object members, scope =>
    literal eval scope (members.map Prod.snd) fun values =>
      Action.newObject (Fields.ofList ((members.map Prod.fst).zip values))
  | .fold .arithmetic first rest, scope =>
    valueOf eval first scope fun value => foldNumbers eval scope value rest
  | .fold .conjunction first rest, scope =>
    valueOf eval first scope fun value => foldTruth eval false scope value rest
  | .fold .disjunction first rest, scope =>
    valueOf eval first scope fun value => foldTruth eval true scope value rest
  | .compare left right operator, scope =>
    valueOf eval left scope fun a =>
      valueOf eval right scope fun b => do
        let order ← Run.action (a.compare b)
        return .value (.bool (← Run.action (.ofExcept (relate operator order))))
  | .declaration name part, scope =>
    valueOf eval part scope fun value => do return .value (← Machine.declare scope name value)
  | .assignment name part, scope =>
    valueOf eval part scope fun value => do return .value (← Machine.assign scope name value)
  | .access kind parts, scope => access clock eval kind scope parts
  | .loop iterator list body, scope =>
    valueOf eval list scope fun value =>
      -- Unlike a function, the body is sent without a capture of the scope that it names.
      send clock eval value .iterate [.closure ⟨[iterator], body, scope⟩]
  | .range first last, scope =>
    valueOf eval first scope fun a =>
      valueOf eval last scope fun b => do
        return .value (← Run.action do Action.newArray (← Action.ofExcept (rangeOf a b)))
  | .function name parameters body, scope => do
    Run.scopes fun arena => ((), arena.capture scope)
    return .value (← Machine.declare scope name (.closure ⟨parameters, body, scope⟩))
  | .each name body, scope => do
    let machine ← get
    eachMatch eval scope body .empty (machine.arena.search machine.memory scope name)

end Evaluator

def evaluate (clock : Clock) : Nat → Evaluator
  | 0, _, _ => Task.exhausted
  | depth + 1, instruction, scope => Evaluator.step clock (evaluate clock depth) instruction scope

end RuleScript
