import Mathlib.Logic.Relation
import RuleScript.Evaluation.Step

/-! Evaluation in small steps.

A process is an evaluation that has been taken apart: what is left to do, and all values that it holds meanwhile.
One step is one move of one of its parts. The members of a literal move in any order, so a process has every
interleaving of a run and more.
-/

set_option autoImplicit false

namespace RuleScript

def Fold.decides : Fold → Bool → Bool
  | arithmetic, _ => false
  | conjunction, truthy => !truthy
  | disjunction, truthy => truthy

def Fold.message? : Fold → String → Option Message
  | arithmetic, operator => Message.arithmetic? operator
  | conjunction, operator | disjunction, operator => Message.logical? operator

/-- What becomes of a value. -/
inductive After where
  | negate
  | choose (scope : ScopeId) (ok : Instruction) (fail : Option Instruction)
  | foldFirst (kind : Fold) (scope : ScopeId) (rest : List (String × Instruction))
  | operand (kind : Fold) (scope : ScopeId) (total : Value) (message : Message)
      (rest : List (String × Instruction))
  | compareLeft (scope : ScopeId) (right : Instruction) (operator : String)
  | compareRight (left : Value) (operator : String)
  | declare (scope : ScopeId) (name : String)
  | assign (scope : ScopeId) (name : String)
  | argument (kind : Access) (scope : ScopeId) (done : List Value) (rest : List Instruction)
  | loop (scope : ScopeId) (iterator : String) (body : Instruction)
  | rangeFirst (scope : ScopeId) (last : Instruction)
  | rangeLast (first : Value)
  | each (scope : ScopeId) (body : Instruction) (rest : List View)

/-- What waits for the end of a part. -/
inductive Pending where
  | lines (scope : ScopeId) (rest : List Instruction)
  | iterate (body : Value) (last : Flow) (rest : List Value)
  /-- A break is handed on. -/
  | withValue (after : After)

inductive Literal where
  | array
  | object (names : List String)

def Literal.make : Literal → List Value → Action Value
  | array, values => Action.newArray values.toArray
  | object names, values => Action.newObject (Fields.ofList (names.zip values))

inductive Process where
  | evaluating (instruction : Instruction) (scope : ScopeId)
  | finished (outcome : Except Failure Flow)
  | waiting (pending : Pending) (part : Process)
  /-- A body in a scope of its own, which is released at the end. -/
  | inside (scope : ScopeId) (body : Process)
  | together (literal : Literal) (members : List Process)
  | collecting (kind : Access) (scope : ScopeId) (done : List Value) (rest : List Instruction)
  | sending (receiver : Value) (message : Message) (arguments : List Value)
  /-- A call of what a name means in a scope. -/
  | naming (scope : ScopeId) (name : String) (arguments : List Value)
  | calling (receiver : Value) (arguments : List Value)
  | binding (scope : ScopeId) (parameters : List String) (arguments : List Value) (body : Instruction)
  /-- A library that will suspend a number of times before it answers. -/
  | asking (count : Nat) (library : Library) (function : String) (arguments : List Value)
  | visiting (scope : ScopeId) (view : View) (body : Instruction)
  | matching (scope : ScopeId) (body : Instruction) (last : Value) (views : List View)
  | iterating (body : Value) (last : Flow) (items : List Value)
  | folding (kind : Fold) (scope : ScopeId) (total : Value) (rest : List (String × Instruction))

inductive Primitive where
  | lookUp (scope : ScopeId) (name : String)
  | assign (scope : ScopeId) (name : String) (value : Value)
  | declare (scope : ScopeId) (name : String) (value : Value)
  | act (action : Action Value)

def Primitive.run : Primitive → Run Value
  | lookUp scope name => Machine.lookUp scope name
  | assign scope name value => Machine.assign scope name value
  | declare scope name value => Machine.declare scope name value
  | act action => Run.action action

/-- What a process can do to the machine at once. -/
inductive Move where
  | become (next : Process)
  | capture (scope : ScopeId) (next : Process)
  | perform (primitive : Primitive) (next : Value → Process)
  | enter (parent : ScopeId) (view : Option View) (body : ScopeId → Process)
  | leave (scope : ScopeId) (outcome : Except Failure Flow)

namespace Process

def answer (value : Value) : Process :=
  finished (.ok (.value value))

def outcome? : Process → Option (Except Failure Flow)
  | finished outcome => some outcome
  | _ => none

end Process

open Process

namespace Move

def apply (machine : Machine) : Move → Option (Process × Machine)
  | become next => some (next, machine)
  | capture scope next => some (next, ⟨machine.arena.capture scope, machine.memory⟩)
  | perform primitive next =>
    (primitive.run.perform machine).map fun (result, later) =>
      match result with
      | .ok value => (next value, later)
      | .error failure => (finished (.error failure), later)
  | enter parent view body =>
    let (scope, arena) := machine.arena.child parent view
    some (inside scope (body scope), ⟨arena, machine.memory⟩)
  | leave scope outcome => some (finished outcome, ⟨machine.arena.release scope, machine.memory⟩)

def act (action : Action Value) : Move :=
  perform (.act action) answer

def invoke (closure : Closure) (arguments : List Value) : Move :=
  enter closure.scope none fun scope => binding scope closure.parameters arguments closure.body

def dispatch (target : Value) (name : String) (arguments : List Value) : Move :=
  match target with
  | .scope scope => become (naming scope name arguments)
  | _ =>
    match Message.ofName name with
    | .isNotEmpty => become (waiting (.withValue .negate) (sending target .isEmpty arguments))
    | message => become (sending target message arguments)

end Move

open Move

def After.resume (value : Value) (machine : Machine) : After → Move
  | negate => act (value.send .neg [])
  | choose scope ok fail =>
    if value.isTruthy machine.memory then become (evaluating ok scope)
    else
      match fail with
      | some fail => become (evaluating fail scope)
      | none => become (finished (.ok .nothing))
  | foldFirst kind scope rest => become (folding kind scope value rest)
  | operand kind scope total message rest =>
    perform (.act (total.send message [value])) fun total => folding kind scope total rest
  | compareLeft scope right operator =>
    become (waiting (.withValue (.compareRight value operator)) (evaluating right scope))
  | compareRight left operator => act do
    let order ← left.compare value
    return .bool (← Action.ofExcept (relate operator order))
  | declare scope name => perform (.declare scope name value) answer
  | assign scope name => perform (.assign scope name value) answer
  | argument kind scope done rest => become (collecting kind scope (done ++ [value]) rest)
  | loop scope iterator body => become (sending value .iterate [.closure ⟨[iterator], body, scope⟩])
  | rangeFirst scope last => become (waiting (.withValue (.rangeLast value)) (evaluating last scope))
  | rangeLast first => act do Action.newArray (← Action.ofExcept (rangeOf first value))
  | each scope body rest => become (matching scope body value rest)

theorem After.resume_choose (value : Value) (machine : Machine) (scope : ScopeId) (ok : Instruction)
    (fail : Option Instruction) :
    (choose scope ok fail).resume value machine =
      if value.isTruthy machine.memory then become (evaluating ok scope)
      else become (fail.elim (finished (.ok .nothing)) (evaluating · scope)) := by
  unfold After.resume
  cases fail <;> rfl

def Pending.resume (flow : Flow) (machine : Machine) : Pending → Move
  | lines scope rest =>
    match flow, rest with
    | .stop, _ => become (finished (.ok .stop))
    | flow, [] => become (finished (.ok flow))
    | _, line :: rest => become (waiting (.lines scope rest) (evaluating line scope))
  | iterate body last rest =>
    match flow with
    | .stop => become (finished (.ok last))
    | .nothing => become (iterating body last rest)
    | .value v => become (iterating body (.value v) rest)
  | withValue after =>
    match flow with
    | .stop => become (finished (.ok .stop))
    | flow => after.resume flow.toValue machine

def Literal.close (literal : Literal) (outcomes : List (Except Failure Flow)) : Move :=
  match Evaluator.collect outcomes with
  | .error failure => become (finished (.error failure))
  | .ok none => become (finished (.ok .stop))
  | .ok (some values) => act (literal.make values)

namespace Process

variable (clock : Clock)

/-- Take an instruction apart. -/
def start (scope : ScopeId) (machine : Machine) : Instruction → Move
  | .block [] => become (finished (.ok .nothing))
  | .block (line :: rest) => become (waiting (.lines scope rest) (evaluating line scope))
  | .number x => become (answer (.number x))
  | .text s => become (answer (.text s))
  | .truth b => become (answer (.bool b))
  | .date text => act do return .date (← Action.ofExcept (Date.read text clock.zone))
  | .dateTime text => act do return .dateTime (← Action.ofExcept (DateTime.read text clock.zone))
  | .translate title _ => become (answer (.text title))
  | .scope => .capture scope (answer (.scope scope))
  | .stop => become (finished (.ok .stop))
  | .nest part => become (evaluating part scope)
  | .result (some part) => become (evaluating part scope)
  | .result none => become (finished (.ok .nothing))
  | .negation part => become (waiting (.withValue .negate) (evaluating part scope))
  | .choice test ok fail =>
    become (waiting (.withValue (.choose scope ok (some fail))) (evaluating test scope))
  | .branch test ok fail =>
    become (waiting (.withValue (.choose scope ok fail)) (evaluating test scope))
  | .array items => become (together .array (items.map (evaluating · scope)))
  | .object members =>
    become (together (.object (members.map Prod.fst)) (members.map fun member => evaluating member.2 scope))
  | .fold kind first rest =>
    become (waiting (.withValue (.foldFirst kind scope rest)) (evaluating first scope))
  | .compare left right operator =>
    become (waiting (.withValue (.compareLeft scope right operator)) (evaluating left scope))
  | .declaration name part => become (waiting (.withValue (.declare scope name)) (evaluating part scope))
  | .assignment name part => become (waiting (.withValue (.assign scope name)) (evaluating part scope))
  | .access kind (.scope :: rest) => become (collecting kind scope [.scope scope] rest)
  | .access kind parts => become (collecting kind scope [] parts)
  | .loop iterator list body =>
    become (waiting (.withValue (.loop scope iterator body)) (evaluating list scope))
  | .range first last => become (waiting (.withValue (.rangeFirst scope last)) (evaluating first scope))
  | .function name parameters body =>
    .capture scope <|
      waiting (.withValue (.declare scope name)) (answer (.closure ⟨parameters, body, scope⟩))
  | .each name body =>
    become (matching scope body .empty (machine.arena.search machine.memory scope name))

/-- An access collects the values of its arguments. A scope that is named first is the first of the values already. -/
theorem start_access (scope : ScopeId) (machine : Machine) (kind : Access) (arguments : List Instruction) :
    (∃ rest, arguments = .scope :: rest ∧
      start clock scope machine (.access kind arguments) = become (collecting kind scope [.scope scope] rest)) ∨
    (∀ rest, arguments ≠ .scope :: rest) ∧
      start clock scope machine (.access kind arguments) = become (collecting kind scope [] arguments) := by
  by_cases named : ∃ rest, arguments = .scope :: rest
  · obtain ⟨rest, rfl⟩ := named
    exact .inl ⟨rest, rfl, rfl⟩
  · have other : ∀ rest, arguments ≠ .scope :: rest := fun rest same => named ⟨rest, same⟩
    refine .inr ⟨other, ?_⟩
    rw [start]
    exact other

def access (kind : Access) (values : List Value) (machine : Machine) : Move :=
  let target := values.headD .empty
  match kind with
  | .get => become (sending target .get values.tail)
  | .set => become (sending target .set values.tail)
  | .call =>
    match values.tail with
    | [] => dispatch target "" []
    | named :: rest => dispatch target (named.toText machine.memory) rest

def send (receiver : Value) (message : Message) (arguments : List Value) (machine : Machine) : Move :=
  match receiver, message with
  | .scope scope, .get =>
    perform (.lookUp scope ((arguments.headD .empty).toText machine.memory)) answer
  | .scope scope, .set =>
    perform (.assign scope ((arguments.headD .empty).toText machine.memory) (Value.argument arguments 1)) answer
  | .scope scope, _ => become (naming scope message.name arguments)
  | .closure closure, .call => invoke closure arguments
  | .array place, .iterate =>
    become (iterating (arguments.headD .empty) .nothing (machine.memory.items place).toList)
  | _, _ => act (receiver.send message arguments)

def fold (kind : Fold) (scope : ScopeId) (total : Value) (machine : Machine) :
    List (String × Instruction) → Move
  | [] => become (answer total)
  | (operator, operand) :: rest =>
    if kind.decides (total.isTruthy machine.memory) then become (answer total)
    else
      match kind.message? operator with
      | none => become (finished (.error (.unknownOperator operator)))
      | some message =>
        become (waiting (.withValue (.operand kind scope total message rest)) (evaluating operand scope))

/-- The move of a process whose parts have ended. -/
def move (machine : Machine) : Process → Option Move
  | evaluating instruction scope => some (start clock scope machine instruction)
  | finished _ => none
  | waiting pending part =>
    match part with
    | finished (.error failure) => some (become (finished (.error failure)))
    | finished (.ok flow) => some (pending.resume flow machine)
    | _ => none
  | inside scope body =>
    match body with
    | finished outcome => some (leave scope outcome)
    | _ => none
  -- A group moves by itself only to close, once all of its members have ended.
  | together literal members => (members.mapM outcome?).map literal.close
  | collecting kind scope done rest =>
    match rest with
    | [] => some (access kind done machine)
    | argument :: rest =>
      some (become (waiting (.withValue (.argument kind scope done rest)) (evaluating argument scope)))
  | sending receiver message arguments => some (send receiver message arguments machine)
  | naming scope name arguments =>
    match machine.arena.resolveCall scope name with
    | .ok (.closure closure) => some (invoke closure arguments)
    | .ok (.library library) =>
      some (become (asking (library.suspensions arguments) library name arguments))
    | .error failure => some (become (finished (.error failure)))
  | calling receiver arguments =>
    match receiver with
    | .closure closure => some (invoke closure arguments)
    | .scope scope => some (become (naming scope Message.call.name arguments))
    | _ => some (act (receiver.send .call arguments))
  | binding scope parameters arguments body =>
    match parameters with
    | [] => some (become (evaluating body scope))
    | parameter :: parameters =>
      some (perform (.declare scope parameter (arguments.headD .empty))
        fun _ => binding scope parameters arguments.tail body)
  -- Each suspension of a library is a step of its own, so that others may move between two of them.
  | asking count library function arguments =>
    match count with
    | 0 => some (act (library.answer clock function arguments))
    | count + 1 => some (become (asking count library function arguments))
  | visiting scope view body => some (enter scope (some view) (evaluating body))
  | matching scope body last views =>
    match views with
    | [] => some (become (answer last))
    | view :: rest => some (become (waiting (.withValue (.each scope body rest)) (visiting scope view body)))
  | iterating body last items =>
    match items with
    | [] => some (become (finished (.ok last)))
    | item :: rest => some (become (waiting (.iterate body last rest) (calling body [item])))
  | folding kind scope total rest => some (fold kind scope total machine rest)

/-- What runs on behalf of a process, the process itself included. -/
inductive Involves : Process → Process → Prop where
  | self {process : Process} : Involves process process
  | waiting {pending : Pending} {part inner : Process} (involves : Involves part inner) :
    Involves (waiting pending part) inner
  | inside {scope : ScopeId} {body inner : Process} (involves : Involves body inner) :
    Involves (inside scope body) inner
  | together {literal : Literal} {members : List Process} {member inner : Process} (among : member ∈ members)
      (involves : Involves member inner) : Involves (together literal members) inner

/-- One step of a process, taken by a part that `admits` lets move. -/
inductive Step (admits : Process → Machine → Prop) :
    Process → Machine → Process → Machine → Prop where
  | move {process next : Process} {machine later : Machine} (admitted : admits process machine)
      (moves : (process.move clock machine).bind (Move.apply machine) = some (next, later)) :
      Step admits process machine next later
  | waiting {pending : Pending} {part next : Process} {machine later : Machine}
      (step : Step admits part machine next later) :
      Step admits (.waiting pending part) machine (.waiting pending next) later
  | inside {scope : ScopeId} {body next : Process} {machine later : Machine}
      (step : Step admits body machine next later) :
      Step admits (.inside scope body) machine (.inside scope next) later
  | member {literal : Literal} {before after : List Process} {member next : Process}
      {machine later : Machine} (step : Step admits member machine next later) :
      Step admits (.together literal (before ++ member :: after)) machine
        (.together literal (before ++ next :: after)) later

def Steps (admits : Process → Machine → Prop) : Process × Machine → Process × Machine → Prop :=
  Relation.ReflTransGen fun first second => Step clock admits first.1 first.2 second.1 second.2

/-- What a step of one member does to a property of all members. -/
theorem forall_mem_moved {P Q : Process → Prop} {before after : List Process} {member next : Process}
    (each : ∀ other ∈ before ++ member :: after, P other) (stays : ∀ other, P other → Q other) (moved : Q next) :
    ∀ other ∈ before ++ next :: after, Q other := by
  intro other inside
  rcases List.mem_append.mp inside with early | here
  · exact stays other (each other (List.mem_append_left _ early))
  · rcases List.mem_cons.mp here with rfl | late
    · exact moved
    · exact stays other (each other (List.mem_append_right _ (.tail _ late)))

end Process

end RuleScript
