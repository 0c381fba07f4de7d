import RuleScript.Proofs.Run.Machine
import RuleScript.Proofs.Run.Process
import RuleScript.Proofs.Run.Task
import RuleScript.Proofs.Value.Handles

/-! Evaluation runs through the small steps.

The evaluator and the process of an instruction are compared rule by rule: every stop of the evaluation, at a
suspension or at its end, is a state that the process reaches.
-/

set_option autoImplicit false

namespace RuleScript

def anyMove (_ : Process) (_ : Machine) : Prop :=
  True

namespace Run

variable {α β : Type}

theorem bind_apply (run : Run α) (next : α → Run β) (machine : Machine) :
    (run >>= next) machine =
      Poll.bind (run machine) fun
        | .ok result => next result
        | .error failure => (throw failure : Run β) := by
  change Poll.bind (run machine) (ExceptT.bindCont next) = _
  congr 1
  funext result
  cases result <;> rfl

/-- What comes after a part starts on the machine that the part leaves, unless the part fails. -/
theorem perform_bind (run : Run α) (next : α → Run β) (machine : Machine) :
    (run >>= next).perform machine =
      (run.perform machine).bind fun
        | (.ok result, later) => (next result).perform later
        | (.error failure, later) => some (.error failure, later) := by
  simp only [perform, Task.run, bind_apply, Poll.finish_bind]
  rcases (run machine).finish with _ | ⟨later, _ | _⟩ <;> rfl

@[simp] theorem action_pure (result : α) : Run.action (pure result) = pure result :=
  rfl

theorem action_bind (act : Action α) (next : α → Action β) :
    Run.action (act >>= next) = Run.action act >>= fun result => Run.action (next result) := by
  funext machine
  rw [bind_apply, action_apply, action_apply, Action.bind_apply]
  rcases act machine.memory with ⟨_ | _, _⟩ <;> rfl

theorem lift_bind_apply (task : Task Machine α) (next : α → Run β) (machine : Machine) :
    ((ExceptT.lift task : Run α) >>= next) machine = Poll.bind (task machine) next := by
  rw [bind_apply]
  change Poll.bind (Poll.bind (task machine) fun result => Task.pure (Except.ok result)) _ = _
  rw [Poll.bind_assoc]
  rfl

end Run

theorem Primitive.atomic (primitive : Primitive) : primitive.run.Atomic := by
  cases primitive with
  | lookUp scope name => exact Machine.lookUp_atomic scope name
  | assign scope name value => exact Machine.assign_atomic scope name value
  | declare scope name value => exact Machine.declare_atomic scope name value
  | act action => exact Run.action_atomic action

namespace Process

variable {clock : Clock} {run : Run Flow} {process next : Process} {machine : Machine}

/-- The stops of a run, started on a machine, are reached by a process. -/
def Follows (clock : Clock) (run : Run Flow) (process : Process) (machine : Machine) : Prop :=
  Poll.Follows (fun first second => Step clock anyMove first.1 first.2 second.1 second.2) finished
    (run machine) process machine

theorem Follows.done (flow : Flow) : Follows clock (pure flow) (finished (.ok flow)) machine :=
  .refl

theorem Follows.failed (failure : Failure) :
    Follows clock (throw failure) (finished (.error failure)) machine :=
  .refl

theorem Follows.get {rest : Machine → Run Flow} (follows : Follows clock (rest machine) process machine) :
    Follows clock (do rest (← get)) process machine :=
  follows

end Process

open Process

namespace Move

variable {clock : Clock} {run : Run Flow} {machine : Machine}

def Follows (clock : Clock) (run : Run Flow) (move : Move) (machine : Machine) : Prop :=
  ∀ process : Process, process.move clock machine = some move → Process.Follows clock run process machine

theorem Follows.become {next : Process} (rest : Process.Follows clock run next machine) :
    Follows clock run (.become next) machine :=
  fun _ moves => Poll.Follows.head (.single (.move trivial (by rw [moves]; rfl))) rest

theorem Follows.capture {scope : ScopeId} {next : Process}
    (rest : Process.Follows clock run next ⟨machine.arena.capture scope, machine.memory⟩) :
    Follows clock (do Run.scopes (fun arena => ((), arena.capture scope)); run) (.capture scope next) machine :=
  fun _ moves => Poll.Follows.head (.single (.move trivial (by rw [moves]; rfl))) rest

theorem Follows.perform (primitive : Primitive) {next : Value → Process} {rest : Value → Run Flow}
    (after : ∀ value later, Process.Follows clock (rest value) (next value) later) :
    Follows clock (primitive.run >>= rest) (.perform primitive next) machine := by
  intro process moves
  obtain ⟨later, result, ran⟩ := primitive.atomic machine
  unfold Process.Follows
  rw [Run.bind_apply, ran]
  cases result with
  | error failure =>
    refine .single (.move trivial ?_)
    simp only [moves, Option.bind_some, Move.apply, Run.perform, Task.run, ran, Poll.finish, Option.map_some]
  | ok value =>
    refine Poll.Follows.head (.single (.move trivial ?_)) (after value later)
    simp only [moves, Option.bind_some, Move.apply, Run.perform, Task.run, ran, Poll.finish, Option.map_some]

theorem Follows.inspect {α : Type} {read : Memory → α} {rest : α → Run Flow} {move : Move}
    (follows : move.Follows clock (rest (read machine.memory)) machine) :
    move.Follows clock (Run.inspect read >>= rest) machine :=
  follows

theorem Follows.act (action : Action Value) :
    Follows clock (do return .value (← Run.action action)) (.act action) machine :=
  Follows.perform (.act action) fun value _ => .done (.value value)

theorem Follows.enter {parent : ScopeId} {view : Option View} {body : ScopeId → Process}
    {rest : ScopeId → Run Flow} (inner : ∀ child later, Process.Follows clock (rest child) (body child) later) :
    Follows clock (Machine.inChild parent view rest) (.enter parent view body) machine := by
  intro process moves
  unfold Process.Follows
  rw [Machine.inChild_apply]
  cases made : machine.arena.child parent view with | mk child arena
  have applied : (process.move clock machine).bind (Move.apply machine) =
      some (inside child (body child), ⟨arena, machine.memory⟩) := by
    simp only [moves, Option.bind_some, Move.apply, made]
  refine Poll.Follows.head (.single (.move trivial applied)) ?_
  refine Poll.Follows.bind (Poll.Follows.lift (inside child) (fun _ _ => Step.inside) (inner child _)) ?_
  exact fun result changed => .single (.move trivial rfl)

end Move

namespace Process

variable {clock : Clock} {run : Run Flow} {process part : Process} {machine : Machine}

theorem Follows.move {move : Move} (moves : process.move clock machine = some move)
    (follows : move.Follows clock run machine) : Follows clock run process machine :=
  follows process moves

theorem Follows.after {pending : Pending} {rest : Flow → Run Flow} (first : Follows clock run part machine)
    (onward : ∀ flow later, (pending.resume flow later).Follows clock (rest flow) later) :
    Follows clock (run >>= rest) (waiting pending part) machine := by
  unfold Follows
  rw [Run.bind_apply]
  refine Poll.Follows.bind (Poll.Follows.lift (waiting pending) (fun _ _ => Step.waiting) first) ?_
  intro result changed
  cases result with
  | error failure => exact .single (.move trivial rfl)
  | ok flow => exact onward flow changed _ rfl

theorem Follows.withValue {after : After} {rest : Value → Run Flow} (first : Follows clock run part machine)
    (onward : ∀ value later, (after.resume value later).Follows clock (rest value) later) :
    Follows clock (run >>= fun flow => flow.withValue rest) (waiting (.withValue after) part) machine := by
  refine first.after fun flow later => ?_
  cases flow with
  | stop => exact .become (.done .stop)
  | nothing => exact onward .empty later
  | value v => exact onward v later

end Process

namespace Evaluator

theorem callName_apply (clock : Clock) (eval : Evaluator) (scope : ScopeId) (name : String) (arguments : List Value)
    (machine : Machine) :
    callName clock eval scope name arguments machine =
      (match machine.arena.resolveCall scope name with
        | .ok (.closure closure) => invoke eval closure arguments
        | .ok (.library library) => ask clock library name arguments
        | .error failure => throw failure) machine := rfl

def deliver (clock : Clock) (eval : Evaluator) (kind : Access) : Option (List Value) → Run Flow
  | none => pure .stop
  | some values =>
    let target := values.headD .empty
    match kind with
    | .get => send clock eval target .get values.tail
    | .set => send clock eval target .set values.tail
    | .call =>
      match values.tail with
      | [] => call clock eval target "" []
      | named :: rest => do
        let name ← Run.inspect fun memory => named.toText memory
        call clock eval target name rest

theorem access_eq (clock : Clock) (eval : Evaluator) (kind : Access) (scope : ScopeId) (parts : List Instruction) :
    access clock eval kind scope parts = arguments eval scope parts >>= deliver clock eval kind := by
  unfold access
  congr 1

variable {clock : Clock} {eval : Evaluator} {machine : Machine}
  (parts : ∀ instruction scope machine,
    Process.Follows clock (eval instruction scope) (evaluating instruction scope) machine)

include parts

theorem lines_follows (scope : ScopeId) (last : Flow) (line : Instruction) (rest : List Instruction) :
    Process.Follows clock (lines eval scope last (line :: rest))
      (waiting (.lines scope rest) (evaluating line scope)) machine := by
  induction rest generalizing last line machine with
  | nil =>
    refine (parts line scope machine).after fun flow later => ?_
    cases flow <;> exact .become (.done _)
  | cons next rest ih =>
    refine (parts line scope machine).after fun flow later => ?_
    cases flow with
    | stop => exact .become (.done _)
    | nothing => exact .become (ih .nothing next)
    | value v => exact .become (ih (.value v) next)

theorem bindParameters_follows (scope : ScopeId) (parameters : List String) (arguments : List Value)
    (body : Instruction) :
    Process.Follows clock (do bindParameters scope parameters arguments; eval body scope)
      (binding scope parameters arguments body) machine := by
  induction parameters generalizing arguments machine with
  | nil => exact .move rfl (.become (parts body scope machine))
  | cons parameter parameters ih =>
    simp only [bindParameters, bind_assoc]
    exact .move rfl (.perform (.declare scope parameter (arguments.headD .empty))
      fun _ later => ih arguments.tail)

theorem invoke_follows (closure : Closure) (arguments : List Value) :
    (Move.invoke closure arguments).Follows clock (invoke eval closure arguments) machine :=
  .enter fun child _ => bindParameters_follows parts child closure.parameters arguments closure.body

omit parts in
theorem ask_follows (count : Nat) (library : Library) (function : String) (arguments : List Value) :
    Process.Follows clock
      (do Run.suspend count; return .value (← Run.action (library.answer clock function arguments)))
      (asking count library function arguments) machine := by
  induction count generalizing machine with
  | zero => exact .move rfl (.act _)
  | succ count ih =>
    exact ⟨asking count library function arguments, .single (.move trivial rfl), fun changed => ih⟩

theorem callName_follows (scope : ScopeId) (name : String) (arguments : List Value) :
    Process.Follows clock (callName clock eval scope name arguments) (naming scope name arguments) machine := by
  refine .get ?_
  cases found : machine.arena.resolveCall scope name with
  | error failure =>
    exact Process.Follows.move (by simp only [Process.move, found]) (.become (.failed failure))
  | ok callee =>
    cases callee with
    | closure closure =>
      exact Process.Follows.move (by simp only [Process.move, found]) (invoke_follows parts closure arguments)
    | library library =>
      exact Process.Follows.move (by simp only [Process.move, found]) (.become (ask_follows ..))

theorem callValue_follows (receiver : Value) (arguments : List Value) :
    Process.Follows clock (callValue clock eval receiver arguments) (calling receiver arguments) machine := by
  cases receiver with
  | closure closure => exact .move rfl (invoke_follows parts closure arguments)
  | scope scope => exact .move rfl (.become (callName_follows parts scope _ arguments))
  | _ => exact .move rfl (.act _)

theorem iterate_follows (body : Value) (last : Flow) (items : List Value) :
    Process.Follows clock (iterate clock eval body last items) (iterating body last items) machine := by
  induction items generalizing last machine with
  | nil => exact .move rfl (.become (.done last))
  | cons item rest ih =>
    refine .move rfl (.become ((callValue_follows parts body [item]).after fun flow later => ?_))
    cases flow with
    | stop => exact .become (.done last)
    | nothing => exact .become (ih last)
    | value v => exact .become (ih (.value v))

theorem send_follows (receiver : Value) (message : Message) (arguments : List Value) :
    Process.Follows clock (send clock eval receiver message arguments) (sending receiver message arguments)
      machine := by
  refine .move rfl ?_
  -- The cases are the branches of `send`; the last one is every message that a value answers itself.
  fun_cases send clock eval receiver message arguments with
  | case1 scope => exact .inspect (.perform (.lookUp scope _) fun value _ => .done (.value value))
  | case2 scope => exact .inspect (.perform (.assign scope _ _) fun value _ => .done (.value value))
  | case3 _ scope notGet notSet =>
    rw [Process.send]
    · exact .become (callName_follows parts scope _ arguments)
    · exact notGet
    · exact notSet
  | case4 closure => exact invoke_follows parts closure arguments
  | case5 place => exact .inspect (.become (iterate_follows parts _ .nothing _))
  | case6 notGet notSet notScope notCall notIterate =>
    rw [Process.send]
    · exact .act _
    all_goals assumption

theorem call_follows (target : Value) (name : String) (arguments : List Value) :
    (Move.dispatch target name arguments).Follows clock (call clock eval target name arguments) machine := by
  by_cases isScope : ∃ scope, target = .scope scope
  · obtain ⟨scope, rfl⟩ := isScope
    exact .become (callName_follows parts scope name arguments)
  · -- Both sides branch on the target and on the message; these facts decide the branches.
    have other : ∀ scope, target ≠ .scope scope := fun scope same => isScope ⟨scope, same⟩
    by_cases negated : Message.ofName name = .isNotEmpty
    · simp only [call, Move.dispatch, negated]
      exact .become ((send_follows parts target .isEmpty arguments).withValue fun _ _ => .act _)
    · simp only [call, Move.dispatch]
      exact .become (send_follows parts target _ arguments)

theorem deliver_follows (kind : Access) (values : List Value) :
    (Process.access kind values machine).Follows clock (deliver clock eval kind (some values)) machine := by
  unfold deliver Process.access
  cases kind with
  | get => exact .become (send_follows parts _ .get _)
  | set => exact .become (send_follows parts _ .set _)
  | call =>
    rcases values with _ | ⟨target, _ | ⟨named, rest⟩⟩
    · exact call_follows parts .empty "" []
    · exact call_follows parts target "" []
    · exact .inspect (call_follows parts target _ rest)

theorem operands_follows (kind : Access) (scope : ScopeId) (done : List Value) (rest : List Instruction) :
    Process.Follows clock
      (do
        let values? ← operands eval scope rest
        deliver clock eval kind (values?.map (done ++ ·)))
      (collecting kind scope done rest) machine := by
  induction rest generalizing done machine with
  | nil =>
    simp only [operands, pure_bind, Option.map_some, List.append_nil]
    exact .move rfl (deliver_follows parts kind done)
  | cons argument rest ih =>
    -- The process has the values so far, the evaluator puts them in front once the rest is there.
    have onward : ∀ value later,
        (Move.become (collecting kind scope (done ++ [value]) rest)).Follows clock
          (do
            let values? ← (return (← operands eval scope rest).map (value :: ·) : Run (Option (List Value)))
            deliver clock eval kind (values?.map (done ++ ·))) later := by
      intro value later
      simp only [bind_assoc, pure_bind, Option.map_map, Function.comp_def]
      refine .become ?_
      simpa only [List.append_assoc, List.singleton_append] using ih (done ++ [value])
    refine .move rfl (.become ?_)
    simp only [operands, bind_assoc]
    refine (parts argument scope machine).after fun flow later => ?_
    cases flow with
    | stop => exact .become (.done .stop)
    | nothing => exact onward .empty later
    | value v => exact onward v later

theorem access_follows (kind : Access) (scope : ScopeId) (values : List Instruction) :
    (start clock scope machine (.access kind values)).Follows clock (access clock eval kind scope values)
      machine := by
  rw [access_eq]
  fun_cases arguments eval scope values with
  | case1 rest =>
    refine .become ?_
    simpa only [bind_assoc, pure_bind, List.singleton_append] using
      operands_follows parts kind scope [.scope scope] rest
  | case2 _ notScope =>
    have plain : Process.Follows clock _ _ machine := operands_follows parts kind scope [] values
    simp only [List.nil_append, Option.map_id'] at plain
    rw [start]
    · exact .become plain
    · exact notScope

omit parts in
theorem mapM_outcome? (outcomes : List (Except Failure Flow)) :
    (outcomes.map finished).mapM outcome? = some outcomes := by
  induction outcomes with
  | nil => rfl
  | cons first rest ih => simp [List.mapM_cons, outcome?, ih]

theorem literal_follows (form : Literal) (scope : ScopeId) (members : List Instruction) :
    Process.Follows clock (literal eval scope members form.make)
      (together form (members.map (evaluating · scope))) machine := by
  have group := Task.all_follows members fun member _ => parts member scope
  unfold literal Process.Follows
  rw [Run.lift_bind_apply]
  refine Poll.Follows.bind (Poll.Follows.lift (together form) ?_ (group machine)) fun outcomes later => ?_
  · rintro _ _ ⟨before, after, step⟩
    exact .member step
  · have ended : (together form (outcomes.map finished)).move clock later = some (form.close outcomes) := by
      simp only [Process.move, mapM_outcome?, Option.map_some]
    refine Process.Follows.move ended ?_
    unfold Literal.close
    cases collect outcomes with
    | error failure => exact .become (.failed failure)
    | ok values? =>
      cases values? with
      | none => exact .become (.done .stop)
      | some values => exact .act _

theorem foldNumbers_follows (scope : ScopeId) (total : Value) (rest : List (String × Instruction)) :
    Process.Follows clock (foldNumbers eval scope total rest) (folding .arithmetic scope total rest) machine := by
  induction rest generalizing total machine with
  | nil => exact .move rfl (.become (.done _))
  | cons pair rest ih =>
    obtain ⟨operator, operand⟩ := pair
    unfold foldNumbers
    cases known : Message.arithmetic? operator with
    | none => exact .move (by simp [Process.move, fold, Fold.message?, Fold.decides, known]) (.become (.failed _))
    | some message =>
      refine .move (by simp [Process.move, fold, Fold.message?, Fold.decides, known]; rfl) ?_
      refine .become ((parts operand scope machine).withValue fun value later => ?_)
      exact .perform (.act (total.send message [value])) fun value _ => ih value

theorem foldTruth_follows (decisive : Bool) (scope : ScopeId) (total : Value)
    (rest : List (String × Instruction)) :
    Process.Follows clock (foldTruth eval decisive scope total rest)
      (folding (bif decisive then .disjunction else .conjunction) scope total rest) machine := by
  induction rest generalizing total machine with
  | nil => exact .move rfl (.become (.done _))
  | cons pair rest ih =>
    obtain ⟨operator, operand⟩ := pair
    have onward : ∀ message,
        Process.Follows clock
          (valueOf eval operand scope fun value => do
            foldTruth eval decisive scope (← Run.action (total.send message [value])) rest)
          (waiting (.withValue (.operand (bif decisive then .disjunction else .conjunction) scope total message rest))
            (evaluating operand scope)) machine := fun message =>
      (parts operand scope machine).withValue fun value later =>
        .perform (.act (total.send message [value])) fun value _ => ih value
    -- The two logical folds are one here, told apart by the truth value that ends them.
    have decides : ∀ truthy, (bif decisive then Fold.disjunction else .conjunction).decides truthy =
        decide (truthy = decisive) := by cases decisive <;> decide
    have known : (bif decisive then Fold.disjunction else .conjunction).message? operator =
        Message.logical? operator := by cases decisive <;> rfl
    refine .move rfl (.inspect ?_)
    simp only [fold, decides, known, decide_eq_true_eq]
    by_cases decided : total.isTruthy machine.memory = decisive
    · rw [if_pos decided, if_pos decided]
      exact .become (.done _)
    · rw [if_neg decided, if_neg decided]
      cases Message.logical? operator with
      | none => exact .become (.failed _)
      | some message => exact .become (onward message)

theorem eachMatch_follows (scope : ScopeId) (body : Instruction) (last : Value) (views : List View) :
    Process.Follows clock (eachMatch eval scope body last views) (matching scope body last views) machine := by
  induction views generalizing last machine with
  | nil => exact .move rfl (.become (.done _))
  | cons view rest ih =>
    refine .move rfl (.become ?_)
    have visit : ∀ later, Process.Follows clock (Machine.inChild scope (some view) (eval body))
        (visiting scope view body) later :=
      fun later => .move rfl (.enter fun child changed => parts body child changed)
    exact (visit machine).withValue fun value _ => .become (ih value)

theorem branch_follows (test : Instruction) (scope : ScopeId) (ok : Instruction) (fail : Option Instruction) :
    Process.Follows clock
      (branch eval test scope (eval ok scope)
        (match fail with
          | some fail => eval fail scope
          | none => pure .nothing))
      (waiting (.withValue (.choose scope ok fail)) (evaluating test scope)) machine := by
  refine (parts test scope machine).withValue fun value later => .inspect ?_
  unfold After.resume
  split
  · exact .become (parts ok scope later)
  · cases fail with
    | some fail => exact .become (parts fail scope later)
    | none => exact .become (.done .nothing)

/-- The rule of an instruction follows the process of the instruction, if the rules of the parts do. -/
theorem step_follows (instruction : Instruction) (scope : ScopeId) :
    Process.Follows clock (step clock eval instruction scope) (evaluating instruction scope) machine := by
  refine .move rfl ?_
  cases instruction with
  | block lines =>
    cases lines with
    | nil => exact .become (.done .nothing)
    | cons line rest => exact .become (lines_follows parts scope .nothing line rest)
  | number | text | truth | translate => exact .become (.done _)
  | date text =>
    -- Reading the text and making a value of it are two steps of the evaluator and one move.
    have read : Move.Follows clock _ (.act do return .date (← Action.ofExcept (Date.read text clock.zone)))
        machine := .act _
    simp only [Run.action_bind, Run.action_pure, bind_assoc, pure_bind] at read
    exact read
  | dateTime text =>
    have read : Move.Follows clock _
        (.act do return .dateTime (← Action.ofExcept (DateTime.read text clock.zone))) machine := .act _
    simp only [Run.action_bind, Run.action_pure, bind_assoc, pure_bind] at read
    exact read
  | scope => exact .capture (.done _)
  | stop => exact .become (.done .stop)
  | nest part => exact .become (parts part scope machine)
  | result part =>
    cases part with
    | some part => exact .become (parts part scope machine)
    | none => exact .become (.done .nothing)
  | negation part => exact .become ((parts part scope machine).withValue fun _ _ => .act _)
  | choice test ok fail => exact .become (branch_follows parts test scope ok (some fail))
  | branch test ok fail =>
    cases fail with
    | some fail => exact .become (branch_follows parts test scope ok (some fail))
    | none => exact .become (branch_follows parts test scope ok none)
  | array items => exact .become (literal_follows parts .array scope items)
  | object members =>
    have group : Process.Follows clock _ _ machine :=
      literal_follows parts (.object (members.map Prod.fst)) scope (members.map Prod.snd)
    rw [List.map_map] at group
    exact .become group
  | fold kind first rest =>
    have first := parts first scope machine
    cases kind with
    | arithmetic => exact .become (first.withValue fun value _ => .become (foldNumbers_follows parts scope value rest))
    | conjunction =>
      exact .become (first.withValue fun value _ => .become (foldTruth_follows parts false scope value rest))
    | disjunction =>
      exact .become (first.withValue fun value _ => .become (foldTruth_follows parts true scope value rest))
  | compare left right operator =>
    refine .become ((parts left scope machine).withValue fun a later => .become ?_)
    refine (parts right scope later).withValue fun b final => ?_
    have compared : Move.Follows clock _ ((After.compareRight a operator).resume b final) final := .act _
    simp only [Run.action_bind, Run.action_pure, bind_assoc, pure_bind] at compared
    exact compared
  | declaration name part =>
    exact .become ((parts part scope machine).withValue fun value _ =>
      .perform (.declare scope name value) fun value _ => .done (.value value))
  | assignment name part =>
    exact .become ((parts part scope machine).withValue fun value _ =>
      .perform (.assign scope name value) fun value _ => .done (.value value))
  | access kind values => exact access_follows parts kind scope values
  | loop iterator list body =>
    exact .become ((parts list scope machine).withValue fun value _ => .become (send_follows parts value _ _))
  | range first last =>
    refine .become ((parts first scope machine).withValue fun a later => .become ?_)
    exact (parts last scope later).withValue fun b _ => .act _
  | function name parameters body =>
    exact .capture (.move rfl (.perform (.declare scope name _) fun value _ => .done (.value value)))
  | each name body => exact .become (eachMatch_follows parts scope body .empty _)

end Evaluator

theorem evaluate_follows (clock : Clock) (depth : Nat) (instruction : Instruction) (scope : ScopeId)
    (machine : Machine) :
    Process.Follows clock (evaluate clock depth instruction scope) (evaluating instruction scope) machine := by
  induction depth generalizing instruction scope machine with
  -- Beyond the depth a run has no stop that would have to be reached.
  | zero => trivial
  | succ depth ih => exact Evaluator.step_follows ih instruction scope

theorem Process.Follows.steps {clock : Clock} {run : Run Flow} {process : Process} {machine later : Machine}
    {outcome : Except Failure Flow} (follows : Process.Follows clock run process machine)
    (ends : run.perform machine = some (outcome, later)) :
    Process.Steps clock anyMove (process, machine) (finished outcome, later) := by
  obtain ⟨⟨final, result⟩, finishes, same⟩ := Option.map_eq_some_iff.mp ends
  cases same
  exact follows.finish finishes

/-- The result of an evaluation is one that the small steps reach. -/
theorem evaluate_steps {clock : Clock} {depth : Nat} {instruction : Instruction} {scope : ScopeId}
    {machine later : Machine} {outcome : Except Failure Flow}
    (ends : (evaluate clock depth instruction scope).perform machine = some (outcome, later)) :
    Process.Steps clock anyMove (evaluating instruction scope, machine) (finished outcome, later) :=
  (evaluate_follows clock depth instruction scope machine).steps ends

end RuleScript
