import RuleScript.Proofs.Instruction.Parts
import RuleScript.Proofs.Run.Moves
import RuleScript.Proofs.Run.Sequential
import RuleScript.Proofs.Run.Start

/-! The code that a run runs.

All instructions that a run evaluates are parts of the program, or of a closure that a library shares. Closures that are
kept in variables, arrays and objects have their bodies from there, and so has every process that a step leads to. A
break has to be among these instructions to be the flow of anything.
-/

set_option autoImplicit false

namespace RuleScript

open Process

structure Code where
  has : Instruction → Prop
  parts : ∀ instruction, has instruction → ∀ part ∈ instruction.evaluated, has part

instance : Membership Instruction Code :=
  ⟨fun code instruction => code.has instruction⟩

theorem Code.part {code : Code} {instruction part : Instruction} (inside : instruction ∈ code)
    (member : part ∈ instruction.evaluated) : part ∈ code :=
  code.parts instruction inside part member

variable {code : Code}

def Value.Calls (code : Code) (value : Value) : Prop :=
  ∀ closure, value = .closure closure → closure.body ∈ code

namespace Value

theorem calls_of_plain (value : Value) (plain : value.handle? = none) : value.Calls code := by
  rintro closure rfl
  cases plain

theorem calls_scope (scope : ScopeId) : (Value.scope scope).Calls code := by
  rintro closure ⟨⟩

theorem calls_closure {closure : Closure} (inside : closure.body ∈ code) : (Value.closure closure).Calls code := by
  rintro _ ⟨⟩
  exact inside

theorem calls_headD {values : List Value} (all : ∀ value ∈ values, value.Calls code) :
    (values.headD .empty).Calls code := by
  cases values with
  | nil => exact calls_of_plain _ rfl
  | cons first rest => exact all first (.head _)

end Value

def Flow.From (code : Code) : Flow → Prop
  | nothing => True
  | value v => v.Calls code
  | stop => .stop ∈ code

theorem Flow.From.toValue {flow : Flow} (origin : flow.From code) : flow.toValue.Calls code := by
  cases flow with
  | nothing | stop => exact Value.calls_of_plain _ rfl
  | value v => exact origin

abbrev Machine.Calls (code : Code) (machine : Machine) : Prop :=
  machine.Holds (Value.Calls code) fun _ => True

def After.Runs (code : Code) : After → Prop
  | negate | compareRight .. | declare .. | assign .. | rangeLast .. => True
  | choose _ ok fail => ∀ part ∈ ok :: fail.toList, part ∈ code
  | foldFirst _ _ rest | operand _ _ _ _ rest => ∀ part ∈ rest.map Prod.snd, part ∈ code
  | compareLeft _ part _ | rangeFirst _ part | loop _ _ part | each _ part _ => part ∈ code
  | argument _ _ done rest => (∀ value ∈ done, value.Calls code) ∧ ∀ part ∈ rest, part ∈ code

def Pending.Runs (code : Code) : Pending → Prop
  | lines _ rest => ∀ part ∈ rest, part ∈ code
  | iterate body last rest => body.Calls code ∧ last.From code ∧ ∀ value ∈ rest, value.Calls code
  | withValue after => after.Runs code

/-- A process that has nothing but code left to evaluate, whose values call nothing but code, and whose parts have no
break but from there. -/
inductive Process.Runs (code : Code) : Process → Prop where
  | evaluating {instruction : Instruction} {scope : ScopeId} (inside : instruction ∈ code) :
    Runs code (.evaluating instruction scope)
  | finished {outcome : Except Failure Flow} (origin : ∀ flow, outcome = .ok flow → flow.From code) :
    Runs code (.finished outcome)
  | waiting {pending : Pending} {part : Process} (later : pending.Runs code) (inner : Runs code part) :
    Runs code (.waiting pending part)
  | inside {scope : ScopeId} {body : Process} (inner : Runs code body) : Runs code (.inside scope body)
  | together {literal : Literal} {members : List Process} (each : ∀ member ∈ members, Runs code member) :
    Runs code (.together literal members)
  | collecting {kind : Access} {scope : ScopeId} {done : List Value} {rest : List Instruction}
      (all : ∀ value ∈ done, value.Calls code) (parts : ∀ part ∈ rest, part ∈ code) :
    Runs code (.collecting kind scope done rest)
  | sending {receiver : Value} {message : Message} {arguments : List Value} (target : receiver.Calls code)
      (all : ∀ value ∈ arguments, value.Calls code) : Runs code (.sending receiver message arguments)
  | naming {scope : ScopeId} {name : String} {arguments : List Value} (all : ∀ value ∈ arguments, value.Calls code) :
    Runs code (.naming scope name arguments)
  | calling {receiver : Value} {arguments : List Value} (target : receiver.Calls code)
      (all : ∀ value ∈ arguments, value.Calls code) : Runs code (.calling receiver arguments)
  | binding {scope : ScopeId} {parameters : List String} {arguments : List Value} {body : Instruction}
      (all : ∀ value ∈ arguments, value.Calls code) (inside : body ∈ code) :
    Runs code (.binding scope parameters arguments body)
  | asking {count : Nat} {library : Library} {function : String} {arguments : List Value}
      (all : ∀ value ∈ arguments, value.Calls code) : Runs code (.asking count library function arguments)
  | visiting {scope : ScopeId} {view : View} {body : Instruction} (inside : body ∈ code) :
    Runs code (.visiting scope view body)
  | matching {scope : ScopeId} {body : Instruction} {last : Value} {views : List View} (inside : body ∈ code)
      (soFar : last.Calls code) : Runs code (.matching scope body last views)
  | iterating {body : Value} {last : Flow} {items : List Value} (calls : body.Calls code) (soFar : last.From code)
      (all : ∀ value ∈ items, value.Calls code) : Runs code (.iterating body last items)
  | folding {kind : Fold} {scope : ScopeId} {total : Value} {rest : List (String × Instruction)}
      (soFar : total.Calls code) (parts : ∀ part ∈ rest.map Prod.snd, part ∈ code) :
    Runs code (.folding kind scope total rest)

def Primitive.Runs (code : Code) : Primitive → Prop
  | lookUp .. => True
  | assign _ _ value | declare _ _ value => value.Calls code
  | act action => action.Ensures (Value.Calls code) (Value.Calls code)

def Move.Runs (code : Code) : Move → Prop
  | become next | capture _ next => next.Runs code
  | perform primitive next => primitive.Runs code ∧ ∀ value, value.Calls code → (next value).Runs code
  | enter _ _ body => ∀ scope, (body scope).Runs code
  | leave _ outcome => (Process.finished outcome).Runs code

section Moves

variable {machine later : Machine}

theorem Primitive.Runs.settles {primitive : Primitive} (runs : primitive.Runs code) :
    Run.Settles (Machine.Calls code) False primitive.run primitive.run (Value.Calls code) := by
  have plain : ∀ value : Value, value.handle? = none → value.Calls code := Value.calls_of_plain
  cases primitive with
  | lookUp scope name => exact Machine.lookUp_settles plain scope name
  | assign scope name value => exact Machine.assign_settles plain scope name runs
  | declare scope name value => exact Machine.declare_settles scope name runs
  | act action => exact .action runs

namespace Process

theorem runs_failed (failure : Failure) : (Process.finished (.error failure)).Runs code :=
  .finished (by simp)

theorem runs_finished {flow : Flow} (origin : flow.From code) : (Process.finished (.ok flow)).Runs code :=
  .finished fun _ same => Except.ok.inj same ▸ origin

theorem runs_answer {value : Value} (calls : value.Calls code) : (answer value).Runs code :=
  runs_finished calls

end Process

/-- A move to code leads to a process of it, and leaves nothing else to be called. -/
theorem Move.Runs.apply {move : Move} {next : Process} (runs : move.Runs code) (holds : machine.Calls code)
    (applied : move.apply machine = some (next, later)) : later.Calls code ∧ next.Runs code := by
  cases move with
  | become =>
    cases applied
    exact ⟨holds, runs⟩
  | capture scope =>
    cases applied
    exact ⟨holds.capture scope, runs⟩
  | perform primitive after =>
    obtain ⟨⟨result, final⟩, ran, same⟩ := Option.map_eq_some_iff.mp applied
    obtain ⟨kept, good⟩ := runs.1.settles.perform holds ran
    cases result with
    | ok value =>
      cases same
      exact ⟨kept, runs.2 value (good value rfl)⟩
    | error failure =>
      cases same
      exact ⟨kept, runs_failed failure⟩
  | enter parent view body =>
    cases applied
    exact ⟨holds.enter parent view, .inside (runs _)⟩
  | leave scope outcome =>
    cases applied
    exact ⟨holds.leave scope, runs⟩

namespace Move

theorem runs_act {action : Action Value} (ensures : action.Ensures (Value.Calls code) (Value.Calls code)) :
    (act action).Runs code :=
  ⟨ensures, fun _ => runs_answer⟩

theorem runs_send (receiver : Value) (message : Message) {arguments : List Value}
    (all : ∀ value ∈ arguments, value.Calls code) : (act (receiver.send message arguments)).Runs code :=
  runs_act (Value.send_ensures Value.calls_of_plain receiver message all)

theorem runs_invoke {closure : Closure} {arguments : List Value} (inside : closure.body ∈ code)
    (all : ∀ value ∈ arguments, value.Calls code) : (invoke closure arguments).Runs code :=
  fun _ => .binding all inside

theorem runs_dispatch {target : Value} (name : String) {arguments : List Value} (calls : target.Calls code)
    (all : ∀ value ∈ arguments, value.Calls code) : (dispatch target name arguments).Runs code := by
  unfold dispatch
  split
  · exact .naming all
  · split
    · exact .waiting trivial (.sending calls all)
    · exact .sending calls all

end Move

theorem After.runs_resume {after : After} {value : Value} (runs : after.Runs code) (given : value.Calls code) :
    (after.resume value machine).Runs code := by
  have plain : ∀ value : Value, value.handle? = none → value.Calls code := Value.calls_of_plain
  have single : ∀ other ∈ [value], other.Calls code := by simpa using given
  cases after with
  | negate => exact Move.runs_send value .neg (List.forall_mem_nil _)
  | choose scope ok fail =>
    rw [After.resume_choose]
    split
    · exact .evaluating (runs ok List.mem_cons_self)
    · cases fail with
      | none => exact runs_finished trivial
      | some fail => exact .evaluating (runs fail (by simp))
  | foldFirst => exact .folding given runs
  | operand kind scope total message rest =>
    exact ⟨Value.send_ensures plain total message single, fun sum good => .folding good runs⟩
  | compareLeft => exact .waiting trivial (.evaluating runs)
  | compareRight left operator =>
    have ordered := (Value.send_ensures plain left .compare single).imp fun _ _ => trivial
    refine Move.runs_act (.andThen ordered fun order => ?_)
    exact .andThen (.ofExcept fun _ _ => trivial) fun _ => Value.ensures_plain plain rfl
  | declare | assign => exact ⟨given, fun _ => runs_answer⟩
  | argument kind scope done rest =>
    exact .collecting (List.forall_mem_append.mpr ⟨runs.1, single⟩) runs.2
  | loop scope iterator body =>
    exact .sending given fun other member => List.mem_singleton.mp member ▸ Value.calls_closure runs
  | rangeFirst => exact .waiting trivial (.evaluating runs)
  | rangeLast first =>
    refine Move.runs_act (.bind (.ofExcept fun items made => rangeOf_plain made) fun items numbers => ?_)
    exact Action.newArray_ensures plain fun other member => plain other (numbers other member)
  | each => exact .matching runs given

theorem Pending.runs_resume {pending : Pending} {flow : Flow} (runs : pending.Runs code) (origin : flow.From code) :
    (pending.resume flow machine).Runs code := by
  cases pending with
  | withValue after =>
    cases flow with
    | stop => exact runs_finished origin
    | nothing => exact After.runs_resume runs (Value.calls_of_plain _ rfl)
    | value v => exact After.runs_resume runs origin
  | lines scope rest =>
    have next : ∀ {line : Instruction} {rest : List Instruction}, (∀ part ∈ line :: rest, part ∈ code) →
        (waiting (.lines scope rest) (evaluating line scope)).Runs code :=
      fun runs => .waiting (fun part member => runs part (.tail _ member)) (.evaluating (runs _ (.head _)))
    cases flow <;> cases rest <;>
      first
        | exact runs_finished origin
        | exact next runs
  | iterate body last rest =>
    obtain ⟨calls, soFar, items⟩ := runs
    cases flow with
    -- A loop takes the break of its body and ends with the flow before it.
    | stop => exact runs_finished soFar
    | nothing => exact .iterating calls soFar items
    | value v => exact .iterating calls origin items

theorem Evaluator.stop_of_collect {outcomes : List (Except Failure Flow)} (collected : collect outcomes = .ok none) :
    .ok .stop ∈ outcomes := by
  have gathered := gather_of_collect collected
  rw [gather_eq] at gathered
  split at gathered
  case h_1 => cases gathered
  case h_2 flow found => exact stop_of_interrupts found ▸ List.mem_of_find?_eq_some found
  case h_3 => cases gathered

theorem Literal.runs_close (literal : Literal) {outcomes : List (Except Failure Flow)}
    (each : ∀ outcome ∈ outcomes, ∀ flow, outcome = .ok flow → flow.From code) :
    (literal.close outcomes).Runs code := by
  unfold Literal.close
  split
  case h_1 => exact runs_failed _
  case h_2 broken => exact runs_finished (each _ (Evaluator.stop_of_collect broken) .stop rfl)
  case h_3 values collected =>
    refine Move.runs_act (literal.make_ensures Value.calls_of_plain (Evaluator.forall_collect ?_ collected))
    exact fun outcome inside flow same => (each outcome inside flow same).toValue

namespace Process

variable {clock : Clock}

theorem runs_start {scope : ScopeId} {instruction : Instruction} (inside : instruction ∈ code) :
    (start clock scope machine instruction).Runs code := by
  have parts : ∀ part ∈ instruction.evaluated, part ∈ code := fun part => Code.part inside
  have together : ∀ {α : Type} {members : List α} {f : α → Instruction} {literal : Literal},
      (∀ part ∈ members.map f, part ∈ code) →
        (together literal (members.map fun member => evaluating (f member) scope)).Runs code := by
    refine fun each => .together fun member inside => ?_
    obtain ⟨item, there, rfl⟩ := List.mem_map.mp inside
    exact .evaluating (each _ (List.mem_map_of_mem there))
  cases instruction with
  | number | text | truth | translate => exact runs_answer (Value.calls_of_plain _ rfl)
  | date | dateTime =>
    exact Move.runs_act (.andThen (.ofExcept fun _ _ => trivial) fun _ => Value.ensures_plain Value.calls_of_plain rfl)
  | scope => exact runs_answer (Value.calls_scope scope)
  | stop => exact runs_finished inside
  | block lines =>
    cases lines with
    | nil => exact runs_finished trivial
    | cons line rest =>
      exact .waiting (fun part member => parts part (.tail _ member)) (.evaluating (parts line (.head _)))
  | result part =>
    cases part with
    | none => exact runs_finished trivial
    | some part => exact .evaluating (parts part (.head _))
  | nest part => exact .evaluating (parts part (.head _))
  | negation part | declaration _ part | assignment _ part =>
    exact .waiting trivial (.evaluating (parts part (.head _)))
  | choice test | branch test | fold _ test =>
    exact .waiting (fun part member => parts part (.tail _ member)) (.evaluating (parts test (.head _)))
  | compare first second | range first second | loop _ first second =>
    exact .waiting (parts second (.tail _ (.head _))) (.evaluating (parts first (.head _)))
  | array items => exact @together _ items id .array (by simpa [Instruction.evaluated, Instruction.parts] using parts)
  | object members => exact @together _ members Prod.snd _ parts
  | function name parameters body =>
    exact .waiting trivial (runs_answer (Value.calls_closure (parts body (.head _))))
  | each name body => exact .matching (parts body (.head _)) (Value.calls_of_plain _ rfl)
  | access kind arguments =>
    obtain ⟨rest, rfl, same⟩ | ⟨-, same⟩ := start_access clock scope machine kind arguments <;> rw [same]
    · exact .collecting (by simpa using Value.calls_scope scope) fun part member => parts part (.tail _ member)
    · exact .collecting (List.forall_mem_nil _) parts

theorem runs_access (kind : Access) {values : List Value} (all : ∀ value ∈ values, value.Calls code) :
    (access kind values machine).Runs code := by
  have target := Value.calls_headD all
  have rest : ∀ value ∈ values.tail, value.Calls code := fun value member => all value (List.mem_of_mem_tail member)
  unfold access
  cases kind with
  | get => exact .sending target rest
  | set => exact .sending target rest
  | call =>
    dsimp only
    split
    · exact Move.runs_dispatch _ target (List.forall_mem_nil _)
    case h_2 named others tail =>
      exact Move.runs_dispatch _ target fun value member => rest value (tail ▸ List.mem_cons_of_mem _ member)

theorem runs_send (holds : machine.Calls code) {receiver : Value} (message : Message) {arguments : List Value}
    (target : receiver.Calls code) (all : ∀ value ∈ arguments, value.Calls code) :
    (send receiver message arguments machine).Runs code := by
  fun_cases send receiver message arguments machine with
  | case1 scope => exact ⟨trivial, fun _ => runs_answer⟩
  | case2 scope => exact ⟨Value.argument_of_all Value.calls_of_plain all 1, fun _ => runs_answer⟩
  | case3 => exact .naming all
  | case4 closure => exact Move.runs_invoke (target closure rfl) all
  | case5 place =>
    refine .iterating (Value.calls_headD all) trivial fun value member => ?_
    exact holds.memory.items place value (Array.mem_toList_iff.mp member)
  | case6 => exact Move.runs_send receiver message all

theorem runs_fold {kind : Fold} {scope : ScopeId} {total : Value} {rest : List (String × Instruction)}
    (soFar : total.Calls code) (parts : ∀ part ∈ rest.map Prod.snd, part ∈ code) :
    (fold kind scope total machine rest).Runs code := by
  unfold fold
  split
  · exact runs_answer soFar
  case h_2 operator operand rest =>
    split
    · exact runs_answer soFar
    · split
      · exact runs_failed _
      · exact .waiting (fun part member => parts part (.tail _ member)) (.evaluating (parts operand (.head _)))

theorem runs_move (holds : machine.Calls code) {process : Process} (runs : process.Runs code) {move : Move}
    (moves : process.move clock machine = some move) : move.Runs code := by
  cases runs with
  | evaluating inside =>
    cases moves
    exact runs_start inside
  | finished => cases moves
  | waiting later inner =>
    cases inner with
    | @finished outcome origin =>
      cases outcome with
      | error failure =>
        cases moves
        exact runs_failed failure
      | ok flow =>
        cases moves
        exact Pending.runs_resume later (origin flow rfl)
    | _ => cases moves
  | inside inner =>
    cases inner with
    | finished origin =>
      cases moves
      exact .finished origin
    | _ => cases moves
  | @together literal members each =>
    -- The flows that are collected are those of members, which have ended.
    obtain ⟨outcomes, ended, rfl⟩ := Option.map_eq_some_iff.mp moves
    refine literal.runs_close fun outcome inside => ?_
    have member : finished outcome ∈ members := members_of_outcomes ended ▸ List.mem_map_of_mem inside
    cases each _ member with
    | finished origin => exact origin
  | @collecting kind scope done rest all parts =>
    cases rest with
    | nil =>
      cases moves
      exact runs_access kind all
    | cons argument rest =>
      cases moves
      exact .waiting ⟨all, fun part member => parts part (.tail _ member)⟩ (.evaluating (parts argument (.head _)))
  | @sending receiver message arguments target all =>
    cases moves
    exact runs_send holds message target all
  | @naming scope name arguments all =>
    cases reached : machine.arena.resolveCall scope name with
    | error failure =>
      simp only [Process.move, reached] at moves
      cases moves
      exact runs_failed failure
    | ok callee =>
      obtain ⟨id, found⟩ := Arena.callee_of_resolveCall reached
      cases callee with
      | closure closure =>
        simp only [Process.move, reached] at moves
        cases moves
        exact Move.runs_invoke (holds.locals id _ found closure rfl) all
      | library library =>
        simp only [Process.move, reached] at moves
        cases moves
        exact .asking all
  | @calling receiver arguments target all =>
    cases receiver with
    | closure closure =>
      cases moves
      exact Move.runs_invoke (target closure rfl) all
    | scope scope =>
      cases moves
      exact .naming all
    | _ =>
      cases moves
      exact Move.runs_send _ .call all
  | @binding scope parameters arguments body all inside =>
    cases parameters with
    | nil =>
      cases moves
      exact .evaluating inside
    | cons parameter parameters =>
      cases moves
      refine ⟨Value.calls_headD all, fun _ _ => .binding (fun value member => ?_) inside⟩
      exact all value (List.mem_of_mem_tail member)
  | @asking count library function arguments all =>
    cases count with
    | zero =>
      cases moves
      exact Move.runs_act (Library.answer_ensures Value.calls_of_plain clock library function all)
    | succ count =>
      cases moves
      exact .asking all
  | visiting inside =>
    cases moves
    exact fun _ => .evaluating inside
  | @matching scope body last views inside soFar =>
    cases views with
    | nil =>
      cases moves
      exact runs_answer soFar
    | cons view rest =>
      cases moves
      exact .waiting inside (.visiting inside)
  | @iterating body last items calls soFar all =>
    cases items with
    | nil =>
      cases moves
      exact runs_finished soFar
    | cons item rest =>
      cases moves
      refine .waiting ⟨calls, soFar, fun value member => all value (.tail _ member)⟩ (.calling calls ?_)
      exact fun value member => List.mem_singleton.mp member ▸ all item (.head _)
  | folding soFar parts =>
    cases moves
    exact runs_fold soFar parts

theorem Step.runs {admits : Process → Machine → Prop} {process next : Process}
    (step : Step clock admits process machine next later) (holds : machine.Calls code) (runs : process.Runs code) :
    later.Calls code ∧ next.Runs code := by
  induction step with
  | move admitted moves =>
    obtain ⟨move, made, applied⟩ := Option.bind_eq_some_iff.mp moves
    exact (runs_move holds runs made).apply holds applied
  | waiting step ih =>
    cases runs with
    | waiting later inner =>
      obtain ⟨kept, next⟩ := ih holds inner
      exact ⟨kept, .waiting later next⟩
  | inside step ih =>
    cases runs with
    | inside inner =>
      obtain ⟨kept, next⟩ := ih holds inner
      exact ⟨kept, .inside next⟩
  | member step ih =>
    cases runs with
    | together each =>
      obtain ⟨kept, next⟩ := ih holds (each _ List.mem_append_cons_self)
      exact ⟨kept, .together (Process.forall_mem_moved each (fun _ => id) next)⟩

theorem Steps.runs {admits : Process → Machine → Prop} {first last : Process × Machine}
    (steps : Steps clock admits first last) (holds : first.2.Calls code) (runs : first.1.Runs code) :
    last.2.Calls code ∧ last.1.Runs code := by
  induction steps with
  | refl => exact ⟨holds, runs⟩
  | tail before step ih => exact step.runs ih.1 ih.2

end Process

end Moves

end RuleScript
