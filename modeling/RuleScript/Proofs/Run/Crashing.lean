import RuleScript.Proofs.Library.Crashing
import RuleScript.Proofs.Run.Sequential
import RuleScript.Proofs.Run.Turns
import RuleScript.Proofs.Scope.Resolving

/-! Where a crash comes from.

A run crashes in no other way than by a move that sends a message that crashes, adds up items to a date-time that leaves
the calendar, or looks for a name up scopes that stand above themselves.
-/

set_option autoImplicit false

namespace RuleScript

open Process Move

/-- A process whose next move crashes. -/
inductive Process.Crashes (machine : Machine) : Process → Crash → Prop where
  | message {receiver : Value} {message : Message} {arguments : List Value} {cause : Crash}
      (crashes : receiver.Crashes machine.memory message arguments cause) :
    Crashes machine (.sending receiver message arguments) cause
  | operand {kind : Fold} {scope : ScopeId} {total : Value} {message : Message} {rest : List (String × Instruction)}
      {flow : Flow} {cause : Crash} (crashes : total.Crashes machine.memory message [flow.toValue] cause) :
    Crashes machine (.waiting (.withValue (.operand kind scope total message rest)) (.finished (.ok flow))) cause
  | sum {function : String} {arguments : List Value} (named : Standard.ofName? function = some .sum)
      (leaves : Standard.SumLeaves machine.memory (Value.argument arguments 0)) :
    Crashes machine (.asking 0 .standard function arguments) .dayOutOfRange
  | read {scope : ScopeId} {arguments : List Value} (round : machine.arena.ends scope = false) :
    Crashes machine (.sending (.scope scope) .get arguments) .endlessSearch
  | write {scope : ScopeId} {arguments : List Value} (round : machine.arena.ends scope = false) :
    Crashes machine (.sending (.scope scope) .set arguments) .endlessSearch
  | assign {scope : ScopeId} {name : String} {flow : Flow} (round : machine.arena.ends scope = false) :
    Crashes machine (.waiting (.withValue (.assign scope name)) (.finished (.ok flow))) .endlessSearch
  | call {scope : ScopeId} {name : String} {arguments : List Value} (round : machine.arena.ends scope = false) :
    Crashes machine (.naming scope name arguments) .endlessSearch

/-- A process no part of which has crashed for a cause. -/
inductive Process.Calm (cause : Crash) : Process → Prop where
  | finished {outcome : Except Failure Flow} (other : outcome ≠ .error (.crash cause)) : Calm cause (.finished outcome)
  | waiting {pending : Pending} {part : Process} (inner : Calm cause part) : Calm cause (.waiting pending part)
  | inside {scope : ScopeId} {body : Process} (inner : Calm cause body) : Calm cause (.inside scope body)
  | together {literal : Literal} {members : List Process} (each : ∀ member ∈ members, Calm cause member) :
    Calm cause (.together literal members)
  | evaluating {instruction : Instruction} {scope : ScopeId} : Calm cause (.evaluating instruction scope)
  | collecting {kind : Access} {scope : ScopeId} {done : List Value} {rest : List Instruction} :
    Calm cause (.collecting kind scope done rest)
  | sending {receiver : Value} {message : Message} {arguments : List Value} :
    Calm cause (.sending receiver message arguments)
  | naming {scope : ScopeId} {name : String} {arguments : List Value} : Calm cause (.naming scope name arguments)
  | calling {receiver : Value} {arguments : List Value} : Calm cause (.calling receiver arguments)
  | binding {scope : ScopeId} {parameters : List String} {arguments : List Value} {body : Instruction} :
    Calm cause (.binding scope parameters arguments body)
  | asking {count : Nat} {library : Library} {function : String} {arguments : List Value} :
    Calm cause (.asking count library function arguments)
  | visiting {scope : ScopeId} {view : View} {body : Instruction} : Calm cause (.visiting scope view body)
  | matching {scope : ScopeId} {body : Instruction} {last : Value} {views : List View} :
    Calm cause (.matching scope body last views)
  | iterating {body : Value} {last : Flow} {items : List Value} : Calm cause (.iterating body last items)
  | folding {kind : Fold} {scope : ScopeId} {total : Value} {rest : List (String × Instruction)} :
    Calm cause (.folding kind scope total rest)

def Move.Calm (cause : Crash) (machine : Machine) : Move → Prop
  | become next | capture _ next => next.Calm cause
  | perform primitive next =>
    (∀ later, primitive.run.perform machine ≠ some (.error (.crash cause), later)) ∧ ∀ value, (next value).Calm cause
  | enter _ _ body => ∀ scope, (body scope).Calm cause
  | leave _ outcome => outcome ≠ .error (.crash cause)

variable {clock : Clock} {cause : Crash} {machine later : Machine} {process next : Process}

theorem Move.Calm.apply {move : Move} (calm : move.Calm cause machine)
    (applied : move.apply machine = some (next, later)) : next.Calm cause := by
  cases move with
  | become | capture =>
    cases applied
    exact calm
  | perform primitive after =>
    obtain ⟨⟨result, final⟩, ran, same⟩ := Option.map_eq_some_iff.mp applied
    cases result with
    | ok value =>
      cases same
      exact calm.2 value
    | error failure =>
      cases same
      refine .finished fun crashed => ?_
      cases crashed
      exact calm.1 _ ran
  | enter =>
    cases applied
    exact .inside (calm _)
  | leave =>
    cases applied
    exact .finished calm

namespace Process

theorem calm_answer (value : Value) : (answer value).Calm cause :=
  .finished nofun

theorem calm_ok (flow : Flow) : (Process.finished (.ok flow)).Calm cause :=
  .finished nofun

end Process

theorem Primitive.round_of_lookUp {scope : ScopeId} {name : String}
    (ran : (Primitive.lookUp scope name).run.perform machine = some (.error (.crash cause), later)) :
    machine.arena.ends scope = false ∧ cause = .endlessSearch := by
  have step := Machine.lookUp_apply scope name machine
  cases up : machine.arena.ends scope with
  | true =>
    rw [if_pos up] at step
    split at step <;> cases (Run.perform_done step).symm.trans ran
  | false =>
    rw [if_neg (by simp [up])] at step
    split at step <;> cases (Run.perform_done step).symm.trans ran
    exact ⟨rfl, rfl⟩

theorem Primitive.round_of_assign {scope : ScopeId} {name : String} {value : Value}
    (ran : (Primitive.assign scope name value).run.perform machine = some (.error (.crash cause), later)) :
    machine.arena.ends scope = false ∧ cause = .endlessSearch := by
  have step := Machine.assign_apply scope name value machine
  cases up : machine.arena.ends scope with
  | true =>
    rw [if_pos up] at step
    split at step <;> cases (Run.perform_done step).symm.trans ran
  | false =>
    rw [if_neg (by simp [up])] at step
    split at step <;> cases (Run.perform_done step).symm.trans ran
    exact ⟨rfl, rfl⟩

theorem Primitive.declare_told (scope : ScopeId) (name : String) (value : Value) :
    (Primitive.declare scope name value).run.perform machine ≠ some (.error (.crash cause), later) := by
  intro ran
  have step := Machine.declare_apply scope name value machine
  split at step <;> cases (Run.perform_done step).symm.trans ran

namespace Move

theorem calm_perform {action : Action Value} {after : Value → Process}
    (told : (action machine.memory).1 ≠ .error (.crash cause)) (all : ∀ value, (after value).Calm cause) :
    (perform (.act action) after).Calm cause machine := by
  refine ⟨fun later ran => told ?_, all⟩
  have same := (Run.perform_done (Run.action_apply action machine)).symm.trans ran
  exact (Prod.ext_iff.mp (Option.some.inj same)).1

theorem calm_act {action : Action Value} (told : (action machine.memory).1 ≠ .error (.crash cause)) :
    (act action).Calm cause machine :=
  calm_perform told calm_answer

theorem calm_dispatch (target : Value) (name : String) (arguments : List Value) :
    (dispatch target name arguments).Calm cause machine := by
  unfold dispatch
  split
  · exact .naming
  · split
    · exact .waiting .sending
    · exact .sending

end Move

theorem relate_told (operator : String) (order : Value) : relate operator order ≠ .error (.crash cause) := by
  unfold relate
  split
  · nofun
  · split <;> nofun

theorem rangeOf_told (first last : Value) : rangeOf first last ≠ .error (.crash cause) := by
  unfold rangeOf
  dsimp only
  repeat' split
  all_goals nofun

theorem After.calm_resume {after : After} {flow : Flow}
    (safe : ¬ (waiting (.withValue after) (.finished (.ok flow))).Crashes machine cause) :
    (after.resume flow.toValue machine).Calm cause machine := by
  cases after with
  | negate => exact Move.calm_act (Value.send_steady _ _ (by decide) _ _)
  | choose scope ok fail =>
    rw [After.resume_choose]
    split
    · exact .evaluating
    · cases fail with
      | none => exact calm_ok _
      | some fail => exact .evaluating
  | foldFirst => exact .folding
  | operand kind scope total message rest =>
    exact Move.calm_perform (fun crashed => safe (.operand (Value.send_crash_iff.mp crashed))) fun _ => .folding
  | compareLeft => exact .waiting .evaluating
  | compareRight left operator =>
    have compares : (left.compare flow.toValue).Steady := left.send_steady _ (by decide)
    refine Move.calm_act (compares.bind (fun order => ?_) _ _)
    exact .bind (.ofExcept fun _ => relate_told operator order) fun _ => .pure _
  | declare scope name => exact ⟨fun _ => Primitive.declare_told scope name _, calm_answer⟩
  | assign scope name =>
    refine ⟨fun later ran => safe ?_, calm_answer⟩
    obtain ⟨round, rfl⟩ := Primitive.round_of_assign ran
    exact .assign round
  | argument => exact .collecting
  | loop => exact .sending
  | rangeFirst => exact .waiting .evaluating
  | rangeLast first =>
    refine Move.calm_act (Action.Steady.bind (.ofExcept fun _ => rangeOf_told first _) (fun items => ?_) _ _)
    exact fun _ _ => nofun
  | each => exact .matching

theorem Pending.calm_resume {pending : Pending} {flow : Flow}
    (safe : ¬ (waiting pending (.finished (.ok flow))).Crashes machine cause) :
    (pending.resume flow machine).Calm cause machine := by
  cases pending with
  | withValue after =>
    cases flow with
    | stop => exact calm_ok _
    | nothing | value => exact After.calm_resume safe
  | lines scope rest =>
    cases flow <;> cases rest <;>
      first
        | exact calm_ok _
        | exact .waiting .evaluating
  | iterate body last rest =>
    cases flow with
    | stop => exact calm_ok _
    | nothing | value => exact .iterating

theorem Evaluator.mem_of_collect {outcomes : List (Except Failure Flow)} {failure : Failure}
    (collected : collect outcomes = .error failure) : .error failure ∈ outcomes := by
  rw [collect_eq] at collected
  split at collected
  case h_1 decides =>
    cases collected
    obtain crashed | ⟨-, interrupted⟩ := Option.or_eq_some_iff.mp decides
    · exact List.mem_of_find?_eq_some crashed
    · exact List.mem_of_find?_eq_some interrupted
  case h_2 => cases collected
  case h_3 => cases collected

theorem Literal.calm_close (literal : Literal) {outcomes : List (Except Failure Flow)}
    (each : .error (.crash cause) ∉ outcomes) : (literal.close outcomes).Calm cause machine := by
  unfold Literal.close
  split
  case h_1 failure collected =>
    refine .finished fun crashed => each ?_
    cases crashed
    exact Evaluator.mem_of_collect collected
  case h_2 => exact calm_ok _
  case h_3 values _ =>
    refine Move.calm_act ?_
    cases literal <;> nofun

namespace Process

theorem calm_start (scope : ScopeId) (instruction : Instruction) :
    (start clock scope machine instruction).Calm cause machine := by
  cases instruction with
  | number | text | truth | translate => exact calm_answer _
  | date =>
    exact Move.calm_act (Action.Steady.bind (.ofExcept (Date.read_told _ _)) (fun _ => .pure _) _ _)
  | dateTime =>
    exact Move.calm_act (Action.Steady.bind (.ofExcept (DateTime.read_told _ _)) (fun _ => .pure _) _ _)
  | scope => exact calm_answer _
  | stop => exact calm_ok _
  | block lines =>
    cases lines with
    | nil => exact calm_ok _
    | cons => exact .waiting .evaluating
  | result part =>
    cases part with
    | none => exact calm_ok _
    | some => exact .evaluating
  | nest => exact .evaluating
  | array items =>
    refine .together fun member inside => ?_
    obtain ⟨item, -, rfl⟩ := List.mem_map.mp inside
    exact .evaluating
  | object members =>
    refine .together fun member inside => ?_
    obtain ⟨item, -, rfl⟩ := List.mem_map.mp inside
    exact .evaluating
  | function => exact .waiting (calm_answer _)
  | each => exact .matching
  | access kind arguments =>
    obtain ⟨rest, rfl, same⟩ | ⟨-, same⟩ := start_access clock scope machine kind arguments <;> rw [same] <;>
      exact .collecting
  | _ => exact .waiting .evaluating

theorem calm_access (kind : Access) (values : List Value) : (access kind values machine).Calm cause machine := by
  unfold access
  cases kind with
  | get | set => exact .sending
  | call =>
    dsimp only
    split <;> exact Move.calm_dispatch _ _ _

theorem calm_send {receiver : Value} {message : Message} {arguments : List Value}
    (safe : ¬ (sending receiver message arguments).Crashes machine cause) :
    (send receiver message arguments machine).Calm cause machine := by
  fun_cases send receiver message arguments machine with
  | case1 scope =>
    refine ⟨fun later ran => safe ?_, calm_answer⟩
    obtain ⟨round, rfl⟩ := Primitive.round_of_lookUp ran
    exact .read round
  | case2 scope =>
    refine ⟨fun later ran => safe ?_, calm_answer⟩
    obtain ⟨round, rfl⟩ := Primitive.round_of_assign ran
    exact .write round
  | case3 => exact .naming
  | case4 => exact fun _ => .binding
  | case5 => exact .iterating
  | case6 => exact Move.calm_act fun crashed => safe (.message (Value.send_crash_iff.mp crashed))

theorem calm_fold (kind : Fold) (scope : ScopeId) (total : Value) (rest : List (String × Instruction)) :
    (fold kind scope total machine rest).Calm cause machine := by
  unfold fold
  split
  · exact calm_answer _
  · split
    · exact calm_answer _
    · split
      · exact .finished nofun
      · exact .waiting .evaluating

/-- A move of a calm process that does not crash by it leads to a calm one. -/
theorem calm_move (calm : process.Calm cause) (safe : ¬ process.Crashes machine cause) {move : Move}
    (moves : process.move clock machine = some move) : move.Calm cause machine := by
  cases calm with
  | evaluating =>
    cases moves
    exact calm_start _ _
  | finished => cases moves
  | @waiting pending part inner =>
    cases inner with
    | @finished outcome other =>
      cases outcome with
      | error failure =>
        cases moves
        exact .finished fun same => other (Except.error.inj same ▸ rfl)
      | ok flow =>
        cases moves
        exact Pending.calm_resume safe
    | _ => cases moves
  | inside inner =>
    cases inner with
    | finished other =>
      cases moves
      exact other
    | _ => cases moves
  | @together literal members each =>
    -- A group that crashes has a member that has crashed, and no part has.
    obtain ⟨outcomes, ended, rfl⟩ := Option.map_eq_some_iff.mp moves
    refine literal.calm_close fun inside => ?_
    have member : finished (.error (.crash cause)) ∈ members :=
      members_of_outcomes ended ▸ List.mem_map_of_mem inside
    cases each _ member with
    | finished other => exact other rfl
  | @collecting kind scope done rest =>
    cases rest with
    | nil =>
      cases moves
      exact calm_access kind done
    | cons =>
      cases moves
      exact .waiting .evaluating
  | sending =>
    cases moves
    exact calm_send safe
  | @naming scope name arguments =>
    cases reached : machine.arena.resolveCall scope name with
    | error failure =>
      simp only [Process.move, reached] at moves
      cases moves
      refine .finished fun same => safe ?_
      cases same
      have why := (Arena.resolveCall_error_iff.mp reached).1
      -- A call that reaches nothing crashes where the way up goes round, and there alone.
      cases up : machine.arena.ends scope with
      | true =>
        rw [if_pos up] at why
        cases why
      | false =>
        rw [if_neg (by simp [up])] at why
        cases why
        exact .call up
    | ok callee =>
      cases callee <;> simp only [Process.move, reached] at moves <;> cases moves
      · exact fun _ => .binding
      · exact .asking
  | @calling receiver arguments =>
    cases receiver <;> cases moves <;>
      first
        | exact .naming
        | exact fun _ => .binding
        | exact Move.calm_act (Value.send_steady _ _ (by decide) _ _)
  | @binding scope parameters arguments body =>
    cases parameters with
    | nil =>
      cases moves
      exact .evaluating
    | cons parameter parameters =>
      cases moves
      exact ⟨fun _ => Primitive.declare_told scope parameter _, fun _ => .binding⟩
  | @asking count library function arguments =>
    cases count with
    | zero =>
      cases moves
      refine Move.calm_act fun crashed => safe ?_
      obtain ⟨rfl, named, rfl, leaves⟩ := Library.crashes_of_answer crashed
      exact .sum named leaves
    | succ count =>
      cases moves
      exact .asking
  | visiting =>
    cases moves
    exact fun _ => .evaluating
  | @matching scope body last views =>
    cases views with
    | nil =>
      cases moves
      exact calm_answer _
    | cons =>
      cases moves
      exact .waiting .visiting
  | @iterating body last items =>
    cases items with
    | nil =>
      cases moves
      exact calm_ok _
    | cons =>
      cases moves
      exact .waiting .calling
  | folding =>
    cases moves
    exact calm_fold _ _ _ _

theorem Step.calm {admits : Process → Machine → Prop} (step : Step clock admits process machine next later)
    (calm : process.Calm cause) (safe : ∀ part, process.Involves part → ¬ part.Crashes machine cause) :
    next.Calm cause := by
  induction step with
  | move _ moves =>
    -- Only the part that moves could crash, and it does not.
    obtain ⟨move, moves, applied⟩ := Option.bind_eq_some_iff.mp moves
    exact (calm_move calm (safe _ .self) moves).apply applied
  | waiting _ ih =>
    cases calm with
    | waiting inner => exact .waiting (ih inner fun part involves => safe part (.waiting involves))
  | inside _ ih =>
    cases calm with
    | inside inner => exact .inside (ih inner fun part involves => safe part (.inside involves))
  | @member literal before after member next machine later _ ih =>
    cases calm with
    | together each =>
      have moved := ih (each member List.mem_append_cons_self) fun part involves =>
        safe part (.together List.mem_append_cons_self involves)
      exact .together (forall_mem_moved each (fun _ => id) moved)

/-- Whatever has crashed, some part has made a move on the way that crashes. -/
theorem Steps.crash_origin {admits : Process → Machine → Prop} {first last : Process × Machine}
    (steps : Steps clock admits first last) (calm : first.1.Calm cause) (crashed : ¬ last.1.Calm cause) :
    ∃ state, Steps clock admits first state ∧ Steps clock admits state last ∧
      ∃ part, state.1.Involves part ∧ part.Crashes state.2 cause := by
  induction steps with
  | refl => exact absurd calm crashed
  | @tail before after earlier step ih =>
    by_cases still : before.1.Calm cause
    · by_contra none
      refine crashed (step.calm still fun part involves crashes => none ?_)
      exact ⟨before, earlier, .single step, part, involves, crashes⟩
    · obtain ⟨state, here, there, origin⟩ := ih still
      exact ⟨state, here, .tail there step, origin⟩

end Process

end RuleScript
