import RuleScript.Proofs.Run.Tidy

/-! What a process does with the scopes that it holds on to.

A move of a process that fits keeps the machine tidy and leads to a process that fits. The one exception is a call
by name that is given a scope that nobody keeps.
-/

set_option autoImplicit false

namespace RuleScript

def Primitive.Fits (arena : Arena) (around : List ScopeId) : Primitive → Prop
  | lookUp scope _ => arena.Anchored around scope
  | assign scope _ value | declare scope _ value =>
    arena.Anchored around scope ∧ value.Within arena.Kept
  | act action => action.Ensures (·.Within arena.Kept) (·.Within arena.Kept)

def Move.Fits (arena : Arena) (around : List ScopeId) : Move → Prop
  | become next => next.Fits arena around
  | capture scope next => arena.Anchored around scope ∧
    ∀ later : Arena, (∀ id, arena.Kept id → later.Kept id) → later.Kept scope → next.Fits later around
  | perform primitive next => primitive.Fits arena around ∧
    ∀ (later : Arena) (value : Value), (∀ id, arena.Kept id → later.Kept id) → value.Within later.Kept →
      (next value).Fits later around
  | enter parent _ body => arena.Anchored around parent ∧
    ∀ (later : Arena) (child : ScopeId), (∀ id, arena.Kept id → later.Kept id) →
      (body child).Fits later (child :: around)
  | leave _ outcome => (Process.finished outcome).Fits arena around

/-- A call of the name `iterate` that reaches something and gives it a scope that nobody keeps. -/
def Process.HandsOver (process : Process) (machine : Machine) : Prop :=
  ∃ scope arguments callee, process = naming scope Message.iterate.name arguments ∧
    machine.arena.resolveCall scope Message.iterate.name = .ok callee ∧
    ∃ value ∈ arguments, ¬ value.Within machine.arena.Kept

open Process

section Moves

variable {machine : Machine} {arena : Arena} {around : List ScopeId}

theorem Value.Within.anchored {value : Value} (within : value.Within arena.Kept) :
    value.Within (arena.Anchored around) :=
  within.imp fun _ => .inl

namespace Move

theorem fits_act {action : Action Value} (ensures : action.Ensures (·.Within arena.Kept) (·.Within arena.Kept)) :
    (act action).Fits arena around :=
  ⟨ensures, fun _ _ _ within => fits_answer within⟩

theorem fits_send (receiver : Value) (message : Message) {arguments : List Value}
    (all : ∀ value ∈ arguments, value.Within arena.Kept) :
    (act (receiver.send message arguments)).Fits arena around :=
  fits_act (Value.send_ensures Value.within_of_plain receiver message all)

theorem fits_invoke {closure : Closure} {arguments : List Value}
    (anchored : arena.Anchored around closure.scope) (all : ∀ value ∈ arguments, value.Within arena.Kept) :
    (invoke closure arguments).Fits arena around :=
  ⟨anchored, fun _ _ keeps => .binding (.inr (.head _)) fun value member => (all value member).imp keeps⟩

theorem fits_dispatch {target : Value} (name : String) {arguments : List Value}
    (receives : target.Within (arena.Anchored around)) (all : ∀ value ∈ arguments, value.Within arena.Kept) :
    (dispatch target name arguments).Fits arena around := by
  unfold dispatch
  split
  · exact .naming (receives _ rfl) (.inl all)
  · split
    · exact .waiting trivial (.sending receives (.inl all))
    · exact .sending receives (.inl all)

end Move

theorem After.fits_resume {after : After} {value : Value}
    (fits : after.Fits arena.Kept (arena.Anchored around)) (within : value.Within arena.Kept) :
    (after.resume value machine).Fits arena around := by
  have plain : ∀ value : Value, value.handle? = none → value.Within arena.Kept := Value.within_of_plain
  cases after with
  | negate => exact Move.fits_send value .neg (List.forall_mem_nil _)
  | choose scope ok fail =>
    rw [After.resume_choose]
    split
    · exact .evaluating fits
    · cases fail with
      | some fail => exact .evaluating fits
      | none => exact fits_nothing
  | foldFirst kind scope rest => exact .folding fits within
  | operand kind scope total message rest =>
    refine ⟨Value.send_ensures plain total message (by simpa using within), fun later result keeps good => ?_⟩
    exact .folding (fits.1.imp_left (keeps scope)) good
  | compareLeft scope right operator => exact .waiting within (.evaluating fits)
  | compareRight left operator =>
    refine Move.fits_act (.andThen ((Value.send_ensures plain left .compare (by simpa using within)).imp
      fun _ _ => trivial) fun order => ?_)
    exact .andThen (.ofExcept fun _ _ => trivial) fun _ => Value.ensures_plain plain rfl
  | declare scope name => exact ⟨⟨fits, within⟩, fun _ _ _ good => fits_answer good⟩
  | assign scope name => exact ⟨⟨fits, within⟩, fun _ _ _ good => fits_answer good⟩
  | argument kind scope done rest =>
    obtain ⟨anchored, head, tail⟩ := fits
    refine .collecting anchored ?_
    cases done with
    | nil => exact ⟨within.anchored, List.forall_mem_nil _⟩
    | cons target others =>
      refine ⟨head, fun other member => ?_⟩
      rcases List.mem_append.mp member with old | new
      · exact tail other old
      · exact List.mem_singleton.mp new ▸ within
  | loop scope iterator body =>
    -- The closure of a loop is over a scope that may not be kept, so it may go with `iterate` only.
    refine .sending within.anchored (.inr ⟨rfl, fun other member => ?_⟩)
    exact List.mem_singleton.mp member ▸ Value.within_closure fits
  | rangeFirst scope last => exact .waiting within (.evaluating fits)
  | rangeLast first =>
    refine Move.fits_act (.bind (.ofExcept fun items made => rangeOf_plain made) fun items numbers => ?_)
    exact Action.newArray_ensures plain fun other member => plain other (numbers other member)
  | each scope body rest => exact .matching fits within

theorem Pending.fits_resume {pending : Pending} {flow : Flow}
    (fits : pending.Fits arena.Kept (arena.Anchored around)) (within : flow.Within arena.Kept) :
    (pending.resume flow machine).Fits arena around := by
  have finished : (finished (.ok flow)).Fits arena around := .finished fun _ same => Except.ok.inj same ▸ within
  cases pending with
  | withValue after =>
    cases flow with
    | stop => exact fits_stop
    | nothing => exact After.fits_resume fits (Value.within_of_plain _ rfl)
    | value v => exact After.fits_resume fits (within v rfl)
  | lines scope rest =>
    cases flow <;> cases rest <;>
      first
        | exact finished
        | exact .waiting fits (.evaluating fits)
  | iterate body last rest =>
    obtain ⟨calls, soFar, items⟩ := fits
    cases flow with
    | stop => exact .finished fun _ same => Except.ok.inj same ▸ soFar
    | nothing => exact .iterating calls soFar items
    | value v => exact .iterating calls within items

theorem Evaluator.of_gather_cons {flow : Flow} {rest : List (Except Failure Flow)} {values : List Value}
    (gathered : gather (.ok flow :: rest) = .ok (some values)) :
    ∃ others, gather rest = .ok (some others) ∧ values = flow.toValue :: others := by
  by_cases stopped : flow = .stop
  · subst stopped
    cases gathered
  · rw [gather_cons stopped] at gathered
    cases below : gather rest with
    | error failure => simp [below, Except.map] at gathered
    | ok values? =>
      cases values? with
      | none => simp [below, Except.map] at gathered
      | some others => exact ⟨others, rfl, by simpa [below, Except.map, eq_comm] using gathered⟩

theorem Evaluator.forall_collect {good : Value → Prop} {outcomes : List (Except Failure Flow)}
    (each : ∀ outcome ∈ outcomes, ∀ flow, outcome = .ok flow → good flow.toValue) {values : List Value}
    (collected : collect outcomes = .ok (some values)) : ∀ value ∈ values, good value := by
  have gathered := gather_of_collect collected
  clear collected
  induction outcomes generalizing values with
  | nil =>
    cases gathered
    exact List.forall_mem_nil _
  | cons first rest ih =>
    obtain ⟨here, others⟩ := List.forall_mem_cons.mp each
    cases first with
    | error failure => cases gathered
    | ok flow =>
      obtain ⟨below, gatheredRest, rfl⟩ := of_gather_cons gathered
      exact List.forall_mem_cons.mpr ⟨here flow rfl, ih others gatheredRest⟩

theorem Literal.make_ensures {good : Value → Prop} (plain : ∀ value : Value, value.handle? = none → good value)
    (literal : Literal) {values : List Value} (all : ∀ value ∈ values, good value) :
    Action.Ensures good (literal.make values) good := by
  cases literal with
  | array => exact Action.newArray_ensures plain fun value member => all value (List.mem_toArray.mp member)
  | object names =>
    exact Action.newObject_ensures plain (Fields.ofList_all fun pair member => all _ (List.of_mem_zip member).2)

theorem Literal.fits_close (literal : Literal) {outcomes : List (Except Failure Flow)}
    (each : ∀ outcome ∈ outcomes, ∀ flow, outcome = .ok flow → flow.Within arena.Kept) :
    (literal.close outcomes).Fits arena around := by
  have plain : ∀ value : Value, value.handle? = none → value.Within arena.Kept := Value.within_of_plain
  unfold Literal.close
  split
  case h_1 => exact fits_failed _
  case h_2 => exact fits_stop
  case h_3 values collected =>
    refine Move.fits_act (literal.make_ensures plain (Evaluator.forall_collect ?_ collected))
    exact fun outcome inside flow same => (each outcome inside flow same).toValue

/-- No value but a scope does anything with the arguments of `iterate`. -/
theorem Value.send_iterate (receiver : Value) (arguments : List Value) :
    receiver.send .iterate arguments = receiver.send .iterate [] := by
  cases receiver <;> rfl

namespace Process

variable {clock : Clock}

theorem fits_start {scope : ScopeId} (anchored : machine.arena.Anchored around scope)
    (instruction : Instruction) :
    (start clock scope machine instruction).Fits machine.arena around := by
  have plain : ∀ value : Value, value.handle? = none → value.Within machine.arena.Kept := Value.within_of_plain
  have evaluated : ∀ {α : Type} (members : List α) (f : α → Instruction) (literal : Literal),
      (together literal (members.map fun member => evaluating (f member) scope)).Fits machine.arena around := by
    intro α members f literal
    refine .together fun member inside => ?_
    obtain ⟨_, -, rfl⟩ := List.mem_map.mp inside
    exact .evaluating anchored
  have none : Operands machine.arena.Kept (machine.arena.Anchored around) [] :=
    ⟨Value.within_of_plain _ rfl, List.forall_mem_nil _⟩
  cases instruction with
  | block lines =>
    cases lines with
    | nil => exact fits_nothing
    | cons line rest => exact .waiting anchored (.evaluating anchored)
  | number | text | truth | translate => exact fits_plain _ rfl
  | date | dateTime =>
    exact Move.fits_act (.andThen (.ofExcept fun _ _ => trivial) fun _ => Value.ensures_plain plain rfl)
  | scope => exact ⟨anchored, fun _ _ kept => fits_answer (Value.within_scope kept)⟩
  | stop => exact fits_stop
  | nest part => exact .evaluating anchored
  | result part =>
    cases part with
    | some part => exact .evaluating anchored
    | none => exact fits_nothing
  | negation part => exact .waiting trivial (.evaluating anchored)
  | choice | branch | fold | compare | declaration | assignment | loop | range =>
    exact .waiting anchored (.evaluating anchored)
  | array items => exact evaluated items id .array
  | object members => exact evaluated members Prod.snd (.object _)
  | access kind values =>
    obtain ⟨rest, rfl, same⟩ | ⟨-, same⟩ := start_access clock scope machine kind values <;> rw [same]
    · exact .collecting anchored ⟨Value.within_scope anchored, List.forall_mem_nil _⟩
    · exact .collecting anchored none
  | function name parameters body =>
    refine ⟨anchored, fun later keeps kept => ?_⟩
    exact .waiting (anchored.imp_left (keeps scope)) (fits_answer (Value.within_closure kept))
  | each name body => exact .matching anchored (Value.within_of_plain _ rfl)

theorem fits_access {kind : Access} {values : List Value}
    (operands : Operands machine.arena.Kept (machine.arena.Anchored around) values) :
    (access kind values machine).Fits machine.arena around := by
  obtain ⟨target, arguments⟩ := operands
  unfold access
  cases kind with
  | get => exact .sending target (.inl arguments)
  | set => exact .sending target (.inl arguments)
  | call =>
    dsimp only
    split
    · exact Move.fits_dispatch _ target (List.forall_mem_nil _)
    case h_2 named rest tail =>
      refine Move.fits_dispatch _ target fun value member => arguments value ?_
      exact tail ▸ List.mem_cons_of_mem _ member

theorem fits_fold {kind : Fold} {scope : ScopeId} {total : Value} {rest : List (String × Instruction)}
    (anchored : machine.arena.Anchored around scope) (within : total.Within machine.arena.Kept) :
    (fold kind scope total machine rest).Fits machine.arena around := by
  unfold fold
  split
  · exact fits_answer within
  · split
    · exact fits_answer within
    · split
      · exact fits_failed _
      · exact .waiting ⟨anchored, within⟩ (.evaluating anchored)

theorem fits_send (tidy : machine.Tidy) {receiver : Value} {message : Message} {arguments : List Value}
    (receives : receiver.Within (machine.arena.Anchored around))
    (delivery : Delivery machine.arena.Kept (machine.arena.Anchored around) (message = .iterate) arguments) :
    (send receiver message arguments machine).Fits machine.arena around := by
  have plain : ∀ value : Value, value.handle? = none → value.Within machine.arena.Kept := Value.within_of_plain
  have stored : message ≠ .iterate → ∀ value ∈ arguments, value.Within machine.arena.Kept :=
    fun other => delivery.resolve_right fun same => other same.1
  have used : ∀ value ∈ arguments, value.Within (machine.arena.Anchored around) :=
    delivery.elim (fun all value member => (all value member).anchored) And.right
  fun_cases send receiver message arguments machine with
  | case1 scope => exact ⟨receives scope rfl, fun _ _ _ good => fits_answer good⟩
  | case2 scope =>
    refine ⟨⟨receives scope rfl, ?_⟩, fun _ _ _ good => fits_answer good⟩
    exact Value.argument_of_all plain (stored (by simp)) 1
  | case3 _ scope notGet notSet =>
    exact .naming (receives scope rfl) (delivery.imp_right (And.imp_left (congrArg Message.name)))
  | case4 closure => exact Move.fits_invoke (receives closure.scope rfl) (stored (by simp))
  | case5 place =>
    refine .iterating ?_ (by simp [Flow.Within]) fun value member =>
      tidy.memory.items place value (by simpa using member)
    cases arguments with
    | nil => exact Value.within_of_plain _ rfl
    | cons body rest => exact used body (.head _)
  | case6 notGet notSet notScope notCall notIterate =>
    -- What goes with `iterate` may name a scope that is not kept, but it is not looked at here.
    by_cases same : message = .iterate
    · subst same
      rw [Value.send_iterate]
      exact Move.fits_send receiver .iterate (List.forall_mem_nil _)
    · exact Move.fits_send receiver message (stored same)

/-- Every move of a process that fits is one that fits, unless it hands a scope over. -/
theorem fits_move (tidy : machine.Tidy) (bodies : ∀ scope ∈ around, machine.arena.Grounded scope)
    {process : Process} (fits : process.Fits machine.arena around) (keeps : ¬ process.HandsOver machine)
    {move : Move} (moves : process.move clock machine = some move) : move.Fits machine.arena around := by
  cases fits with
  | evaluating anchored =>
    cases moves
    exact fits_start anchored _
  | finished within => cases moves
  | @waiting _ pending part pendingFits rest =>
    cases rest with
    | @finished _ outcome within =>
      cases outcome with
      | error failure =>
        cases moves
        exact fits_failed failure
      | ok flow =>
        cases moves
        exact Pending.fits_resume pendingFits (within flow rfl)
    | _ => cases moves
  | @inside _ scope parent body live has anchored rest =>
    cases rest with
    | finished within =>
      cases moves
      exact .finished within
    | _ => cases moves
  | @together _ literal members each =>
    obtain ⟨outcomes, ended, rfl⟩ := Option.map_eq_some_iff.mp moves
    refine literal.fits_close fun outcome inside => ?_
    have member : finished outcome ∈ members := members_of_outcomes ended ▸ List.mem_map_of_mem inside
    cases each _ member with
    | finished within => exact within
  | @collecting _ kind scope done rest anchored operands =>
    cases rest with
    | nil =>
      cases moves
      exact fits_access operands
    | cons argument rest =>
      cases moves
      exact .waiting ⟨anchored, operands⟩ (.evaluating anchored)
  | sending receives delivery =>
    cases moves
    exact fits_send tidy receives delivery
  | @naming _ scope name arguments anchored delivery =>
    obtain ⟨path, walk, alive⟩ := tidy.grounded_of_anchored bodies anchored
    cases reached : machine.arena.resolveCall scope name with
    | error failure =>
      simp only [Process.move, reached] at moves
      cases moves
      exact fits_failed failure
    | ok callee =>
      -- Only a call of `iterate` may be given a scope that is not kept, and this run hands none over.
      have stored : ∀ value ∈ arguments, value.Within machine.arena.Kept := fun value member => by
        rcases delivery with all | ⟨rfl, -⟩
        · exact all value member
        · by_contra loose
          exact keeps ⟨scope, arguments, callee, rfl, reached, value, member, loose⟩
      simp only [Process.move, reached] at moves
      obtain ⟨id, member, found⟩ := Arena.mem_chain_of_resolveCall reached
      have live : machine.arena.Live id := alive id (walk.chain ▸ member)
      obtain ⟨c, rfl, bound⟩ | ⟨library, -, -, rfl⟩ := found
      · cases moves
        exact Move.fits_invoke (.inl (tidy.locals id live _ (Fields.mem_of_get? bound) c.scope rfl)) stored
      · cases moves
        exact .asking stored
  | @calling _ receiver arguments receives all =>
    cases receiver with
    | closure closure =>
      cases moves
      exact Move.fits_invoke (receives closure.scope rfl) all
    | scope scope =>
      cases moves
      exact .naming (receives scope rfl) (.inl all)
    | _ =>
      cases moves
      exact Move.fits_send _ .call all
  | @binding _ scope parameters arguments body anchored all =>
    cases parameters with
    | nil =>
      cases moves
      exact .evaluating anchored
    | cons parameter parameters =>
      cases moves
      refine ⟨⟨anchored, ?_⟩, fun later value keeps good => ?_⟩
      · cases arguments with
        | nil => exact Value.within_of_plain _ rfl
        | cons first rest => exact all first (.head _)
      · exact .binding (anchored.imp_left (keeps scope)) fun other member =>
          (all other (List.mem_of_mem_tail member)).imp keeps
  | @asking _ count library function arguments all =>
    cases count with
    | zero =>
      cases moves
      exact Move.fits_act (Library.answer_ensures Value.within_of_plain clock library function all)
    | succ count =>
      cases moves
      exact .asking all
  | visiting anchored =>
    cases moves
    exact ⟨anchored, fun _ _ _ => .evaluating (.inr (.head _))⟩
  | @matching _ scope body last views anchored within =>
    cases views with
    | nil =>
      cases moves
      exact fits_answer within
    | cons view rest =>
      cases moves
      exact .waiting anchored (.visiting anchored)
  | @iterating _ body last items calls within all =>
    cases items with
    | nil =>
      cases moves
      exact .finished fun _ same => Except.ok.inj same ▸ within
    | cons item rest =>
      cases moves
      refine .waiting ⟨calls, within, fun value member => all value (.tail _ member)⟩ (.calling calls ?_)
      exact fun value member => List.mem_singleton.mp member ▸ all item (.head _)
  | folding anchored within =>
    cases moves
    exact fits_fold anchored within

end Process

end Moves

end RuleScript
