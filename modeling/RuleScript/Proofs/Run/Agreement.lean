import RuleScript.Proofs.Instruction.Parts
import RuleScript.Proofs.Run.Settling

/-! Evaluators that agree on the parts of an instruction agree on the instruction.

One lemma for each rule of evaluation, literals apart: the members of a literal are run by a rule of their own.
-/

set_option autoImplicit false

namespace RuleScript

/-- The parts that may be evaluated: all but the argument of a title. -/
def Instruction.evaluated : Instruction → List Instruction
  | translate _ _ => []
  | instruction => instruction.parts

theorem Instruction.mem_parts_of_evaluated {instruction part : Instruction} (member : part ∈ instruction.evaluated) :
    part ∈ instruction.parts := by
  cases instruction with
  | translate => cases member
  | _ => exact member

/-- Values and libraries that a run keeps to, and with which it does not suspend. -/
structure Unsuspending (clock : Clock) (good : Value → Prop) (known : Library → Prop) : Prop where
  plain : ∀ value : Value, value.handle? = none → good value
  scopes : ∀ id, good (.scope id)
  prompt : ∀ library, known library → ∀ function, library.has function = true →
    ∀ arguments, library.suspensions arguments = 0
  answers : ∀ library, known library → ∀ function arguments, (∀ value ∈ arguments, good value) →
    (library.answer clock function arguments).Ensures good good

namespace Evaluator

/-- Two evaluators settle alike on an instruction, with a flow that is good. -/
def Agree (good : Value → Prop) (known : Library → Prop) (limit : Prop) (eval other : Evaluator)
    (instruction : Instruction) : Prop :=
  ∀ scope, Run.Settles (Machine.Holds good known) limit (eval instruction scope) (other instruction scope)
    (Flow.All good)

variable {clock : Clock} {good : Value → Prop} {known : Library → Prop} {limit : Prop} {eval other : Evaluator}
  {scope : ScopeId} (setting : Unsuspending clock good known)

section Values

variable {run alike : Run Flow} {next onward : Value → Run Flow}

theorem give_settles {value : Value} (given : good value) :
    Run.Settles (Machine.Holds good known) limit (give value) (give value) (Flow.All good) :=
  .pure fun _ same => Flow.value.inj same ▸ given

theorem answer_settles {act : Action Value} (ensures : act.Ensures good good) :
    Run.Settles (Machine.Holds good known) limit (do return .value (← Run.action act))
      (do return .value (← Run.action act)) (Flow.All good) :=
  .bind (.action ensures) fun _ given => give_settles given

include setting

theorem withValue_settles {flow : Flow} (all : flow.All good)
    (rest : ∀ value, good value →
      Run.Settles (Machine.Holds good known) limit (next value) (onward value) (Flow.All good)) :
    Run.Settles (Machine.Holds good known) limit (flow.withValue next) (flow.withValue onward) (Flow.All good) := by
  have value := all.toValue (setting.plain _ rfl)
  cases flow with
  | stop => exact .pure all
  | nothing | value => exact rest _ value

theorem valueOf_settles {instruction : Instruction} (part : Agree good known limit eval other instruction)
    (rest : ∀ value, good value →
      Run.Settles (Machine.Holds good known) limit (next value) (onward value) (Flow.All good)) :
    Run.Settles (Machine.Holds good known) limit (valueOf eval instruction scope next)
      (valueOf other instruction scope onward) (Flow.All good) :=
  .bind (part scope) fun _ all => withValue_settles setting all rest

end Values

theorem lines_settles {last : Flow} (all : last.All good) {rest : List Instruction}
    (parts : ∀ line ∈ rest, Agree good known limit eval other line) :
    Run.Settles (Machine.Holds good known) limit (lines eval scope last rest) (lines other scope last rest)
      (Flow.All good) := by
  induction rest generalizing last with
  | nil => exact .pure all
  | cons line rest ih =>
    refine .bind (parts line List.mem_cons_self scope) fun flow all => ?_
    cases flow with
    | stop => exact .pure all
    | nothing | value => exact ih all fun line member => parts line (List.mem_cons_of_mem _ member)

theorem headD_good {Q : Value → Prop} (plain : ∀ value : Value, value.handle? = none → Q value)
    {values : List Value} (all : ∀ value ∈ values, Q value) : Q (values.headD .empty) := by
  cases values with
  | nil => exact plain _ rfl
  | cons first rest => exact all first List.mem_cons_self

theorem tail_good {Q : Value → Prop} {values : List Value} (all : ∀ value ∈ values, Q value) :
    ∀ value ∈ values.tail, Q value :=
  fun value member => all value (List.mem_of_mem_tail member)

section Calls

include setting

theorem bindParameters_settles (parameters : List String) {arguments : List Value}
    (all : ∀ value ∈ arguments, good value) :
    Run.Settles (Machine.Holds good known) limit (bindParameters scope parameters arguments)
      (bindParameters scope parameters arguments) fun _ => True := by
  induction parameters generalizing arguments with
  | nil => exact .pure trivial
  | cons parameter parameters ih =>
    exact .bind (Machine.declare_settles scope parameter (headD_good setting.plain all)) fun _ _ =>
      ih (tail_good all)

theorem invoke_settles {closure : Closure} {arguments : List Value} (all : ∀ value ∈ arguments, good value)
    (body : Agree good known limit eval other closure.body) :
    Run.Settles (Machine.Holds good known) limit (invoke eval closure arguments) (invoke other closure arguments)
      (Flow.All good) :=
  Machine.inChild_settles fun child =>
    .bind (bindParameters_settles setting closure.parameters all) fun _ _ => body child

theorem ask_settles {library : Library} (imported : known library) {function : String}
    (has : library.has function = true) {arguments : List Value} (all : ∀ value ∈ arguments, good value) :
    Run.Settles (Machine.Holds good known) limit (ask clock library function arguments)
      (ask clock library function arguments) (Flow.All good) := by
  unfold ask
  rw [setting.prompt library imported function has arguments]
  exact answer_settles (setting.answers library imported function arguments all)

variable (bodies : ∀ closure, good (.closure closure) → Agree good known limit eval other closure.body)

include bodies

theorem callName_settles (name : String) {arguments : List Value} (all : ∀ value ∈ arguments, good value) :
    Run.Settles (Machine.Holds good known) limit (callName clock eval scope name arguments)
      (callName clock other scope name arguments) (Flow.All good) := by
  refine .get fun machine holds => ?_
  cases found : machine.arena.resolveCall scope name with
  | error failure => exact .throw failure
  | ok callee =>
    obtain ⟨id, stands⟩ := Arena.callee_of_resolveCall found
    cases callee with
    | closure closure => exact invoke_settles setting all (bodies closure (holds.locals id _ stands))
    | library library => exact ask_settles setting (holds.libraries id _ stands.1) stands.2 all

theorem callValue_settles {receiver : Value} (target : good receiver) {arguments : List Value}
    (all : ∀ value ∈ arguments, good value) :
    Run.Settles (Machine.Holds good known) limit (callValue clock eval receiver arguments)
      (callValue clock other receiver arguments) (Flow.All good) := by
  unfold callValue
  split
  case h_1 closure => exact invoke_settles setting all (bodies closure target)
  case h_2 scope => exact callName_settles setting bodies _ all
  case h_3 => exact answer_settles (Value.send_ensures setting.plain _ .call all)

omit setting bodies in
theorem iterate_settles {body : Value} {last : Flow} (all : last.All good) {items : List Value}
    (each : ∀ item ∈ items, Run.Settles (Machine.Holds good known) limit (callValue clock eval body [item])
      (callValue clock other body [item]) (Flow.All good)) :
    Run.Settles (Machine.Holds good known) limit (iterate clock eval body last items)
      (iterate clock other body last items) (Flow.All good) := by
  induction items generalizing last with
  | nil => exact .pure all
  | cons item rest ih =>
    refine .bind (each item List.mem_cons_self) fun flow made => ?_
    cases flow with
    | stop => exact .pure all
    | nothing => exact ih all fun item member => each item (List.mem_cons_of_mem _ member)
    | value v => exact ih made fun item member => each item (List.mem_cons_of_mem _ member)

theorem send_settles {receiver : Value} (target : good receiver) (message : Message) {arguments : List Value}
    (all : ∀ value ∈ arguments, good value) :
    Run.Settles (Machine.Holds good known) limit (send clock eval receiver message arguments)
      (send clock other receiver message arguments) (Flow.All good) := by
  unfold send
  split
  case h_1 scope =>
    exact .inspect fun _ _ => .bind (Machine.lookUp_settles setting.plain scope _) fun _ given => give_settles given
  case h_2 scope =>
    exact .inspect fun _ _ => .bind (Machine.assign_settles setting.plain scope _
      (Value.argument_of_all setting.plain all 1)) fun _ given => give_settles given
  case h_3 => exact callName_settles setting bodies _ all
  case h_4 => exact callValue_settles setting bodies target all
  case h_5 place =>
    refine .inspect fun machine holds => iterate_settles .nothing fun item member => ?_
    refine callValue_settles setting bodies (headD_good setting.plain all) fun value single => ?_
    rw [List.mem_singleton.mp single]
    exact holds.memory.items place item (Array.mem_toList_iff.mp member)
  case h_6 => exact answer_settles (Value.send_ensures setting.plain _ message all)

theorem call_settles {target : Value} (receiver : good target) (name : String) {arguments : List Value}
    (all : ∀ value ∈ arguments, good value) :
    Run.Settles (Machine.Holds good known) limit (call clock eval target name arguments)
      (call clock other target name arguments) (Flow.All good) := by
  unfold call
  split
  case h_1 => exact callName_settles setting bodies name all
  case h_2 =>
    split
    case h_1 =>
      refine .bind (send_settles setting bodies receiver .isEmpty all) fun flow made =>
        withValue_settles setting made fun value given => ?_
      exact answer_settles (Value.send_ensures setting.plain value .neg (List.forall_mem_nil _))
    case h_2 => exact send_settles setting bodies receiver _ all

end Calls

def AllGood (good : Value → Prop) (values? : Option (List Value)) : Prop :=
  ∀ values, values? = some values → ∀ value ∈ values, good value

theorem AllGood.map_cons {value : Value} (given : good value) {values? : Option (List Value)}
    (all : AllGood good values?) : AllGood good (values?.map (value :: ·)) := by
  intro _ same
  obtain ⟨values, rfl, rfl⟩ := Option.map_eq_some_iff.mp same
  exact List.forall_mem_cons.mpr ⟨given, all values rfl⟩

section Parts

include setting

theorem operands_settles {rest : List Instruction} (parts : ∀ part ∈ rest, Agree good known limit eval other part) :
    Run.Settles (Machine.Holds good known) limit (operands eval scope rest) (operands other scope rest)
      (AllGood good) := by
  induction rest with
  | nil => exact .pure fun _ same => Option.some.inj same ▸ List.forall_mem_nil _
  | cons part rest ih =>
    refine .bind (parts part List.mem_cons_self scope) fun flow all => ?_
    have value := all.toValue (setting.plain _ rfl)
    cases flow with
    | stop => exact .pure fun _ same => by cases same
    | nothing | value =>
      refine .bind (ih fun part member => parts part (List.mem_cons_of_mem _ member)) fun _ others => ?_
      exact .pure (others.map_cons value)

theorem arguments_settles {parts : List Instruction}
    (each : ∀ part ∈ parts, Agree good known limit eval other part) :
    Run.Settles (Machine.Holds good known) limit (arguments eval scope parts) (arguments other scope parts)
      (AllGood good) := by
  unfold arguments
  split
  case h_1 rest =>
    refine .bind (operands_settles setting fun part member => each part (List.mem_cons_of_mem _ member))
      fun _ others => ?_
    exact .pure (others.map_cons (setting.scopes scope))
  case h_2 => exact operands_settles setting each

theorem access_settles (bodies : ∀ closure, good (.closure closure) → Agree good known limit eval other closure.body)
    (kind : Access) {parts : List Instruction} (each : ∀ part ∈ parts, Agree good known limit eval other part) :
    Run.Settles (Machine.Holds good known) limit (access clock eval kind scope parts)
      (access clock other kind scope parts) (Flow.All good) := by
  rw [access_eq, access_eq]
  refine .bind (arguments_settles setting each) fun values? all => ?_
  unfold deliver
  cases values? with
  | none => exact .pure .stop
  | some values =>
    have target := headD_good setting.plain (all values rfl)
    have rest := tail_good (all values rfl)
    cases kind with
    | get => exact send_settles setting bodies target .get rest
    | set => exact send_settles setting bodies target .set rest
    | call =>
      dsimp only
      split
      case h_1 => exact call_settles setting bodies target "" (List.forall_mem_nil _)
      case h_2 named others found =>
        rw [found] at rest
        exact .inspect fun _ _ => call_settles setting bodies target _ (List.forall_mem_cons.mp rest).2

theorem foldNumbers_settles {total : Value} (given : good total) {rest : List (String × Instruction)}
    (parts : ∀ pair ∈ rest, Agree good known limit eval other pair.2) :
    Run.Settles (Machine.Holds good known) limit (foldNumbers eval scope total rest)
      (foldNumbers other scope total rest) (Flow.All good) := by
  induction rest generalizing total with
  | nil => exact give_settles given
  | cons pair rest ih =>
    obtain ⟨operator, operand⟩ := pair
    unfold foldNumbers
    split
    · exact .throw _
    · refine valueOf_settles setting (parts _ List.mem_cons_self) fun value new => ?_
      exact .bind (.action (Value.send_ensures setting.plain total _ (List.forall_mem_singleton.mpr new)))
        fun _ made => ih made fun pair member => parts pair (List.mem_cons_of_mem _ member)

theorem foldTruth_settles (decisive : Bool) {total : Value} (given : good total)
    {rest : List (String × Instruction)} (parts : ∀ pair ∈ rest, Agree good known limit eval other pair.2) :
    Run.Settles (Machine.Holds good known) limit (foldTruth eval decisive scope total rest)
      (foldTruth other decisive scope total rest) (Flow.All good) := by
  induction rest generalizing total with
  | nil => exact give_settles given
  | cons pair rest ih =>
    obtain ⟨operator, operand⟩ := pair
    unfold foldTruth
    refine .inspect fun _ _ => ?_
    split
    · exact give_settles given
    · split
      · exact .throw _
      · refine valueOf_settles setting (parts _ List.mem_cons_self) fun value new => ?_
        exact .bind (.action (Value.send_ensures setting.plain total _ (List.forall_mem_singleton.mpr new)))
          fun _ made => ih made fun pair member => parts pair (List.mem_cons_of_mem _ member)

theorem eachMatch_settles {body : Instruction} (part : Agree good known limit eval other body) {last : Value}
    (given : good last) (views : List View) :
    Run.Settles (Machine.Holds good known) limit (eachMatch eval scope body last views)
      (eachMatch other scope body last views) (Flow.All good) := by
  induction views generalizing last with
  | nil => exact give_settles given
  | cons view rest ih =>
    exact .bind (Machine.inChild_settles part) fun _ all => withValue_settles setting all fun _ new => ih new

theorem branch_settles {test : Instruction} (part : Agree good known limit eval other test)
    {ok fail okOther failOther : Run Flow}
    (first : Run.Settles (Machine.Holds good known) limit ok okOther (Flow.All good))
    (second : Run.Settles (Machine.Holds good known) limit fail failOther (Flow.All good)) :
    Run.Settles (Machine.Holds good known) limit (branch eval test scope ok fail)
      (branch other test scope okOther failOther) (Flow.All good) := by
  refine valueOf_settles setting part fun value _ => .inspect fun _ _ => ?_
  split
  · exact first
  · exact second

/-- The rule of an instruction, if it is no literal. The closures that an instruction makes are asked for by
themselves: they may be no good values. -/
theorem step_settles (bodies : ∀ closure, good (.closure closure) → Agree good known limit eval other closure.body)
    {instruction : Instruction} (parts : ∀ part ∈ instruction.evaluated, Agree good known limit eval other part)
    (noArray : ∀ items, instruction ≠ .array items) (noObject : ∀ members, instruction ≠ .object members)
    (loop : ∀ iterator list body, instruction = .loop iterator list body → ∀ value, good value →
      Run.Settles (Machine.Holds good known) limit
        (send clock eval value .iterate [.closure ⟨[iterator], body, scope⟩])
        (send clock other value .iterate [.closure ⟨[iterator], body, scope⟩]) (Flow.All good))
    (function : ∀ name parameters body, instruction = .function name parameters body →
      good (.closure ⟨parameters, body, scope⟩)) :
    Run.Settles (Machine.Holds good known) limit (step clock eval instruction scope)
      (step clock other instruction scope) (Flow.All good) := by
  have plain := setting.plain
  cases instruction with
  | block lines => exact lines_settles .nothing parts
  | number | text | truth | translate => exact give_settles (plain _ rfl)
  | date | dateTime =>
    exact .bind (.action (.ofExcept fun _ _ => trivial)) fun _ (_ : True) => give_settles (plain _ rfl)
  | scope => exact .bind (Run.capture_settles scope) fun _ _ => give_settles (setting.scopes scope)
  | stop => exact .pure .stop
  | nest part => exact parts part List.mem_cons_self scope
  | result part =>
    cases part with
    | some part => exact parts part List.mem_cons_self scope
    | none => exact .pure .nothing
  | negation part =>
    exact valueOf_settles setting (parts part List.mem_cons_self) fun value _ =>
      answer_settles (Value.send_ensures plain value .neg (List.forall_mem_nil _))
  | choice test ok fail =>
    exact branch_settles setting (parts test (by simp [Instruction.evaluated, Instruction.parts]))
      (parts ok (by simp [Instruction.evaluated, Instruction.parts]) scope)
      (parts fail (by simp [Instruction.evaluated, Instruction.parts]) scope)
  | branch test ok fail =>
    have first := parts test List.mem_cons_self
    have second := parts ok (List.mem_cons_of_mem _ List.mem_cons_self) scope
    cases fail with
    | some fail =>
      exact branch_settles setting first second (parts fail (by simp [Instruction.evaluated, Instruction.parts]) scope)
    | none => exact branch_settles setting first second (.pure .nothing)
  -- The two evaluators run literals in different orders, so these are left to the caller.
  | array items => exact absurd rfl (noArray items)
  | object members => exact absurd rfl (noObject members)
  | fold kind first rest =>
    have operands : ∀ pair ∈ rest, Agree good known limit eval other pair.2 := fun pair member =>
      parts pair.2 (List.mem_cons_of_mem _ (List.mem_map_of_mem member))
    have first := parts first List.mem_cons_self
    cases kind with
    | arithmetic => exact valueOf_settles setting first fun _ given => foldNumbers_settles setting given operands
    | conjunction | disjunction =>
      exact valueOf_settles setting first fun _ given => foldTruth_settles setting _ given operands
  | compare left right operator =>
    refine valueOf_settles setting (parts left List.mem_cons_self) fun a _ => ?_
    refine valueOf_settles setting (parts right (List.mem_cons_of_mem _ List.mem_cons_self)) fun b given => ?_
    refine .bind (.action (Value.send_ensures plain a .compare (List.forall_mem_singleton.mpr given))) fun _ _ => ?_
    exact .bind (.action (.ofExcept fun _ _ => trivial)) fun _ (_ : True) => give_settles (plain _ rfl)
  | declaration name part =>
    exact valueOf_settles setting (parts part List.mem_cons_self) fun _ given =>
      .bind (Machine.declare_settles scope name given) fun _ new => give_settles new
  | assignment name part =>
    exact valueOf_settles setting (parts part List.mem_cons_self) fun _ given =>
      .bind (Machine.assign_settles plain scope name given) fun _ new => give_settles new
  | access kind items => exact access_settles setting bodies kind parts
  | loop iterator list body =>
    exact valueOf_settles setting (parts list List.mem_cons_self) (loop iterator list body rfl)
  | range first last =>
    refine valueOf_settles setting (parts first List.mem_cons_self) fun a _ => ?_
    refine valueOf_settles setting (parts last (List.mem_cons_of_mem _ List.mem_cons_self)) fun b _ => ?_
    refine answer_settles (.bind (.ofExcept fun items made => rangeOf_plain made) fun items numbers => ?_)
    exact Action.newArray_ensures plain fun value member => plain value (numbers value member)
  | function name parameters body =>
    exact .bind (Run.capture_settles scope) fun _ _ =>
      .bind (Machine.declare_settles scope name (function name parameters body rfl)) fun _ new => give_settles new
  | each name body =>
    exact .get fun machine _ => eachMatch_settles setting (parts body List.mem_cons_self) (plain _ rfl) _

end Parts

end Evaluator

end RuleScript
