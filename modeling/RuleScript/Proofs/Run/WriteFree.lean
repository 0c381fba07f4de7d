import RuleScript.Proofs.Instruction.Parts
import RuleScript.Proofs.Run.Moves
import RuleScript.Proofs.Run.Start
import RuleScript.Proofs.Value.Growing

/-! Programs that write nothing.

A program without assignments whose accesses get members or call names leaves the host's document as it was, and with it
every array and object once it has been made. All its calls are of names in scope: a call on another value sends it a
message whose name the program computes, and that name might be `set`.
-/

set_option autoImplicit false

namespace RuleScript

open Process

/-- An assignment, a `set`, or a call that is not of a name in the scope where it stands. -/
def Instruction.Writes : Instruction → Prop
  | assignment _ _ | access .set _ => True
  | access .call arguments => ∀ rest, arguments ≠ .scope :: rest
  | _ => False

def Instruction.WriteFree (root : Instruction) : Prop :=
  ∀ node, root.Contains node → ¬ node.Writes

theorem Instruction.writeFree_iff {instruction : Instruction} :
    instruction.WriteFree ↔ ¬ instruction.Writes ∧ ∀ part ∈ instruction.parts, part.WriteFree := by
  constructor
  · exact fun free => ⟨free instruction .self, fun part member node inside => free node (.part member inside)⟩
  · rintro ⟨own, parts⟩ node inside
    obtain rfl | ⟨part, member, inner⟩ := inside.cases_parts
    · exact own
    · exact parts part member node inner

theorem Instruction.WriteFree.part {instruction part : Instruction} (free : instruction.WriteFree)
    (member : part ∈ instruction.parts) : part.WriteFree :=
  (writeFree_iff.mp free).2 part member

def Value.WriteFree (value : Value) : Prop :=
  ∀ closure, value = .closure closure → closure.body.WriteFree

theorem Value.writeFree_of_plain (value : Value) (plain : value.handle? = none) : value.WriteFree := by
  rintro closure rfl
  cases plain

theorem Value.writeFree_scope (scope : ScopeId) : (Value.scope scope).WriteFree := by
  rintro closure ⟨⟩

theorem Value.writeFree_closure {closure : Closure} (free : closure.body.WriteFree) :
    (Value.closure closure).WriteFree := by
  rintro _ ⟨⟩
  exact free

abbrev Machine.WriteFree (machine : Machine) : Prop :=
  machine.Holds Value.WriteFree fun _ => True

def Action.WriteFree (action : Action Value) : Prop :=
  action.Grows ∧ action.Ensures Value.WriteFree Value.WriteFree

def Access.WriteFree (kind : Access) (done : List Value) : Prop :=
  kind = .get ∨ kind = .call ∧ ∃ scope rest, done = .scope scope :: rest

theorem Access.WriteFree.append {kind : Access} {done : List Value} (free : kind.WriteFree done) (value : Value) :
    kind.WriteFree (done ++ [value]) := by
  obtain get | ⟨call, scope, rest, rfl⟩ := free
  · exact .inl get
  · exact .inr ⟨call, scope, rest ++ [value], rfl⟩

def After.WriteFree : After → Prop
  | negate | compareRight .. | declare .. | rangeLast .. => True
  | assign .. => False
  | choose _ ok fail => ∀ part ∈ ok :: fail.toList, part.WriteFree
  | foldFirst _ _ rest => ∀ part ∈ rest.map Prod.snd, part.WriteFree
  | operand _ _ _ message rest => message ≠ .set ∧ ∀ part ∈ rest.map Prod.snd, part.WriteFree
  | compareLeft _ part _ | rangeFirst _ part | loop _ _ part | each _ part _ => part.WriteFree
  | argument kind _ done rest =>
    kind.WriteFree done ∧ (∀ value ∈ done, value.WriteFree) ∧ ∀ part ∈ rest, part.WriteFree

def Pending.WriteFree : Pending → Prop
  | lines _ rest => ∀ part ∈ rest, part.WriteFree
  | iterate body last rest => body.WriteFree ∧ last.All Value.WriteFree ∧ ∀ value ∈ rest, value.WriteFree
  | withValue after => after.WriteFree

/-- A process that has nothing to write, and whose values call nothing that has. -/
inductive Process.WriteFree : Process → Prop where
  | evaluating {instruction : Instruction} {scope : ScopeId} (free : instruction.WriteFree) :
    WriteFree (.evaluating instruction scope)
  | finished {outcome : Except Failure Flow} (all : ∀ flow, outcome = .ok flow → flow.All Value.WriteFree) :
    WriteFree (.finished outcome)
  | waiting {pending : Pending} {part : Process} (free : pending.WriteFree) (inner : WriteFree part) :
    WriteFree (.waiting pending part)
  | inside {scope : ScopeId} {body : Process} (inner : WriteFree body) : WriteFree (.inside scope body)
  | together {literal : Literal} {members : List Process} (each : ∀ member ∈ members, WriteFree member) :
    WriteFree (.together literal members)
  | collecting {kind : Access} {scope : ScopeId} {done : List Value} {rest : List Instruction}
      (reads : kind.WriteFree done) (all : ∀ value ∈ done, value.WriteFree) (parts : ∀ part ∈ rest, part.WriteFree) :
    WriteFree (.collecting kind scope done rest)
  | sending {receiver : Value} {message : Message} {arguments : List Value} (reads : message ≠ .set)
      (target : receiver.WriteFree) (all : ∀ value ∈ arguments, value.WriteFree) :
    WriteFree (.sending receiver message arguments)
  | naming {scope : ScopeId} {name : String} {arguments : List Value} (all : ∀ value ∈ arguments, value.WriteFree) :
    WriteFree (.naming scope name arguments)
  | calling {receiver : Value} {arguments : List Value} (target : receiver.WriteFree)
      (all : ∀ value ∈ arguments, value.WriteFree) : WriteFree (.calling receiver arguments)
  | binding {scope : ScopeId} {parameters : List String} {arguments : List Value} {body : Instruction}
      (all : ∀ value ∈ arguments, value.WriteFree) (free : body.WriteFree) :
    WriteFree (.binding scope parameters arguments body)
  | asking {count : Nat} {library : Library} {function : String} {arguments : List Value}
      (all : ∀ value ∈ arguments, value.WriteFree) : WriteFree (.asking count library function arguments)
  | visiting {scope : ScopeId} {view : View} {body : Instruction} (free : body.WriteFree) :
    WriteFree (.visiting scope view body)
  | matching {scope : ScopeId} {body : Instruction} {last : Value} {views : List View} (free : body.WriteFree)
      (soFar : last.WriteFree) : WriteFree (.matching scope body last views)
  | iterating {body : Value} {last : Flow} {items : List Value} (calls : body.WriteFree)
      (soFar : last.All Value.WriteFree) (all : ∀ value ∈ items, value.WriteFree) :
    WriteFree (.iterating body last items)
  | folding {kind : Fold} {scope : ScopeId} {total : Value} {rest : List (String × Instruction)}
      (soFar : total.WriteFree) (parts : ∀ part ∈ rest.map Prod.snd, part.WriteFree) :
    WriteFree (.folding kind scope total rest)

def Primitive.WriteFree : Primitive → Prop
  | lookUp .. => True
  | assign .. => False
  | declare _ _ value => value.WriteFree
  | act action => action.WriteFree

def Move.WriteFree : Move → Prop
  | become next | capture _ next => next.WriteFree
  | perform primitive next => primitive.WriteFree ∧ ∀ value, value.WriteFree → (next value).WriteFree
  | enter _ _ body => ∀ scope, (body scope).WriteFree
  | leave _ outcome => (Process.finished outcome).WriteFree

namespace Action.WriteFree

theorem pure {value : Value} (plain : value.handle? = none) : WriteFree (pure value) :=
  ⟨.pure value, Value.ensures_plain Value.writeFree_of_plain plain⟩

theorem map_ofExcept {α : Type} (result : Except Failure α) {make : α → Value}
    (plain : ∀ made, (make made).handle? = none) : WriteFree (do return make (← Action.ofExcept result)) :=
  ⟨.bind (.ofExcept result) fun _ => .pure _,
    .andThen (.ofExcept fun _ _ => trivial) fun made => Value.ensures_plain Value.writeFree_of_plain (plain made)⟩

theorem send {message : Message} (reads : message ≠ .set) (receiver : Value) {arguments : List Value}
    (all : ∀ value ∈ arguments, value.WriteFree) : WriteFree (receiver.send message arguments) :=
  ⟨receiver.send_grows reads arguments, Value.send_ensures Value.writeFree_of_plain receiver message all⟩

theorem answer (clock : Clock) (library : Library) (function : String) {arguments : List Value}
    (all : ∀ value ∈ arguments, value.WriteFree) :
    WriteFree (library.answer clock function arguments) :=
  ⟨library.answer_grows clock function arguments,
    Library.answer_ensures Value.writeFree_of_plain clock library function all⟩

theorem make (literal : Literal) {values : List Value} (all : ∀ value ∈ values, value.WriteFree) :
    WriteFree (literal.make values) := by
  refine ⟨?_, literal.make_ensures Value.writeFree_of_plain all⟩
  cases literal with
  | array => exact newArray_grows _
  | object => exact newObject_grows _

theorem comparison (left : Value) {right : Value} (operator : String) (free : right.WriteFree) :
    WriteFree (do
      let order ← left.compare right
      return .bool (← Action.ofExcept (relate operator order))) := by
  have reads : Message.compare ≠ .set := by decide
  have all : ∀ value ∈ [right], value.WriteFree := by simpa using free
  obtain ⟨grows, ensures⟩ := send reads left all
  refine ⟨grows.bind fun order => (map_ofExcept _ fun _ => rfl).1, ?_⟩
  exact .andThen (ensures.imp fun _ _ => trivial) fun order => (map_ofExcept _ fun _ => rfl).2

theorem range (first last : Value) : WriteFree (do Action.newArray (← Action.ofExcept (rangeOf first last))) := by
  refine ⟨.bind (.ofExcept _) fun items => newArray_grows items, ?_⟩
  refine .bind (.ofExcept fun items made => rangeOf_plain made) fun items numbers => ?_
  exact newArray_ensures Value.writeFree_of_plain fun value member =>
    Value.writeFree_of_plain value (numbers value member)

end Action.WriteFree

section Moves

variable {machine later : Machine}

theorem Primitive.WriteFree.run {primitive : Primitive} {result : Except Failure Value} (free : primitive.WriteFree)
    (holds : machine.WriteFree) (ran : primitive.run.perform machine = some (result, later)) :
    later.WriteFree ∧ machine.memory.Grows later.memory ∧ ∀ value, result = .ok value → value.WriteFree := by
  have plain := Value.writeFree_of_plain
  cases primitive with
  | lookUp scope name =>
    have step := Machine.lookUp_apply scope name machine
    split at step <;> cases (Run.perform_done step).symm.trans ran
    case h_1 owner bound =>
      refine ⟨holds, .refl _, fun value same => Except.ok.inj same ▸ ?_⟩
      cases found : Fields.get? (machine.arena.frame owner).locals name with
      | none => exact plain _ rfl
      | some value => exact holds.locals owner _ (Fields.mem_of_get? found)
    case h_2 view bound =>
      obtain ⟨all, good⟩ := View.get_all plain view name holds.memory
      exact ⟨holds.withMemory all, (view.get_gains name _).grows, fun value same => Except.ok.inj same ▸ good⟩
    case h_3 => exact ⟨holds, .refl _, fun value same => Machine.eq_empty_of_unbound same ▸ plain _ rfl⟩
  | assign => exact free.elim
  | declare scope name value =>
    have step := Machine.declare_apply scope name value machine
    split at step <;> cases (Run.perform_done step).symm.trans ran
    · exact ⟨holds, .refl _, by simp⟩
    · exact ⟨holds.write scope name free, .refl _, fun value same => Except.ok.inj same ▸ free⟩
  | act action =>
    cases (Run.perform_done (Run.action_apply action machine)).symm.trans ran
    obtain ⟨all, good⟩ := free.2 machine.memory holds.memory
    exact ⟨holds.withMemory all, free.1 machine.memory, good⟩

theorem Process.writeFree_failed (failure : Failure) : (Process.finished (.error failure)).WriteFree :=
  .finished (by simp)

theorem Process.writeFree_answer {value : Value} (free : value.WriteFree) : (answer value).WriteFree :=
  .finished fun _ same => Except.ok.inj same ▸ fun _ given => Flow.value.inj given ▸ free

theorem Process.writeFree_nothing : (Process.finished (.ok .nothing)).WriteFree :=
  .finished fun _ same => Except.ok.inj same ▸ .nothing

theorem Process.writeFree_stop : (Process.finished (.ok .stop)).WriteFree :=
  .finished fun _ same => Except.ok.inj same ▸ .stop

/-- A move that has nothing to write writes no more than variables, and leads to a process that has nothing to write. -/
theorem Move.WriteFree.apply {move : Move} {next : Process} (free : move.WriteFree) (holds : machine.WriteFree)
    (applied : move.apply machine = some (next, later)) :
    later.WriteFree ∧ machine.memory.Grows later.memory ∧ next.WriteFree := by
  cases move with
  | become =>
    cases applied
    exact ⟨holds, .refl _, free⟩
  | capture scope =>
    cases applied
    exact ⟨holds.capture scope, .refl _, free⟩
  | perform primitive after =>
    obtain ⟨⟨result, final⟩, ran, same⟩ := Option.map_eq_some_iff.mp applied
    obtain ⟨kept, grows, good⟩ := free.1.run holds ran
    cases result with
    | ok value =>
      cases same
      exact ⟨kept, grows, free.2 value (good value rfl)⟩
    | error failure =>
      cases same
      exact ⟨kept, grows, writeFree_failed failure⟩
  | enter parent view body =>
    cases applied
    exact ⟨holds.enter parent view, .refl _, .inside (free _)⟩
  | leave scope outcome =>
    cases applied
    exact ⟨holds.leave scope, .refl _, free⟩

namespace Move

theorem writeFree_act {action : Action Value} (free : action.WriteFree) : (act action).WriteFree :=
  ⟨free, fun _ => writeFree_answer⟩

theorem writeFree_invoke {closure : Closure} {arguments : List Value} (free : closure.body.WriteFree)
    (all : ∀ value ∈ arguments, value.WriteFree) : (invoke closure arguments).WriteFree :=
  fun _ => .binding all free

end Move

theorem After.writeFree_resume {after : After} {value : Value} (free : after.WriteFree) (given : value.WriteFree) :
    (after.resume value machine).WriteFree := by
  have single : ∀ other ∈ [value], other.WriteFree := by simpa using given
  cases after with
  | negate => exact Move.writeFree_act (.send (by decide) value (List.forall_mem_nil _))
  | choose scope ok fail =>
    rw [After.resume_choose]
    split
    · exact .evaluating (free ok List.mem_cons_self)
    · cases fail with
      | none => exact writeFree_nothing
      | some fail => exact .evaluating (free fail (by simp))
  | foldFirst => exact .folding given free
  | operand kind scope total message rest =>
    exact ⟨.send free.1 total single, fun sum good => .folding good free.2⟩
  | compareLeft => exact .waiting trivial (.evaluating free)
  | compareRight left operator => exact Move.writeFree_act (.comparison left operator given)
  | declare => exact ⟨given, fun _ => writeFree_answer⟩
  | assign => exact free.elim
  | argument kind scope done rest =>
    obtain ⟨reads, all, parts⟩ := free
    exact .collecting (reads.append value) (List.forall_mem_append.mpr ⟨all, single⟩) parts
  | loop scope iterator body =>
    refine .sending (by decide) given fun other member => ?_
    exact List.mem_singleton.mp member ▸ Value.writeFree_closure free
  | rangeFirst => exact .waiting trivial (.evaluating free)
  | rangeLast first => exact Move.writeFree_act (.range first value)
  | each => exact .matching free given

theorem Pending.writeFree_resume {pending : Pending} {flow : Flow} (free : pending.WriteFree)
    (given : flow.All Value.WriteFree) : (pending.resume flow machine).WriteFree := by
  have finished : (Process.finished (.ok flow)).WriteFree := .finished fun _ same => Except.ok.inj same ▸ given
  cases pending with
  | withValue after =>
    cases flow with
    | stop => exact writeFree_stop
    | nothing => exact After.writeFree_resume free (Value.writeFree_of_plain _ rfl)
    | value v => exact After.writeFree_resume free (given v rfl)
  | lines scope rest =>
    have next : ∀ {line : Instruction} {rest : List Instruction}, (∀ part ∈ line :: rest, part.WriteFree) →
        (waiting (.lines scope rest) (evaluating line scope)).WriteFree :=
      fun free => .waiting (fun part member => free part (.tail _ member)) (.evaluating (free _ (.head _)))
    cases flow <;> cases rest <;>
      first
        | exact finished
        | exact next free
  | iterate body last rest =>
    obtain ⟨calls, soFar, items⟩ := free
    cases flow with
    | stop => exact .finished fun _ same => Except.ok.inj same ▸ soFar
    | nothing => exact .iterating calls soFar items
    | value v => exact .iterating calls given items

theorem Literal.writeFree_close (literal : Literal) {outcomes : List (Except Failure Flow)}
    (each : ∀ outcome ∈ outcomes, ∀ flow, outcome = .ok flow → flow.All Value.WriteFree) :
    (literal.close outcomes).WriteFree := by
  unfold Literal.close
  split
  case h_1 => exact writeFree_failed _
  case h_2 => exact writeFree_stop
  case h_3 values collected =>
    refine Move.writeFree_act (.make literal (Evaluator.forall_collect ?_ collected))
    exact fun outcome inside flow same => (each outcome inside flow same).toValue (Value.writeFree_of_plain _ rfl)

namespace Process

variable {clock : Clock}

theorem writeFree_start {scope : ScopeId} {instruction : Instruction} (free : instruction.WriteFree) :
    (start clock scope machine instruction).WriteFree := by
  have parts : ∀ part ∈ instruction.parts, part.WriteFree := fun part => free.part
  have together : ∀ {α : Type} {members : List α} {f : α → Instruction} {literal : Literal},
      (∀ part ∈ members.map f, part.WriteFree) →
        (together literal (members.map fun member => evaluating (f member) scope)).WriteFree := by
    refine fun each => .together fun member inside => ?_
    obtain ⟨item, there, rfl⟩ := List.mem_map.mp inside
    exact .evaluating (each _ (List.mem_map_of_mem there))
  cases instruction with
  | number | text | truth | translate => exact writeFree_answer (Value.writeFree_of_plain _ rfl)
  | date | dateTime => exact Move.writeFree_act (.map_ofExcept _ fun _ => rfl)
  | scope => exact writeFree_answer (Value.writeFree_scope scope)
  | stop => exact writeFree_stop
  | block lines =>
    cases lines with
    | nil => exact writeFree_nothing
    | cons line rest =>
      exact .waiting (fun part member => parts part (.tail _ member)) (.evaluating (parts line (.head _)))
  | result part =>
    cases part with
    | none => exact writeFree_nothing
    | some part => exact .evaluating (parts part (.head _))
  | nest part => exact .evaluating (parts part (.head _))
  | negation part | declaration _ part => exact .waiting trivial (.evaluating (parts part (.head _)))
  | choice test | branch test | fold _ test =>
    exact .waiting (fun part member => parts part (.tail _ member)) (.evaluating (parts test (.head _)))
  | compare first second | range first second | loop _ first second =>
    exact .waiting (parts second (.tail _ (.head _))) (.evaluating (parts first (.head _)))
  | assignment name part => exact (free _ .self trivial).elim
  | array items => exact @together _ items id .array (by simpa [Instruction.parts] using parts)
  | object members => exact @together _ members Prod.snd _ parts
  | function name parameters body =>
    exact .waiting trivial (writeFree_answer (Value.writeFree_closure (parts body (.head _))))
  | each name body => exact .matching (parts body (.head _)) (Value.writeFree_of_plain _ rfl)
  | access kind arguments =>
    -- A call is of a name in the scope itself, which is the first of the values.
    obtain ⟨rest, rfl, same⟩ | ⟨other, same⟩ := start_access clock scope machine kind arguments <;> rw [same]
    · refine .collecting ?_ (by simpa using Value.writeFree_scope scope) fun part member => parts part (.tail _ member)
      cases kind with
      | get => exact .inl rfl
      | set => exact (free _ .self trivial).elim
      | call => exact .inr ⟨rfl, scope, [], rfl⟩
    · refine .collecting ?_ (List.forall_mem_nil _) parts
      cases kind with
      | get => exact .inl rfl
      | set => exact (free _ .self trivial).elim
      | call => exact (free _ .self other).elim

theorem writeFree_access {kind : Access} {values : List Value} (reads : kind.WriteFree values)
    (all : ∀ value ∈ values, value.WriteFree) : (access kind values machine).WriteFree := by
  obtain rfl | ⟨rfl, scope, rest, rfl⟩ := reads
  · refine .sending (by decide) ?_ fun value member => all value (List.mem_of_mem_tail member)
    cases values with
    | nil => exact Value.writeFree_of_plain _ rfl
    | cons target rest => exact all target (.head _)
  · cases rest with
    | nil => exact .naming (List.forall_mem_nil _)
    | cons named rest => exact .naming fun value member => all value (.tail _ (.tail _ member))

theorem writeFree_send (holds : machine.WriteFree) {receiver : Value} {message : Message} {arguments : List Value}
    (reads : message ≠ .set) (target : receiver.WriteFree) (all : ∀ value ∈ arguments, value.WriteFree) :
    (send receiver message arguments machine).WriteFree := by
  fun_cases send receiver message arguments machine with
  | case1 scope => exact ⟨trivial, fun _ => writeFree_answer⟩
  | case2 scope => exact absurd rfl reads
  | case3 => exact .naming all
  | case4 closure => exact Move.writeFree_invoke (target closure rfl) all
  | case5 place =>
    refine .iterating ?_ .nothing fun value member => holds.memory.items place value (by simpa using member)
    cases arguments with
    | nil => exact Value.writeFree_of_plain _ rfl
    | cons body rest => exact all body (.head _)
  | case6 => exact Move.writeFree_act (.send reads receiver all)

theorem message?_ne_set {kind : Fold} {operator : String} {message : Message}
    (found : kind.message? operator = some message) : message ≠ .set := by
  cases kind <;> simp only [Fold.message?, Message.arithmetic?, Message.logical?] at found <;>
    split at found <;> cases found <;> decide

theorem writeFree_fold {kind : Fold} {scope : ScopeId} {total : Value} {rest : List (String × Instruction)}
    (soFar : total.WriteFree) (parts : ∀ part ∈ rest.map Prod.snd, part.WriteFree) :
    (fold kind scope total machine rest).WriteFree := by
  unfold fold
  split
  · exact writeFree_answer soFar
  case h_2 operator operand rest =>
    split
    · exact writeFree_answer soFar
    · split
      · exact writeFree_failed _
      case h_2 message found =>
        refine .waiting ⟨message?_ne_set found, fun part member => parts part (.tail _ member)⟩ ?_
        exact .evaluating (parts operand (.head _))

theorem writeFree_move (holds : machine.WriteFree) {process : Process} (free : process.WriteFree) {move : Move}
    (moves : process.move clock machine = some move) : move.WriteFree := by
  cases free with
  | evaluating free =>
    cases moves
    exact writeFree_start free
  | finished => cases moves
  | waiting pendingFree inner =>
    cases inner with
    | @finished outcome all =>
      cases outcome with
      | error failure =>
        cases moves
        exact writeFree_failed failure
      | ok flow =>
        cases moves
        exact Pending.writeFree_resume pendingFree (all flow rfl)
    | _ => cases moves
  | inside inner =>
    cases inner with
    | finished all =>
      cases moves
      exact .finished all
    | _ => cases moves
  | @together literal members each =>
    obtain ⟨outcomes, ended, rfl⟩ := Option.map_eq_some_iff.mp moves
    refine literal.writeFree_close fun outcome inside => ?_
    have member : finished outcome ∈ members := members_of_outcomes ended ▸ List.mem_map_of_mem inside
    cases each _ member with
    | finished all => exact all
  | @collecting kind scope done rest reads all parts =>
    cases rest with
    | nil =>
      cases moves
      exact writeFree_access reads all
    | cons argument rest =>
      cases moves
      refine .waiting ⟨reads, all, fun part member => parts part (.tail _ member)⟩ ?_
      exact .evaluating (parts argument (.head _))
  | sending reads target all =>
    cases moves
    exact writeFree_send holds reads target all
  | @naming scope name arguments all =>
    cases reached : machine.arena.resolveCall scope name with
    | error failure =>
      simp only [Process.move, reached] at moves
      cases moves
      exact writeFree_failed failure
    | ok callee =>
      obtain ⟨id, found⟩ := Arena.callee_of_resolveCall reached
      cases callee with
      | closure closure =>
        simp only [Process.move, reached] at moves
        cases moves
        exact Move.writeFree_invoke (holds.locals id _ found closure rfl) all
      | library library =>
        simp only [Process.move, reached] at moves
        cases moves
        exact .asking all
  | @calling receiver arguments target all =>
    cases receiver with
    | closure closure =>
      cases moves
      exact Move.writeFree_invoke (target closure rfl) all
    | scope scope =>
      cases moves
      exact .naming all
    | _ =>
      cases moves
      exact Move.writeFree_act (.send (by decide) _ all)
  | @binding scope parameters arguments body all free =>
    cases parameters with
    | nil =>
      cases moves
      exact .evaluating free
    | cons parameter parameters =>
      cases moves
      refine ⟨?_, fun _ _ => .binding (fun value member => all value (List.mem_of_mem_tail member)) free⟩
      cases arguments with
      | nil => exact Value.writeFree_of_plain _ rfl
      | cons first rest => exact all first (.head _)
  | @asking count library function arguments all =>
    cases count with
    | zero =>
      cases moves
      exact Move.writeFree_act (.answer clock library function all)
    | succ count =>
      cases moves
      exact .asking all
  | visiting free =>
    cases moves
    exact fun _ => .evaluating free
  | @matching scope body last views free soFar =>
    cases views with
    | nil =>
      cases moves
      exact writeFree_answer soFar
    | cons view rest =>
      cases moves
      exact .waiting free (.visiting free)
  | @iterating body last items calls soFar all =>
    cases items with
    | nil =>
      cases moves
      exact .finished fun _ same => Except.ok.inj same ▸ soFar
    | cons item rest =>
      cases moves
      refine .waiting ⟨calls, soFar, fun value member => all value (.tail _ member)⟩ (.calling calls ?_)
      exact fun value member => List.mem_singleton.mp member ▸ all item (.head _)
  | folding soFar parts =>
    cases moves
    exact writeFree_fold soFar parts

theorem Step.writeFree {admits : Process → Machine → Prop} {process next : Process}
    (step : Step clock admits process machine next later) (holds : machine.WriteFree) (free : process.WriteFree) :
    later.WriteFree ∧ machine.memory.Grows later.memory ∧ next.WriteFree := by
  induction step with
  | move admitted moves =>
    obtain ⟨move, made, applied⟩ := Option.bind_eq_some_iff.mp moves
    exact (writeFree_move holds free made).apply holds applied
  | waiting step ih =>
    cases free with
    | waiting pendingFree inner =>
      obtain ⟨kept, grows, next⟩ := ih holds inner
      exact ⟨kept, grows, .waiting pendingFree next⟩
  | inside step ih =>
    cases free with
    | inside inner =>
      obtain ⟨kept, grows, next⟩ := ih holds inner
      exact ⟨kept, grows, .inside next⟩
  | @member literal before behind member next machine later step ih =>
    cases free with
    | together each =>
      obtain ⟨kept, grows, free⟩ := ih holds (each member List.mem_append_cons_self)
      exact ⟨kept, grows, .together (Process.forall_mem_moved each (fun _ => id) free)⟩

theorem Steps.writeFree {admits : Process → Machine → Prop} {first last : Process × Machine}
    (steps : Steps clock admits first last) (holds : first.2.WriteFree) (free : first.1.WriteFree) :
    last.2.WriteFree ∧ first.2.memory.Grows last.2.memory ∧ last.1.WriteFree := by
  induction steps with
  | refl => exact ⟨holds, .refl _, free⟩
  | tail before step ih =>
    obtain ⟨kept, grows, free⟩ := ih
    obtain ⟨later, more, next⟩ := step.writeFree kept free
    exact ⟨later, grows.trans more, next⟩

end Process

end Moves

def Run.KeepsMemory {α : Type} (run : Run α) : Prop :=
  ∀ machine result later, run.perform machine = some (result, later) → later.memory = machine.memory

namespace Run.KeepsMemory

variable {α β : Type}

theorem pure (result : α) : KeepsMemory (pure result) := by
  rintro machine _ _ ⟨⟩
  rfl

theorem scopes (change : Arena → α × Arena) : KeepsMemory (Run.scopes change) := by
  rintro machine _ _ ⟨⟩
  rfl

theorem bind {run : Run α} {next : α → Run β} (first : run.KeepsMemory) (rest : ∀ result, (next result).KeepsMemory) :
    KeepsMemory (run >>= next) := by
  intro machine result later ran
  rw [perform_bind] at ran
  obtain ⟨⟨outcome, between⟩, early, late⟩ := Option.bind_eq_some_iff.mp ran
  have same := first machine outcome between early
  cases outcome with
  | error failure =>
    cases late
    exact same
  | ok value => exact (rest value between result later late).trans same

theorem declare (scope : ScopeId) (name : String) (value : Value) : (Machine.declare scope name value).KeepsMemory := by
  intro machine result later ran
  have step := Machine.declare_apply scope name value machine
  split at step <;> cases (perform_done step).symm.trans ran <;> rfl

theorem bindParameters (scope : ScopeId) (parameters : List String) (arguments : List Value) :
    (Evaluator.bindParameters scope parameters arguments).KeepsMemory := by
  induction parameters generalizing arguments with
  | nil => exact pure ()
  | cons parameter parameters ih => exact (declare scope parameter _).bind fun _ => ih _

theorem function (clock : Clock) (depth : Nat) (name : String) (parameters : List String) (body : Instruction)
    (scope : ScopeId) : (evaluate clock depth (.function name parameters body) scope).KeepsMemory := by
  cases depth with
  | zero => rintro machine _ _ ⟨⟩
  | succ depth => exact (scopes _).bind fun _ => (declare scope name _).bind fun _ => pure _

end Run.KeepsMemory

theorem evaluate_declaration_memory {clock : Clock} {depth : Nat} {name : String} {part : Instruction} {scope : ScopeId}
    {machine later : Machine} {outcome : Except Failure Flow}
    (ends : (evaluate clock (depth + 1) (.declaration name part) scope).perform machine = some (outcome, later)) :
    ∃ result between, (evaluate clock depth part scope).perform machine = some (result, between) ∧
      later.memory = between.memory := by
  change (evaluate clock depth part scope >>= fun flow => flow.withValue fun value => do
    return .value (← Machine.declare scope name value)).perform machine = _ at ends
  rw [Run.perform_bind] at ends
  obtain ⟨⟨result, between⟩, early, late⟩ := Option.bind_eq_some_iff.mp ends
  refine ⟨result, between, early, ?_⟩
  have declares : ∀ value, Run.KeepsMemory (do return .value (← Machine.declare scope name value) : Run Flow) :=
    fun value => (Run.KeepsMemory.declare scope name value).bind fun _ => .pure _
  cases result with
  | error failure =>
    cases late
    rfl
  | ok flow =>
    cases flow with
    | stop => exact Run.KeepsMemory.pure _ _ _ _ late
    | nothing | value => exact declares _ _ _ _ late

/-! ## Whole runs -/

namespace Program

variable {program : Program} {document : Json}

/-- The states of a run of a program on a document. -/
def Visits (program : Program) (document : Json) (state : Process × Machine) : Prop :=
  Process.Steps program.clock anyMove
    (.evaluating program.root (program.start (.ofDocument document)).1, (program.start (.ofDocument document)).2) state

theorem start_writeFree (program : Program) (document : Json) :
    (program.start (.ofDocument document)).2.WriteFree :=
  start_holds (fun _ _ => trivial) trivial (.ofDocument document)

theorem document_of_grows {memory : Memory} (grows : (Memory.ofDocument document).Grows memory) :
    memory.document 0 = document :=
  (Cell.node.inj (Memory.node_of_cell (grows (.document 0) (.node document) rfl))).symm

/-- A program that has nothing to write leaves the document as it was, however its run ends. All along the run the
document is what it was, and no array, object or document changes once it is there. Whatever a program may write,
declaring a variable, a parameter or a function is no write: it leaves memory as it was, also where a key of the
document has the same name. -/
theorem writes_nothing (free : program.root.WriteFree) :
    (∀ result memory, program.run (.ofDocument document) = some (result, memory) → memory.document 0 = document) ∧
    (∀ state, program.Visits document state → state.2.memory.document 0 = document ∧
      ∀ later, Process.Steps program.clock anyMove state later → state.2.memory.Grows later.2.memory) ∧
    (∀ clock depth name part scope machine outcome later,
      (evaluate clock (depth + 1) (.declaration name part) scope).perform machine = some (outcome, later) →
      ∃ result between, (evaluate clock depth part scope).perform machine = some (result, between) ∧
        later.memory = between.memory) ∧
    (∀ clock depth name parameters body scope,
      (evaluate clock depth (.function name parameters body) scope).KeepsMemory) ∧
    ∀ scope parameters arguments, (Evaluator.bindParameters scope parameters arguments).KeepsMemory := by
  -- What holds of all steps holds of the polled run, which takes some of them.
  have visits : ∀ state, program.Visits document state → state.2.memory.document 0 = document ∧
      ∀ later, Process.Steps program.clock anyMove state later → state.2.memory.Grows later.2.memory := by
    intro state steps
    obtain ⟨holds, grows, still⟩ := steps.writeFree (start_writeFree program document) (.evaluating free)
    exact ⟨document_of_grows grows, fun later more => (more.writeFree holds still).2.1⟩
  refine ⟨fun result memory ran => ?_, visits, fun _ _ _ _ _ _ _ _ => evaluate_declaration_memory,
    Run.KeepsMemory.function, Run.KeepsMemory.bindParameters⟩
  obtain ⟨⟨outcome, machine⟩, ends, same⟩ := Option.map_eq_some_iff.mp ran
  cases same
  exact (visits _ (evaluate_steps ends)).1

/-- The function `k` has the name of a key of the document. It is called in a loop, and the document stays as it is. -/
theorem writes_nothing_shadowing :
    let root : Instruction := .block [
      .declaration "seen" (.access .get [.scope, .text "k"]),
      .function "k" ["seen"] (.array [.access .get [.scope, .text "seen"]]),
      .loop "i" (.array [.truth true, .truth false])
        (.access .call [.scope, .text "k", .access .get [.scope, .text "i"]]),
      .access .call [.scope, .text "echo", .text "done"]]
    let echo : Library := .table "host" [("echo", .answer (.native (.array [.bool true])))]
    let program : Program := ⟨root, ⟨"2024-01-01", none⟩, [echo]⟩
    let document : Json := .object [("k", .string "v")]
    ∃ result memory, program.run (.ofDocument document) = some (result, memory) ∧ memory.arrays.size = 4 ∧
      memory.document 0 = document := by
  intro root echo program document
  have free : root.WriteFree := by
    change Instruction.WriteFree (.block _)
    repeat' first
      | exact List.forall_mem_nil _
      | refine List.forall_mem_cons.mpr ⟨?_, ?_⟩
      | refine Instruction.writeFree_iff.mpr ⟨by simp [Instruction.Writes], ?_⟩
  have ran : (program.run (.ofDocument document)).map (fun ended => ended.2.arrays.size) = some 4 := by decide +kernel
  obtain ⟨⟨result, memory⟩, ends, size⟩ := Option.map_eq_some_iff.mp ran
  exact ⟨result, memory, ends, size, (writes_nothing free).1 result memory ends⟩

end Program

end RuleScript
