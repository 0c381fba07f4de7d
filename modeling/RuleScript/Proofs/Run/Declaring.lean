import RuleScript.Proofs.Instruction.Parts
import RuleScript.Proofs.Run.Balance
import RuleScript.Proofs.Scope.Chain

/-! Declarations stay local.

An evaluation declares variables in its own scope, those of its instruction, and in scopes that it makes itself. What
is declared in the course of a call, of a loop or of a match never comes to a scope that was there before.
-/

set_option autoImplicit false

namespace RuleScript

open Process

namespace Instruction

/-- The parts that run in the scope of an instruction. The bodies of loops, functions and matches have their own. -/
def ownParts : Instruction → List Instruction
  | loop _ list _ => [list]
  | function _ _ _ | each _ _ => []
  | instruction => instruction.parts

/-- A name that an instruction declares, other than in the body of a loop, a function or a match. -/
inductive DeclaresHere : Instruction → String → Prop where
  | declaration {name : String} {value : Instruction} : DeclaresHere (.declaration name value) name
  | function {name : String} {parameters : List String} {body : Instruction} :
    DeclaresHere (.function name parameters body) name
  | part {instruction part : Instruction} {name : String} (member : part ∈ instruction.ownParts)
      (declares : DeclaresHere part name) : DeclaresHere instruction name

theorem declares_in_turn {owner scope : ScopeId} {name : String} {first : Instruction} {rest : List Instruction}
    (declares : (owner = scope ∧ ∃ part ∈ rest, part.DeclaresHere name) ∨ owner = scope ∧ first.DeclaresHere name) :
    owner = scope ∧ ∃ part ∈ first :: rest, part.DeclaresHere name := by
  obtain ⟨here, part, member, later⟩ | ⟨here, now⟩ := declares
  · exact ⟨here, part, .tail _ member, later⟩
  · exact ⟨here, first, .head _, now⟩

end Instruction

def After.Declares (owner : ScopeId) (name : String) : After → Prop
  | choose scope ok fail => owner = scope ∧ ∃ part ∈ ok :: fail.toList, part.DeclaresHere name
  | foldFirst _ scope rest | operand _ scope _ _ rest =>
    owner = scope ∧ ∃ part ∈ rest.map Prod.snd, part.DeclaresHere name
  | compareLeft scope part _ | rangeFirst scope part => owner = scope ∧ part.DeclaresHere name
  | declare scope declared => owner = scope ∧ name = declared
  | argument _ scope _ rest => owner = scope ∧ ∃ part ∈ rest, part.DeclaresHere name
  | negate | compareRight .. | assign .. | loop .. | rangeLast .. | each .. => False

def Pending.Declares (owner : ScopeId) (name : String) : Pending → Prop
  | lines scope rest => owner = scope ∧ ∃ part ∈ rest, part.DeclaresHere name
  | iterate .. => False
  | withValue after => after.Declares owner name

def Primitive.Declares (owner : ScopeId) (name : String) : Primitive → Prop
  | declare scope declared _ => owner = scope ∧ name = declared
  | lookUp .. | assign .. | act .. => False

namespace Process

mutual

/-- A process may come to declare a name in a scope. What it makes scopes for declares nothing elsewhere. -/
def Declares (owner : ScopeId) (name : String) : Process → Prop
  | evaluating instruction scope => owner = scope ∧ instruction.DeclaresHere name
  | waiting pending part => pending.Declares owner name ∨ part.Declares owner name
  | inside scope body => owner ≠ scope ∧ body.Declares owner name
  | together _ members => DeclaresAny owner name members
  | collecting _ scope _ rest => owner = scope ∧ ∃ part ∈ rest, part.DeclaresHere name
  | binding scope parameters _ body => owner = scope ∧ (name ∈ parameters ∨ body.DeclaresHere name)
  | folding _ scope _ rest => owner = scope ∧ ∃ part ∈ rest.map Prod.snd, part.DeclaresHere name
  | _ => False

def DeclaresAny (owner : ScopeId) (name : String) : List Process → Prop
  | [] => False
  | member :: rest => member.Declares owner name ∨ DeclaresAny owner name rest

end

variable {owner : ScopeId} {name : String}

theorem declaresAny_iff {members : List Process} :
    DeclaresAny owner name members ↔ ∃ member ∈ members, member.Declares owner name := by
  induction members with
  | nil => simp [DeclaresAny]
  | cons first rest ih => simp [DeclaresAny, ih]

theorem declaresAny_append {left right : List Process} :
    DeclaresAny owner name (left ++ right) ↔ DeclaresAny owner name left ∨ DeclaresAny owner name right := by
  simp [declaresAny_iff, or_and_right, exists_or]

theorem not_declares_answer (value : Value) : ¬ (answer value).Declares owner name :=
  id

end Process

def Move.Declares (owner : ScopeId) (name : String) : Move → Prop
  | become next | capture _ next => next.Declares owner name
  | perform primitive next => primitive.Declares owner name ∨ ∃ value, (next value).Declares owner name
  | enter _ _ body => ∃ scope, owner ≠ scope ∧ (body scope).Declares owner name
  | leave .. => False

namespace Move

variable {owner : ScopeId} {name : String}

theorem not_declares_act (action : Action Value) : ¬ (act action).Declares owner name := by
  rintro (now | ⟨value, later⟩)
  · exact now
  · exact not_declares_answer value later

/-- A call declares parameters, and what its body does, in the scope that is made for it. -/
theorem not_declares_invoke (closure : Closure) (arguments : List Value) :
    ¬ (invoke closure arguments).Declares owner name :=
  fun ⟨_, apart, same, _⟩ => apart same

theorem not_declares_dispatch (target : Value) (called : String) (arguments : List Value) :
    ¬ (dispatch target called arguments).Declares owner name := by
  unfold dispatch
  split
  · exact id
  · split
    · rintro (later | now)
      · exact later
      · exact now
    · exact id

theorem declares_of_apply {move : Move} {next : Process} {machine later : Machine}
    (applied : move.apply machine = some (next, later)) (declares : next.Declares owner name) :
    move.Declares owner name := by
  cases move with
  | become | capture =>
    cases applied
    exact declares
  | perform primitive after =>
    obtain ⟨⟨result, final⟩, -, same⟩ := Option.map_eq_some_iff.mp applied
    cases result with
    | ok value =>
      cases same
      exact .inr ⟨value, declares⟩
    | error failure =>
      cases same
      exact declares.elim
  | enter parent view body =>
    cases applied
    exact ⟨_, declares⟩
  | leave =>
    cases applied
    exact declares.elim

end Move

variable {owner : ScopeId} {name : String} {machine : Machine}

theorem After.declares_of_resume {after : After} {value : Value}
    (declares : (after.resume value machine).Declares owner name) : after.Declares owner name := by
  cases after with
  | negate | compareRight | rangeLast => exact (Move.not_declares_act _ declares).elim
  | choose scope ok fail =>
    rw [After.resume_choose] at declares
    split at declares
    · exact ⟨declares.1, ok, List.mem_cons_self, declares.2⟩
    · cases fail with
      | none => exact declares.elim
      | some fail => exact ⟨declares.1, fail, by simp, declares.2⟩
  | foldFirst => exact declares
  | operand => exact declares.elim False.elim fun ⟨_, later⟩ => later
  | compareLeft | rangeFirst => exact declares.resolve_left id
  | declare => exact declares.resolve_right fun ⟨value, later⟩ => not_declares_answer value later
  | assign => exact declares.elim id fun ⟨value, later⟩ => not_declares_answer value later
  | argument => exact declares
  | loop | each => exact declares

theorem Pending.declares_of_resume {pending : Pending} {flow : Flow}
    (declares : (pending.resume flow machine).Declares owner name) : pending.Declares owner name := by
  cases pending with
  | withValue after =>
    cases flow with
    | stop => exact declares.elim
    | nothing | value => exact after.declares_of_resume declares
  | iterate body last rest => cases flow <;> exact declares.elim
  | lines scope rest =>
    cases flow <;> cases rest <;>
      first
        | exact declares.elim
        | exact Instruction.declares_in_turn declares

theorem Literal.not_declares_close (literal : Literal) (outcomes : List (Except Failure Flow)) :
    ¬ (literal.close outcomes).Declares owner name := by
  unfold Literal.close
  split
  · exact id
  · exact id
  · exact Move.not_declares_act _

namespace Process

variable {clock : Clock}

theorem declares_of_start {scope : ScopeId} {instruction : Instruction}
    (declares : (start clock scope machine instruction).Declares owner name) :
    owner = scope ∧ instruction.DeclaresHere name := by
  have members : ∀ {α : Type} (items : List α) (f : α → Instruction),
      DeclaresAny owner name (items.map fun item => evaluating (f item) scope) →
        owner = scope ∧ ∃ part ∈ items.map f, part.DeclaresHere name := by
    intro α items f any
    obtain ⟨_, inside, later⟩ := declaresAny_iff.mp any
    obtain ⟨item, member, rfl⟩ := List.mem_map.mp inside
    exact ⟨later.1, f item, List.mem_map_of_mem member, later.2⟩
  -- Each name stands in a part, but for the one that the instruction itself declares.
  have among : (owner = scope ∧ ∃ part ∈ instruction.ownParts, part.DeclaresHere name) →
      owner = scope ∧ instruction.DeclaresHere name :=
    fun ⟨here, part, member, later⟩ => ⟨here, .part member later⟩
  have waits : ∀ {pending : Pending} {part : Instruction}, part ∈ instruction.ownParts →
      (waiting pending (evaluating part scope)).Declares owner name →
      (pending.Declares owner name → owner = scope ∧ instruction.DeclaresHere name) →
        owner = scope ∧ instruction.DeclaresHere name :=
    fun first declares rest => declares.elim rest fun ⟨here, now⟩ => among ⟨here, _, first, now⟩
  cases instruction with
  | number | text | truth | translate | stop | scope | each => exact declares.elim
  | date | dateTime => exact (Move.not_declares_act _ declares).elim
  | block lines =>
    cases lines with
    | nil => exact declares.elim
    | cons line rest => exact among (Instruction.declares_in_turn declares)
  | result part =>
    cases part with
    | none => exact declares.elim
    | some part => exact among ⟨declares.1, part, .head _, declares.2⟩
  | nest part => exact among ⟨declares.1, part, .head _, declares.2⟩
  | negation part | assignment _ part | loop _ part => exact waits (.head _) declares False.elim
  | choice | branch | fold => exact among (Instruction.declares_in_turn declares)
  | compare left right | range left right =>
    exact waits (.head _) declares fun ⟨here, later⟩ => among ⟨here, right, .tail _ (.head _), later⟩
  | declaration declared part =>
    refine waits (.head _) declares ?_
    rintro ⟨here, rfl⟩
    exact ⟨here, .declaration⟩
  | function =>
    obtain ⟨here, rfl⟩ := declares.resolve_right (not_declares_answer _)
    exact ⟨here, .function⟩
  | array items =>
    obtain ⟨here, part, member, later⟩ := members items id declares
    exact among ⟨here, part, List.map_id items ▸ member, later⟩
  | object pairs => exact among (members pairs Prod.snd declares)
  | access kind arguments =>
    obtain ⟨rest, rfl, same⟩ | ⟨-, same⟩ := start_access clock scope machine kind arguments <;> rw [same] at declares
    · obtain ⟨here, part, member, later⟩ := declares
      exact among ⟨here, part, .tail _ member, later⟩
    · exact among declares

theorem not_declares_access (kind : Access) (values : List Value) :
    ¬ (access kind values machine).Declares owner name := by
  unfold access
  dsimp only
  split
  · exact id
  · exact id
  · split <;> exact Move.not_declares_dispatch _ _ _

theorem not_declares_send (receiver : Value) (message : Message) (arguments : List Value) :
    ¬ (send receiver message arguments machine).Declares owner name := by
  have answers : ¬ ∃ value, (answer value).Declares owner name :=
    fun ⟨value, later⟩ => not_declares_answer value later
  fun_cases send receiver message arguments machine
  case case1 | case2 => exact fun declares => declares.elim id answers
  case case3 | case5 => exact id
  case case4 => exact Move.not_declares_invoke _ _
  case case6 => exact Move.not_declares_act _

theorem declares_of_fold {kind : Fold} {scope : ScopeId} {total : Value} {rest : List (String × Instruction)}
    (declares : (fold kind scope total machine rest).Declares owner name) :
    owner = scope ∧ ∃ part ∈ rest.map Prod.snd, part.DeclaresHere name := by
  unfold fold at declares
  split at declares
  · exact declares.elim
  case h_2 operator operand rest =>
    split at declares
    · exact declares.elim
    · split at declares
      · exact declares.elim
      · exact Instruction.declares_in_turn declares

/-- No move declares more than its process. -/
theorem declares_of_move {process : Process} {move : Move} (moves : process.move clock machine = some move)
    (declares : move.Declares owner name) : process.Declares owner name := by
  cases process with
  | evaluating =>
    cases moves
    exact declares_of_start declares
  | finished => cases moves
  | waiting pending part =>
    cases part with
    | finished outcome =>
      cases outcome with
      | error failure =>
        cases moves
        exact declares.elim
      | ok flow =>
        cases moves
        exact .inl (pending.declares_of_resume declares)
    | _ => cases moves
  | inside scope body =>
    cases body with
    | finished outcome =>
      cases moves
      exact declares.elim
    | _ => cases moves
  | together literal members =>
    obtain ⟨outcomes, -, rfl⟩ := Option.map_eq_some_iff.mp moves
    exact (literal.not_declares_close outcomes declares).elim
  | collecting kind scope done rest =>
    cases rest with
    | nil =>
      cases moves
      exact (not_declares_access kind done declares).elim
    | cons argument rest =>
      cases moves
      exact Instruction.declares_in_turn declares
  | sending receiver message arguments =>
    cases moves
    exact not_declares_send receiver message arguments declares
  | naming scope name arguments =>
    cases reached : machine.arena.resolveCall scope name with
    | error failure =>
      simp only [Process.move, reached] at moves
      cases moves
      exact declares.elim
    | ok callee =>
      cases callee <;> simp only [Process.move, reached] at moves <;> cases moves
      · exact Move.not_declares_invoke _ _ declares
      · exact declares.elim
  | calling receiver arguments =>
    cases receiver <;> cases moves <;>
      first
        | exact Move.not_declares_invoke _ _ declares
        | exact Move.not_declares_act _ declares
        | exact declares.elim
  | binding scope parameters arguments body =>
    cases parameters with
    | nil =>
      cases moves
      exact ⟨declares.1, .inr declares.2⟩
    | cons parameter parameters =>
      cases moves
      rcases declares with ⟨here, rfl⟩ | ⟨-, here, later | later⟩
      · exact ⟨here, .inl (.head _)⟩
      · exact ⟨here, .inl (.tail _ later)⟩
      · exact ⟨here, .inr later⟩
  | asking count library function arguments =>
    cases count with
    | zero =>
      cases moves
      exact Move.not_declares_act _ declares
    | succ count =>
      cases moves
      exact declares
  | visiting scope view body =>
    -- The body of a match runs in the scope that is made for it.
    cases moves
    obtain ⟨_, apart, same, -⟩ := declares
    exact apart same
  | matching scope body last views =>
    cases views with
    | nil =>
      cases moves
      exact declares
    | cons view rest =>
      cases moves
      exact declares.elim id id
  | iterating body last items =>
    cases items with
    | nil =>
      cases moves
      exact declares
    | cons item rest =>
      cases moves
      exact declares.elim id id
  | folding =>
    cases moves
    exact declares_of_fold declares

theorem Step.declares {admits : Process → Machine → Prop} {process next : Process} {later : Machine}
    (step : Step clock admits process machine next later) (declares : next.Declares owner name) :
    process.Declares owner name := by
  induction step with
  | move admitted moves =>
    obtain ⟨move, made, applied⟩ := Option.bind_eq_some_iff.mp moves
    exact declares_of_move made (Move.declares_of_apply applied declares)
  | waiting step ih => exact declares.imp_right ih
  | inside step ih => exact declares.imp_right ih
  | member step ih =>
    refine declaresAny_append.mpr ((declaresAny_append.mp declares).imp_right ?_)
    exact Or.imp_left ih

end Process

def Frame.names (frame : Frame) : List String :=
  frame.locals.map Prod.fst

def Frame.Adds (may : String → Prop) (before after : Frame) : Prop :=
  ∃ added, after.names = before.names ++ added ∧ ∀ name ∈ added, may name

namespace Frame.Adds

variable {may might : String → Prop} {before between after : Frame}

theorem of_locals_eq (same : after.locals = before.locals) : Frame.Adds may before after :=
  ⟨[], by simp [Frame.names, same], List.forall_mem_nil _⟩

theorem mono (adds : Frame.Adds may before after) (imp : ∀ name, may name → might name) :
    Frame.Adds might before after :=
  adds.imp fun _ ⟨names, each⟩ => ⟨names, fun name member => imp name (each name member)⟩

theorem trans (first : Frame.Adds may before between) (second : Frame.Adds may between after) :
    Frame.Adds may before after := by
  obtain ⟨some, names, each⟩ := first
  obtain ⟨more, later, others⟩ := second
  refine ⟨some ++ more, by rw [later, names, List.append_assoc], fun name member => ?_⟩
  exact (List.mem_append.mp member).elim (each name) (others name)

theorem names_eq (adds : Frame.Adds may before after) (none : ∀ name, ¬ may name) : after.names = before.names := by
  obtain ⟨added, names, each⟩ := adds
  have nothing : added = [] := List.eq_nil_iff_forall_not_mem.mpr fun name member => none name (each name member)
  rw [names, nothing, List.append_nil]

theorem write_of_present {name : String} (value : Value) {frame : Frame}
    (present : Fields.contains frame.locals name = true) : Frame.Adds may frame (frame.write name value) :=
  ⟨[], by simp [Frame.names, Frame.write, Fields.keys_put, present], List.forall_mem_nil _⟩

theorem write {name : String} (value : Value) (frame : Frame) (new : may name) :
    Frame.Adds may frame (frame.write name value) := by
  by_cases present : Fields.contains frame.locals name = true
  · exact write_of_present value present
  · refine ⟨[name], ?_, fun _ member => List.mem_singleton.mp member ▸ new⟩
    simp [Frame.names, Frame.write, Fields.keys_put, present]

theorem modifyFrame {arena : Arena} {owner scope : ScopeId} {name : String} {value : Value}
    (here : owner = scope → Frame.Adds may (arena.frame owner) ((arena.frame owner).write name value)) :
    Frame.Adds may (arena.frame owner) ((arena.modifyFrame scope (Frame.write name value)).frame owner) := by
  by_cases same : owner = scope
  · rcases @Arena.frame_modifyFrame_cases arena scope owner (Frame.write name value) with kept | changed
    · exact .of_locals_eq (congrArg Frame.locals kept)
    · exact changed ▸ here same
  · exact .of_locals_eq (congrArg Frame.locals (Arena.frame_modifyFrame_of_ne _ same))

end Frame.Adds

variable {machine later : Machine} {owner : ScopeId}

/-- An assignment overwrites a variable that is there, and only a declaration makes one. -/
theorem Primitive.adds {primitive : Primitive} {result : Except Failure Value}
    (ran : primitive.run.perform machine = some (result, later)) :
    Frame.Adds (primitive.Declares owner) (machine.arena.frame owner) (later.arena.frame owner) := by
  cases primitive with
  | lookUp scope name =>
    have step := Machine.lookUp_apply scope name machine
    split at step <;> cases (Run.perform_done step).symm.trans ran <;> exact .of_locals_eq rfl
  | assign scope name value =>
    have step := Machine.assign_apply scope name value machine
    split at step <;> cases (Run.perform_done step).symm.trans ran
    case h_1 target found =>
      -- The nearest binding is a variable that the scope has already.
      refine .modifyFrame fun same => .write_of_present value ?_
      exact same ▸ (Arena.mem_chain_of_binding? found).2
    all_goals exact .of_locals_eq rfl
  | declare scope name value =>
    have step := Machine.declare_apply scope name value machine
    split at step <;> cases (Run.perform_done step).symm.trans ran
    · exact .of_locals_eq rfl
    · exact .modifyFrame fun same => .write value _ ⟨same, rfl⟩
  | act action =>
    cases (Run.perform_done (Run.action_apply action machine)).symm.trans ran
    exact .of_locals_eq rfl

theorem Move.adds {move : Move} {next : Process} (applied : move.apply machine = some (next, later))
    (live : machine.arena.Live owner) (stays : ∀ scope outcome, move = .leave scope outcome → owner ≠ scope) :
    Frame.Adds (move.Declares owner) (machine.arena.frame owner) (later.arena.frame owner) := by
  cases move with
  | become =>
    cases applied
    exact .of_locals_eq rfl
  | capture scope =>
    cases applied
    exact .of_locals_eq (by rw [Arena.capture_eq, Arena.locals_captureAll])
  | perform primitive after =>
    obtain ⟨⟨result, final⟩, ran, same⟩ := Option.map_eq_some_iff.mp applied
    have adds : Frame.Adds ((perform primitive after).Declares owner) (machine.arena.frame owner)
        (final.arena.frame owner) := (Primitive.adds ran).mono fun _ => Or.inl
    cases result <;> cases same <;> exact adds
  | enter parent view body =>
    cases applied
    exact .of_locals_eq (congrArg Frame.locals (Arena.frame_add_of_live _ live))
  | leave scope outcome =>
    cases applied
    exact .of_locals_eq (congrArg Frame.locals (Arena.frame_release_of_ne (stays scope outcome rfl)))

namespace Process

variable {clock : Clock} {admits : Process → Machine → Prop}

/-- A step adds to a scope that the process does not own only what the process declares there. -/
theorem Step.adds {process next : Process} (step : Step clock admits process machine next later)
    (live : machine.arena.Live owner) (foreign : owner ∉ process.owned) :
    Frame.Adds (process.Declares owner) (machine.arena.frame owner) (later.arena.frame owner) := by
  induction step with
  | move admitted moves =>
    obtain ⟨move, made, applied⟩ := Option.bind_eq_some_iff.mp moves
    refine (Move.adds applied live ?_).mono fun name => declares_of_move made
    rintro scope outcome rfl same
    obtain ⟨-, plain⟩ | ⟨_, _, one, ⟨⟩⟩ := owned_of_move made
    · exact plain
    · exact foreign (by simp [one, same])
  | waiting step ih => exact (ih live foreign).mono fun _ => Or.inr
  | inside step ih =>
    rw [owned, List.mem_cons, not_or] at foreign
    exact (ih live foreign.2).mono fun _ declares => ⟨foreign.1, declares⟩
  | @member literal before behind member next machine later step ih =>
    have inside : member ∈ before ++ member :: behind := List.mem_append_right before (.head _)
    refine (ih live fun member => foreign (mem_ownedAll.mpr ⟨_, inside, member⟩)).mono fun _ declares => ?_
    exact declaresAny_iff.mpr ⟨_, inside, declares⟩

/-- In the course of a run a scope that was there gets what the first process declares in it, and nothing else. -/
theorem Steps.adds {first last : Process × Machine} {base : Arena} (steps : Steps clock admits first last)
    (balanced : Balanced base first.1.owned first.2.arena) (live : base.Live owner) :
    Frame.Adds (first.1.Declares owner) (first.2.arena.frame owner) (last.2.arena.frame owner) ∧
      ∀ name, last.1.Declares owner name → first.1.Declares owner name := by
  induction steps with
  | refl => exact ⟨.of_locals_eq rfl, fun _ => id⟩
  | tail before step ih =>
    obtain ⟨adds, still⟩ := ih
    have now := balanced.steps before
    have foreign : owner ∉ _ := fun member => now.new owner member live
    exact ⟨adds.trans ((step.adds (now.kept owner live).1 foreign).mono still),
      fun name declares => still name (step.declares declares)⟩

end Process

/-- However an evaluation ends, all scopes that were there have the variables that they had, in the same order. Only
its own scope has more, and those are declared by the instruction outside all bodies of loops, functions and matches. -/
theorem evaluate_declares_locally {clock : Clock} {depth : Nat} {instruction : Instruction} {scope : ScopeId}
    {outcome : Except Failure Flow} (reachable : machine.Reachable) (live : machine.arena.Live scope)
    (ends : (evaluate clock depth instruction scope).perform machine = some (outcome, later)) :
    (∀ id, machine.arena.Live id → id ≠ scope →
      (later.arena.frame id).names = (machine.arena.frame id).names) ∧
    ∃ added, (later.arena.frame scope).names = (machine.arena.frame scope).names ++ added ∧
      ∀ name ∈ added, instruction.DeclaresHere name := by
  have adds : ∀ id, machine.arena.Live id →
      Frame.Adds (fun name => id = scope ∧ instruction.DeclaresHere name) (machine.arena.frame id)
        (later.arena.frame id) :=
    fun id live => ((evaluate_steps ends).adds (Balanced.start reachable.sound) live).1
  refine ⟨fun id live apart => (adds id live).names_eq fun _ may => apart may.1, ?_⟩
  exact (adds scope live).mono fun _ => And.right

/-- A function and a loop run, and the root has the function and the variable beside the loop, and nothing of theirs. -/
theorem evaluate_declares_locally_bodies :
    let body : Instruction := .declaration "inner" (.access .get [.scope, .text "i"])
    let program : Program := ⟨.block [
        .function "f" ["x"] (.declaration "local" (.access .get [.scope, .text "x"])),
        .loop "i" (.array [.truth true, .truth false]) body,
        .declaration "outer" (.access .call [.scope, .text "f", .truth true])], ⟨"2024-01-01", none⟩, []⟩
    let machine := (program.start (.ofDocument .null)).2
    ∃ outcome later, (evaluate program.clock 20 program.root ⟨0⟩).perform machine = some (outcome, later) ∧
      (later.arena.frame ⟨0⟩).names = ["f", "outer"] ∧
      ∀ name ∈ ["f", "outer"], program.root.DeclaresHere name := by
  intro body program machine
  have ran : ((evaluate program.clock 20 program.root ⟨0⟩).perform machine).map
      (fun result => (result.2.arena.frame ⟨0⟩).names) = some ["f", "outer"] := by
    decide +kernel
  obtain ⟨⟨outcome, later⟩, ends, names⟩ := Option.map_eq_some_iff.mp ran
  have live : machine.arena.Live ⟨0⟩ := by decide +kernel
  obtain ⟨added, same, each⟩ := (evaluate_declares_locally (.start program (.ofDocument .null)) live ends).2
  have empty : (machine.arena.frame ⟨0⟩).names = [] := by decide +kernel
  rw [empty, List.nil_append, show (later.arena.frame ⟨0⟩).names = ["f", "outer"] from names] at same
  exact ⟨outcome, later, ends, names, same ▸ each⟩

end RuleScript
