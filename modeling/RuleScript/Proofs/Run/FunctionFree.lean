import RuleScript.Proofs.Run.Crashing
import RuleScript.Proofs.Run.Escape
import RuleScript.Proofs.Run.Finite

/-! Programs without functions end.

With the standard library alone, such a program comes to an end on every document, in whatever order the members of its
literals move, and its evaluation is nested no deeper than its instructions. No look-up up the scopes is cut short on
the way, and no rendering, also of an array that has been made to hold itself. The end may be a crash: where an object is
written under a key that leads back to it, or a date-time leaves the calendar on the clock of its own offset.
-/

set_option autoImplicit false

namespace RuleScript

open Process

theorem Move.applies (move : Move) (machine : Machine) : ∃ next later, move.apply machine = some (next, later) := by
  cases move with
  | become | capture | enter | leave => exact ⟨_, _, rfl⟩
  | perform primitive next =>
    obtain ⟨later, result, ran⟩ := primitive.atomic machine
    cases result with
    | ok value => exact ⟨next value, later, by simp [Move.apply, Run.perform_done ran]⟩
    | error failure => exact ⟨.finished (.error failure), later, by simp [Move.apply, Run.perform_done ran]⟩

namespace Process

variable {clock : Clock} {process : Process} {machine : Machine}

theorem Step.imp {admits allows : Process → Machine → Prop} {next : Process} {later : Machine}
    (step : Step clock admits process machine next later)
    (implies : ∀ process, admits process machine → allows process machine) :
    Step clock allows process machine next later := by
  induction step with
  | move admitted moves => exact .move (implies _ admitted) moves
  | waiting _ ih => exact .waiting (ih implies)
  | inside _ ih => exact .inside (ih implies)
  | member _ ih => exact .member (ih implies)

theorem exists_step_of_move {move : Move} (moves : process.move clock machine = some move) :
    ∃ next later, Step clock anyMove process machine next later := by
  obtain ⟨next, later, applied⟩ := move.applies machine
  exact ⟨next, later, .move trivial (by rw [moves]; exact applied)⟩

mutual

/-- A process has ended or can move. -/
theorem progress (clock : Clock) (machine : Machine) (process : Process) :
    (∃ outcome, process = finished outcome) ∨ ∃ next later, Step clock anyMove process machine next later := by
  cases process with
  | finished outcome => exact .inl ⟨outcome, rfl⟩
  | waiting pending part =>
    obtain ⟨outcome, rfl⟩ | ⟨next, later, step⟩ := progress clock machine part
    · cases outcome <;> exact .inr (exists_step_of_move rfl)
    · exact .inr ⟨_, later, .waiting step⟩
  | inside scope body =>
    obtain ⟨outcome, rfl⟩ | ⟨next, later, step⟩ := progress clock machine body
    · exact .inr (exists_step_of_move rfl)
    · exact .inr ⟨_, later, .inside step⟩
  | together literal members =>
    obtain ⟨outcomes, ended⟩ | ⟨before, member, behind, next, later, rfl, step⟩ := progressAll clock machine members
    · exact .inr (exists_step_of_move (by rw [Process.move, ended]; rfl))
    · exact .inr ⟨_, later, .member step⟩
  | naming scope name arguments =>
    cases found : machine.arena.resolveCall scope name with
    | error failure => exact .inr (exists_step_of_move (by simp only [Process.move, found]; rfl))
    | ok callee => cases callee <;> exact .inr (exists_step_of_move (by simp only [Process.move, found]; rfl))
  | collecting kind scope done rest => cases rest <;> exact .inr (exists_step_of_move rfl)
  | calling receiver arguments => cases receiver <;> exact .inr (exists_step_of_move rfl)
  | binding scope parameters arguments body => cases parameters <;> exact .inr (exists_step_of_move rfl)
  | asking count library function arguments => cases count <;> exact .inr (exists_step_of_move rfl)
  | matching scope body last views => cases views <;> exact .inr (exists_step_of_move rfl)
  | iterating body last items => cases items <;> exact .inr (exists_step_of_move rfl)
  | evaluating | sending | visiting | folding => exact .inr (exists_step_of_move rfl)

theorem progressAll (clock : Clock) (machine : Machine) (members : List Process) :
    (∃ outcomes, members.mapM outcome? = some outcomes) ∨
      ∃ before member behind next later, members = before ++ member :: behind ∧
        Step clock anyMove member machine next later := by
  cases members with
  | nil => exact .inl ⟨[], rfl⟩
  | cons first rest =>
    obtain ⟨outcome, rfl⟩ | ⟨next, later, step⟩ := progress clock machine first
    · obtain ⟨outcomes, ended⟩ | ⟨before, member, behind, next, later, rfl, step⟩ := progressAll clock machine rest
      · exact .inl ⟨outcome :: outcomes, by simp [List.mapM_cons, outcome?, ended]⟩
      · exact .inr ⟨_ :: before, member, behind, next, later, rfl, step⟩
    · exact .inr ⟨[], first, rest, next, later, rfl, step⟩

end

namespace Ends

variable {memory : Memory}

/-- No sequence of steps of a process that ends goes on forever. -/
theorem accessible (ends : Ends clock memory process) (closed : machine.Closed)
    (reaches : memory.Reaches machine.memory) :
    Acc (fun after before : Process × Machine => Step clock anyMove before.1 before.2 after.1 after.2)
      (process, machine) := by
  induction ends generalizing machine with
  | @intro memory process _ _ keeps _ ih =>
    refine ⟨_, fun ⟨next, later⟩ step => ?_⟩
    -- Nobody interferes here: the next step is made on the machine that this one has left.
    exact ih machine next later closed reaches step (keeps machine next later closed reaches step).1 (.refl _)

theorem along (ends : Ends clock machine.memory process) (closed : machine.Closed) {state : Process × Machine}
    (steps : Steps clock anyMove (process, machine) state) :
    state.2.Closed ∧ Ends clock state.2.memory state.1 := by
  induction steps with
  | refl => exact ⟨closed, ends⟩
  | tail _ step ih =>
    obtain ⟨closed, -, ends⟩ := ih.2.step ih.1 (.refl _) step
    exact ⟨closed, ends⟩

end Ends

/-- The values in a state of a run: those that the process holds, in variables, and in arrays and objects. -/
inductive Sees (process : Process) (machine : Machine) : Value → Prop where
  | held {value : Value} (member : value ∈ process.held) : Sees process machine value
  | local {scope : ScopeId} {pair : String × Value} (member : pair ∈ (machine.arena.frame scope).locals) :
    Sees process machine pair.2
  | item {place : Nat} {value : Value} (member : value ∈ machine.memory.items place) : Sees process machine value
  | member {place : Nat} {pair : String × Value} (member : pair ∈ machine.memory.members place) :
    Sees process machine pair.2

theorem Sees.sound {value : Value} (sees : process.Sees machine value) (closed : machine.Closed)
    (ends : Ends clock machine.memory process) : value.Sound machine.memory := by
  cases sees with
  | held member => exact ends.holds value member
  | @«local» scope _ member => exact .inr ((closed.frames scope).locals _ member)
  | @item place _ member => exact .inr (closed.memory.all.items place value member)
  | @member place _ member => exact .inr (closed.memory.all.members place _ member)

end Process

/-! ## Whole runs -/

namespace Program

variable {program : Program} {document : Json}

theorem start_closed (standard : ∀ library ∈ program.libraries, library = .standard) :
    (program.start (.ofDocument document)).2.Closed where
  memory := Memory.closed_ofDocument document
  frames := by
    have blank : ∀ id, (Arena.empty.frame id).Stands (.ofDocument document) := fun _ => .blank
    have whole : ({ Frame.blank with view := some ⟨0, []⟩ } : Frame).Stands (.ofDocument document) :=
      ⟨List.forall_mem_nil _, List.forall_mem_nil _, by rintro _ ⟨⟩; simp [Memory.cell?, Memory.ofDocument]⟩
    have root := Arena.forall_add blank whole
    refine Arena.forall_importAll root _ _ fun frame library member stands =>
      ⟨stands.locals, fun other known => ?_, stands.view⟩
    rcases List.mem_append.mp known with old | new
    · exact stands.libraries other old
    · obtain rfl := List.mem_singleton.mp new
      rcases List.mem_append.mp member with host | last
      · exact standard other host
      · exact List.mem_singleton.mp last

/-- A program without functions hands no scope over: nothing has the name that a loop calls. -/
theorem reaches_of_steps (standard : ∀ library ∈ program.libraries, library = .standard)
    (free : program.root.FunctionFree) {state : Process × Machine}
    (steps : Steps program.clock anyMove
      (evaluating program.root (program.start (.ofDocument document)).1, (program.start (.ofDocument document)).2)
      state) : program.Reaches document state.1 state.2 := by
  induction steps with
  | refl => exact .refl
  | @tail before after earlier step ih =>
    have closed := (Ends.along (free.ends _ _) (start_closed standard) earlier).1
    refine .tail ih (step.imp ?_)
    rintro process - ⟨scope, arguments, callee, -, found, -⟩
    obtain ⟨failure, unknown⟩ := closed.resolveCall_iterate scope
    rw [unknown] at found
    cases found

/-- A program without functions, with no library but the standard one, ends on every document, and evaluation that is
nested no deeper than its instructions is enough for it. From its start no sequence of steps goes on forever, and none
stops before the end. In every state on the way the scopes above a live scope are found up to one without a parent, no
search up the scopes goes round, and more room would show no more of any value that is rendered. The end is a result, a
break or a failure, unless a part has made a move on the way that crashes. -/
theorem ends_without_functions (free : program.root.FunctionFree) (alone : program.libraries = [])
    (document : Json) :
    let start := program.start (.ofDocument document)
    (∃ later outcome, Steps program.clock anyMove (evaluating program.root start.1, start.2) (finished outcome, later) ∧
      ∀ depth, program.root.depth ≤ depth →
        evaluate program.clock depth program.root start.1 start.2 = .done later outcome) ∧
    Acc (fun after before : Process × Machine => Process.Step program.clock anyMove before.1 before.2 after.1 after.2)
      (evaluating program.root start.1, start.2) ∧
    ∀ process machine, Steps program.clock anyMove (evaluating program.root start.1, start.2) (process, machine) →
      ((∃ outcome, process = finished outcome) ∨
        ∃ next later, Process.Step program.clock anyMove process machine next later) ∧
      (∀ scope, machine.arena.Live scope → machine.arena.Path scope (machine.arena.chain scope)) ∧
      (∀ scope, machine.arena.ends scope = true) ∧
      (∀ value, process.Sees machine value → ∀ room, machine.memory.room ≤ room →
        value.nativeWithin machine.memory room [] = value.native machine.memory) ∧
      ∀ cause, process = finished (.error (.crash cause)) → cause ≠ .endlessSearch ∧
        ∃ before between part,
          Steps program.clock anyMove (evaluating program.root start.1, start.2) (before, between) ∧
          Steps program.clock anyMove (before, between) (process, machine) ∧
          before.Involves part ∧ part.Crashes between cause := by
  intro start
  have standard : ∀ library ∈ program.libraries, library = .standard := by simp [alone]
  have closed : start.2.Closed := start_closed standard
  have holds : start.2.Holds Value.NoClosure (· = .standard) := start_holds standard rfl (.ofDocument document)
  have ends : Process.Ends program.clock start.2.memory (evaluating program.root start.1) := free.ends _ _
  refine ⟨?_, ends.accessible closed (.refl _), fun process machine steps => ?_⟩
  · obtain ⟨later, outcome, done⟩ := evaluate_of_depth free holds start.1
    exact ⟨later, outcome, evaluate_steps (Run.perform_done (done _ (Nat.le_refl _))), done⟩
  · obtain ⟨whole, going⟩ := ends.along closed steps
    have reaches := reaches_of_steps standard free steps
    refine ⟨progress program.clock machine process, fun scope live => (reaches.chain_live live).1, reaches.ends,
      fun value sees room enough => (sees.sound whole going).native_of_room whole.memory enough, ?_⟩
    -- A crash goes back to a part that crashes at its next move. Every way up ends, so it is no search that does.
    rintro cause rfl
    obtain ⟨⟨before, between⟩, here, there, part, involves, crashes⟩ := steps.crash_origin .evaluating fun calm => by
      cases calm with
      | finished other => exact other rfl
    refine ⟨?_, before, between, part, here, there, involves, crashes⟩
    rintro rfl
    have up := (reaches_of_steps standard free here).ends
    cases crashes with
    | message crashes | operand crashes => cases crashes
    | read round | write round | assign round | call round => exact Bool.noConfusion ((up _).symm.trans round)

/-- An array that holds itself grows while a loop goes over it, and a member of the document is replaced by that array
while its matches are visited. -/
theorem ends_without_functions_in_cycles :
    let xs : Instruction := .access .get [.scope, .text "xs"]
    let grow : Instruction := .access .set [xs, .access .call [xs, .text "length"], xs]
    let program : Program := ⟨.block [.declaration "xs" (.array [.truth true]), grow, .loop "x" xs grow,
      .each "items" (.assignment "items" xs), xs], ⟨"2024-01-01", none⟩, []⟩
    let start := program.start (.ofDocument (.object [("items", .array [.null, .null])]))
    program.root.FunctionFree ∧ program.libraries = [] ∧ program.root.depth = 6 ∧
      ∃ later outcome, ∀ depth, 6 ≤ depth →
        evaluate program.clock depth program.root start.1 start.2 = .done later outcome := by
  intro xs grow program start
  have free : program.root.FunctionFree := by
    change Instruction.FunctionFree (.block _)
    repeat' first
      | exact List.forall_mem_nil _
      | refine List.forall_mem_cons.mpr ⟨?_, ?_⟩
      | refine Instruction.FunctionFree.of_parts nofun ?_
  have deep : program.root.depth = 6 := by decide
  obtain ⟨later, outcome, -, done⟩ :=
    (ends_without_functions free rfl (.object [("items", .array [.null, .null])])).1
  exact ⟨free, rfl, deep, later, outcome, fun depth enough => done depth (deep ▸ enough)⟩

theorem crashes_in_use :
    let o : Instruction := .access .get [.scope, .text "o"]
    let program : Program :=
      ⟨.block [.declaration "o" (.object []), .access .set [o, o, .number 1]], ⟨"2024-01-01", none⟩, []⟩
    let start := program.start (.ofDocument .null)
    program.root.FunctionFree ∧ ∃ later, Steps program.clock anyMove (evaluating program.root start.1, start.2)
      (finished (.error (.crash .objectInUse)), later) := by
  intro o program start
  have free : program.root.FunctionFree := by
    change Instruction.FunctionFree (.block _)
    repeat' first
      | exact List.forall_mem_nil _
      | refine List.forall_mem_cons.mpr ⟨?_, ?_⟩
      | refine Instruction.FunctionFree.of_parts nofun ?_
  have ran : ((evaluate program.clock 4 program.root start.1).perform start.2).map
      (fun ended => decide (ended.1.map Flow.isStop = .error (.crash .objectInUse))) = some true := by
    decide +kernel
  obtain ⟨⟨outcome, later⟩, ends, crashed⟩ := Option.map_eq_some_iff.mp ran
  refine ⟨free, later, ?_⟩
  cases outcome with
  | ok flow => cases of_decide_eq_true crashed
  | error failure =>
    cases of_decide_eq_true crashed
    exact evaluate_steps ends

end Program

end RuleScript
