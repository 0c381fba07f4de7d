import RuleScript.Proofs.Run.Adequacy
import RuleScript.Proofs.Run.Closed
import RuleScript.Proofs.Run.Moves

/-! Processes that end, whatever happens meanwhile.

A process ends if no sequence of its steps goes on forever, on machines that are closed and that others may have changed
between any two steps. This is said of a process by itself, so processes that end also end together: each of them is one
of the others that change the machine for the rest.
-/

set_option autoImplicit false

namespace RuleScript

open Process

/-- A value that a process may hold: one that stands in memory, or the body of a loop. -/
def Value.Sound (memory : Memory) (value : Value) : Prop :=
  (∃ closure, value = .closure closure) ∨ value.Stands memory

namespace Value.Sound

variable {memory later : Memory} {value : Value}

theorem mono (sound : value.Sound memory) (reaches : memory.Reaches later) : value.Sound later :=
  sound.imp_right fun stands => stands.mono reaches

theorem native_of_room (sound : value.Sound memory) (closed : memory.Closed) {room : Nat}
    (enough : memory.room ≤ room) : nativeWithin memory room [] value = value.native memory := by
  obtain ⟨closure, rfl⟩ | stands := sound
  · simp only [native, nativeWithin]
  · exact stands.native_of_room closed enough

end Value.Sound

theorem forall_sound {memory : Memory} {values : List Value} (all : ∀ value ∈ values, value.Stands memory) :
    ∀ value ∈ values, value.Sound memory :=
  fun value member => .inr (all value member)

/-- A process that ends, from a memory on: after each step of its own, on a closed machine that has all places of that
memory, the machine is closed again, and what has become of the process ends. -/
inductive Process.Ends (clock : Clock) : Memory → Process → Prop where
  | intro {memory : Memory} {process : Process} (holds : ∀ value ∈ process.held, value.Sound memory)
      (outcome : ∀ flow, process = finished (.ok flow) → flow.All (Value.Stands memory))
      (keeps : ∀ machine next later, machine.Closed → memory.Reaches machine.memory →
        Step clock anyMove process machine next later → later.Closed ∧ machine.memory.Reaches later.memory)
      (onward : ∀ machine next later, machine.Closed → memory.Reaches machine.memory →
        Step clock anyMove process machine next later → Ends clock later.memory next) : Ends clock memory process

def Instruction.Ends (clock : Clock) (instruction : Instruction) : Prop :=
  ∀ memory scope, Process.Ends clock memory (evaluating instruction scope)

def Move.Ends (clock : Clock) (machine : Machine) (move : Move) : Prop :=
  ∀ next later, move.apply machine = some (next, later) →
    later.Closed ∧ machine.memory.Reaches later.memory ∧ Process.Ends clock later.memory next

theorem Flow.All.held {memory : Memory} {flow : Flow} (all : flow.All (Value.Stands memory)) :
    ∀ value ∈ flow.held, value.Sound memory := by
  cases flow with
  | nothing | stop => exact List.forall_mem_nil _
  | value v => exact List.forall_mem_singleton.mpr (.inr (all v rfl))

namespace Process.Ends

variable {clock : Clock} {memory later : Memory} {process part : Process}

theorem holds (ends : Ends clock memory process) : ∀ value ∈ process.held, value.Sound memory := by
  cases ends
  assumption

theorem step (ends : Ends clock memory process) {machine after : Machine} {next : Process} (closed : machine.Closed)
    (reaches : memory.Reaches machine.memory) (step : Step clock anyMove process machine next after) :
    after.Closed ∧ machine.memory.Reaches after.memory ∧ Ends clock after.memory next := by
  cases ends with
  | intro _ _ keeps onward =>
    obtain ⟨whole, reached⟩ := keeps machine next after closed reaches step
    exact ⟨whole, reached, onward machine next after closed reaches step⟩

theorem outcome {flow : Flow} (ends : Ends clock memory (finished (.ok flow))) : flow.All (Value.Stands memory) := by
  cases ends with
  | intro _ outcome _ _ => exact outcome flow rfl

theorem mono (ends : Ends clock memory process) (reaches : memory.Reaches later) : Ends clock later process := by
  cases ends with
  | intro holds outcome keeps onward =>
    refine .intro (fun value member => (holds value member).mono reaches) ?_ ?_ ?_
    · exact fun flow same => (outcome flow same).mono fun value stands => stands.mono reaches
    · exact fun machine next after closed onto => keeps machine next after closed (reaches.trans onto)
    · exact fun machine next after closed onto => onward machine next after closed (reaches.trans onto)

theorem finished {flow : Flow} (all : flow.All (Value.Stands memory)) : Ends clock memory (finished (.ok flow)) := by
  refine .intro all.held (fun other same => ?_) (fun _ _ _ _ _ step => step.not_finished.elim)
    fun _ _ _ _ _ step => step.not_finished.elim
  cases same
  exact all

theorem failed (failure : Failure) : Ends clock memory (.finished (.error failure)) :=
  .intro (List.forall_mem_nil _) nofun (fun _ _ _ _ _ step => step.not_finished.elim)
    fun _ _ _ _ _ step => step.not_finished.elim

theorem answer {value : Value} (stands : value.Stands memory) : Ends clock memory (answer value) :=
  finished fun _ same => Flow.value.inj same ▸ stands

theorem stop : Ends clock memory (.finished (.ok .stop)) :=
  finished .stop

theorem nothing : Ends clock memory (.finished (.ok .nothing)) :=
  finished .nothing

theorem of_steps (unended : process.outcome? = none) (holds : ∀ value ∈ process.held, value.Sound memory)
    (each : ∀ machine next after, machine.Closed → memory.Reaches machine.memory →
      Step clock anyMove process machine next after →
      after.Closed ∧ machine.memory.Reaches after.memory ∧ Ends clock after.memory next) :
    Ends clock memory process := by
  refine .intro holds ?_ ?_ ?_
  · rintro flow rfl
    cases unended
  · intro machine next after closed reaches step
    obtain ⟨whole, reached, -⟩ := each machine next after closed reaches step
    exact ⟨whole, reached⟩
  · exact fun machine next after closed reaches step => (each machine next after closed reaches step).2.2

theorem of_move (unended : process.outcome? = none) (holds : ∀ value ∈ process.held, value.Sound memory)
    (moves : ∀ machine, machine.Closed → memory.Reaches machine.memory →
      ∃ move, process.move clock machine = some move ∧ move.Ends clock machine) : Ends clock memory process := by
  apply of_steps unended holds
  intro machine next after closed reaches step
  obtain ⟨move, made, ends⟩ := moves machine closed reaches
  exact ends next after (step.of_move made)

theorem waiting {pending : Pending} (ends : Ends clock memory part)
    (holds : ∀ value ∈ pending.held, value.Sound memory)
    (rest : ∀ machine flow, machine.Closed → memory.Reaches machine.memory → flow.All (Value.Stands machine.memory) →
      (pending.resume flow machine).Ends clock machine) : Ends clock memory (.waiting pending part) := by
  -- The induction is on the steps of the part: nothing else moves until it has ended.
  induction ends with
  | @intro memory part held outcome keeps onward ih =>
    have all : ∀ value ∈ (Process.waiting pending part).held, value.Sound memory :=
      List.forall_mem_append.mpr ⟨holds, held⟩
    apply of_steps rfl all
    intro machine next after closed reaches step
    cases step with
    | move _ applied =>
      cases part with
      | finished result =>
        cases result with
        | error failure =>
          cases applied
          exact ⟨closed, .refl _, failed failure⟩
        | ok flow =>
          have stands := (outcome flow rfl).mono fun value stands => stands.mono reaches
          exact rest machine flow closed reaches stands next after applied
      | _ => cases applied
    | waiting step =>
      obtain ⟨whole, reached⟩ := keeps machine _ after closed reaches step
      have further := reaches.trans reached
      refine ⟨whole, reached, ih machine _ after closed reaches step (fun value member => ?_) ?_⟩
      · exact (holds value member).mono further
      · exact fun machine flow closed onto => rest machine flow closed (further.trans onto)

theorem inside {scope : ScopeId} (ends : Ends clock memory part) : Ends clock memory (.inside scope part) := by
  induction ends with
  | @intro memory part held outcome keeps onward ih =>
    have all : ∀ value ∈ (Process.inside scope part).held, value.Sound memory := held
    apply of_steps rfl all
    intro machine next after closed reaches step
    cases step with
    | move _ applied =>
      cases part with
      | finished result =>
        cases applied
        refine ⟨closed.leave scope, .refl _, ?_⟩
        cases result with
        | error failure => exact failed failure
        | ok flow => exact finished ((outcome flow rfl).mono fun value stands => stands.mono reaches)
      | _ => cases applied
    | inside step =>
      obtain ⟨whole, reached⟩ := keeps machine _ after closed reaches step
      exact ⟨whole, reached, ih machine _ after closed reaches step⟩

end Process.Ends

/-! ## Members that move in any order -/

/-- Members that end together: no sequence of steps of any of them goes on forever. -/
inductive EndTogether (clock : Clock) : Memory → List Process → Prop where
  | intro {memory : Memory} {members : List Process}
      (onward : ∀ machine before member behind next later, members = before ++ member :: behind → machine.Closed →
        memory.Reaches machine.memory → machine.memory.Reaches later.memory →
        Process.Step clock anyMove member machine next later →
        EndTogether clock later.memory (before ++ next :: behind)) :
      EndTogether clock memory members

namespace EndTogether

variable {clock : Clock} {memory later : Memory} {members : List Process}

theorem nil : EndTogether clock memory [] :=
  .intro fun _ before member behind _ _ same => absurd same.symm (by simp)

theorem mono (ends : EndTogether clock memory members) (reaches : memory.Reaches later) :
    EndTogether clock later members := by
  cases ends with
  | intro onward =>
    exact .intro fun machine before member behind next after same closed onto =>
      onward machine before member behind next after same closed (reaches.trans onto)

/-- One more member. The induction is on the steps of the new member, and for each of its states on those of the
others: whichever side moves, the other one is left with the steps that it had. -/
theorem cons {member : Process} (ends : Ends clock memory member) (others : EndTogether clock memory members) :
    EndTogether clock memory (member :: members) := by
  induction ends generalizing members with
  | @intro memory member _ _ _ _ moved =>
    have among : ∀ {later : Memory} {members : List Process}, EndTogether clock later members →
        memory.Reaches later → EndTogether clock later (member :: members) := by
      intro later members others
      induction others with
      | @intro later members further ih =>
        intro reaches
        refine .intro fun machine before part behind next after same closed onto reached step => ?_
        rcases before with _ | ⟨first, before⟩
        -- The new member moves, and the others still end where its step has led.
        · obtain ⟨rfl, rfl⟩ := List.cons.inj same
          exact moved machine next after closed (reaches.trans onto) step (mono (.intro further) (onto.trans reached))
        -- One of the others moves, and the new member is as it was.
        · obtain ⟨rfl, rest⟩ := List.cons.inj same
          exact ih machine before part behind next after rest closed onto reached step
            (reaches.trans (onto.trans reached))
    exact among others (.refl memory)

theorem of_each (each : ∀ member ∈ members, Ends clock memory member) : EndTogether clock memory members := by
  induction members with
  | nil => exact nil
  | cons member rest ih =>
    obtain ⟨first, others⟩ := List.forall_mem_cons.mp each
    exact cons first (ih others)

end EndTogether

namespace Move.Ends

variable {clock : Clock} {memory : Memory} {machine : Machine} {next : Process}

theorem become (closed : machine.Closed) (rest : Process.Ends clock machine.memory next) :
    Ends clock machine (.become next) := by
  rintro next later ⟨⟩
  exact ⟨closed, .refl _, rest⟩

theorem capture (closed : machine.Closed) (scope : ScopeId) (rest : Process.Ends clock machine.memory next) :
    Ends clock machine (.capture scope next) := by
  rintro next later ⟨⟩
  exact ⟨closed.capture scope, .refl _, rest⟩

theorem perform {primitive : Primitive} {onward : Value → Process} (closed : machine.Closed)
    (reaches : memory.Reaches machine.memory) (stands : primitive.Stands memory)
    (rest : ∀ later value, machine.memory.Reaches later → value.Stands later →
      Process.Ends clock later (onward value)) : Ends clock machine (.perform primitive onward) := by
  intro next later applied
  obtain ⟨⟨result, final⟩, ran, same⟩ := Option.map_eq_some_iff.mp applied
  obtain ⟨whole, reached, answers⟩ := stands.closed closed reaches ran
  cases result with
  | ok value =>
    cases same
    exact ⟨whole, reached, rest _ value reached (answers value rfl)⟩
  | error failure =>
    cases same
    exact ⟨whole, reached, .failed failure⟩

theorem act {action : Action Value} (closed : machine.Closed) (reaches : memory.Reaches machine.memory)
    (stands : action.Stands memory) : Ends clock machine (.act action) :=
  .perform closed reaches stands fun _ _ _ given => .answer given

theorem enter {parent : ScopeId} {view : Option View} {body : ScopeId → Process} (closed : machine.Closed)
    (there : ∀ seen, view = some seen → machine.memory.cell? (.document seen.document) ≠ none)
    (inner : ∀ child, Process.Ends clock machine.memory (body child)) :
    Ends clock machine (.enter parent view body) := by
  rintro next later ⟨⟩
  exact ⟨closed.enter parent there, .refl _, .inside (inner _)⟩

end Move.Ends

/-- Members that end, end as the members of a literal. -/
theorem Process.Ends.together {clock : Clock} {memory : Memory} {members : List Process} (literal : Literal)
    (each : ∀ member ∈ members, Ends clock memory member) : Ends clock memory (.together literal members) := by
  have ends := EndTogether.of_each each
  induction ends with
  | @intro memory members _ ih =>
    apply of_steps rfl
    · intro value member
      obtain ⟨part, inside, has⟩ := mem_heldAll.mp member
      exact (each part inside).holds value has
    intro machine next after closed reaches step
    generalize whole : Process.together literal members = process at step
    cases step with
    | waiting | inside => cases whole
    | move _ applied =>
      subst whole
      obtain ⟨move, moves, made⟩ := Option.bind_eq_some_iff.mp applied
      obtain ⟨outcomes, ended, rfl⟩ := Option.map_eq_some_iff.mp moves
      obtain rfl := members_of_outcomes ended
      have stands : ∀ outcome ∈ outcomes, ∀ flow, outcome = .ok flow → flow.toValue.Stands memory := by
        rintro _ inside flow rfl
        exact (each _ (List.mem_map_of_mem inside)).outcome.toValue .empty
      have closes : (literal.close outcomes).Ends clock machine := by
        unfold Literal.close
        split
        case h_1 => exact .become closed (.failed _)
        case h_2 => exact .become closed .stop
        case h_3 values collected =>
          have all : ∀ value ∈ values, value.Stands memory := Evaluator.forall_collect stands collected
          cases literal with
          | array => exact .act closed reaches (Action.stands_newArray all)
          | object names => exact .act closed reaches (Action.stands_newObject names all)
      exact closes next after made
    | @member _ before behind member moved _ _ step =>
      obtain ⟨rfl, rfl⟩ := Process.together.inj whole
      obtain ⟨clean, reached, ends⟩ := (each member (by simp)).step closed reaches step
      refine ⟨clean, reached, ih machine before member behind moved after rfl closed reaches reached step ?_⟩
      -- The others end from any later memory on.
      exact Process.forall_mem_moved each (fun _ ends => ends.mono (reaches.trans reached)) ends

end RuleScript
