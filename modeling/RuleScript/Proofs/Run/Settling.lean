import RuleScript.Proofs.Run.Adequacy
import RuleScript.Proofs.Scope.Chain

/-! Runs that do not suspend.

Where no library suspends, a run from a machine ends there and then, or exceeds its limit. Two evaluators that agree on
the parts of an instruction agree on the instruction, and what holds of all stored values before the run holds of all
stored values after it.
-/

set_option autoImplicit false

namespace RuleScript

/-- A machine whose variables and memory hold values that are `good`, and whose scopes import libraries that are
`known`. -/
structure Machine.Holds (good : Value → Prop) (known : Library → Prop) (machine : Machine) : Prop where
  locals : ∀ scope, ∀ pair ∈ (machine.arena.frame scope).locals, good pair.2
  libraries : ∀ scope, ∀ library ∈ (machine.arena.frame scope).libraries, known library
  memory : machine.memory.All good

namespace Arena

variable {arena : Arena} {scope other : ScopeId}

theorem frame_add_cases (frame : Frame) :
    (arena.add frame).2.frame other = frame ∨ (arena.add frame).2.frame other = arena.frame other := by
  by_cases same : other = (arena.add frame).1
  · subst same
    unfold add
    split
    case h_1 top rest free =>
      by_cases inside : top.index < arena.frames.size
      · exact .inl (by simp [Arena.frame, Array.getD_eq_getD_getElem?, inside])
      · exact .inr (by simp [Arena.frame, Array.getD_eq_getD_getElem?, inside])
    case h_2 => exact .inl (by simp [Arena.frame, Array.getD_eq_getD_getElem?])
  · exact .inr (frame_add_of_ne frame same)

theorem frame_release_cases :
    (arena.release scope).frame other = .blank ∨ (arena.release scope).frame other = arena.frame other := by
  by_cases ends : arena.Releasable scope
  · by_cases same : other = scope
    · subst same
      rw [release_of_releasable ends]
      exact .inl (by simp [Arena.frame, Array.getD_eq_getD_getElem?, ends.bound])
    · exact .inr (frame_release_of_ne same)
  · rw [release_of_not_releasable ends]
    exact .inr rfl

/-- What a call of a name reaches stands in a frame: a closure among its variables, a library that has the name among
its imports. -/
theorem callee_of_resolveCall {name : String} {callee : Callee} (found : arena.resolveCall scope name = .ok callee) :
    ∃ id, match callee with
      | .closure closure => (name, .closure closure) ∈ (arena.frame id).locals
      | .library library => library ∈ (arena.frame id).libraries ∧ library.has name = true := by
  obtain ⟨id, -, ⟨closure, rfl, bound⟩ | ⟨library, imported, has, rfl⟩⟩ := mem_chain_of_resolveCall found
  · exact ⟨id, Fields.mem_of_get? bound⟩
  · exact ⟨id, imported, has⟩

end Arena

namespace Machine.Holds

variable {good : Value → Prop} {known : Library → Prop} {machine : Machine}

theorem withMemory (holds : machine.Holds good known) {memory : Memory} (all : memory.All good) :
    Holds good known ⟨machine.arena, memory⟩ :=
  { holds with memory := all }

theorem write (holds : machine.Holds good known) (scope : ScopeId) (name : String) {value : Value}
    (new : good value) : Holds good known ⟨machine.arena.modifyFrame scope (Frame.write name value), machine.memory⟩ where
  memory := holds.memory
  locals other pair member := by
    change pair ∈ ((machine.arena.modifyFrame scope _).frame other).locals at member
    rcases @Arena.frame_modifyFrame_cases machine.arena scope other (Frame.write name value) with same | written
    · exact holds.locals other pair (same ▸ member)
    · rw [written] at member
      exact Fields.put_all (holds.locals other) new pair member
  libraries other library member := by
    refine holds.libraries other library ?_
    have same := @Arena.part_modifyFrame machine.arena scope other _ _ Frame.libraries fun frame =>
      (Frame.write_keeps name value frame).libraries
    exact same ▸ member

theorem capture (holds : machine.Holds good known) (scope : ScopeId) :
    Holds good known ⟨machine.arena.capture scope, machine.memory⟩ where
  memory := holds.memory
  locals other pair member := by
    refine holds.locals other pair ?_
    rwa [← Arena.locals_captureAll, ← Arena.capture_eq]
  libraries other library member := by
    refine holds.libraries other library ?_
    rwa [← (Arena.frame_captureAll_keeps _ _ other).libraries, ← Arena.capture_eq]

theorem enter (holds : machine.Holds good known) (parent : ScopeId) (view : Option View) :
    Holds good known ⟨(machine.arena.child parent view).2, machine.memory⟩ where
  memory := holds.memory
  locals other pair member := by
    change pair ∈ ((machine.arena.add _).2.frame other).locals at member
    rcases @Arena.frame_add_cases machine.arena other { Frame.blank with view, parent := some parent } with new | old
    · rw [new] at member
      cases member
    · exact holds.locals other pair (old ▸ member)
  libraries other library member := by
    change library ∈ ((machine.arena.add _).2.frame other).libraries at member
    rcases @Arena.frame_add_cases machine.arena other { Frame.blank with view, parent := some parent } with new | old
    · rw [new] at member
      cases member
    · exact holds.libraries other library (old ▸ member)

theorem leave (holds : machine.Holds good known) (scope : ScopeId) :
    Holds good known ⟨machine.arena.release scope, machine.memory⟩ where
  memory := holds.memory
  locals other pair member := by
    change pair ∈ ((machine.arena.release scope).frame other).locals at member
    rcases @Arena.frame_release_cases machine.arena scope other with blank | old
    · rw [blank] at member
      cases member
    · exact holds.locals other pair (old ▸ member)
  libraries other library member := by
    change library ∈ ((machine.arena.release scope).frame other).libraries at member
    rcases @Arena.frame_release_cases machine.arena scope other with blank | old
    · rw [blank] at member
      cases member
    · exact holds.libraries other library (old ▸ member)

end Machine.Holds

def Poll.Ends {σ α : Type} (limit : Prop) (post : σ → α → Prop) : Poll σ α → Prop
  | .done state result => post state result
  | .waiting _ _ => False
  | .exhausted => limit

/-- Two runs that end at once and alike on every machine that `stays` as it is said, and leave such a machine. -/
def Run.Settles {α : Type} (stays : Machine → Prop) (limit : Prop) (run other : Run α) (post : α → Prop) : Prop :=
  ∀ machine, stays machine → run machine = other machine ∧
    Poll.Ends limit (fun later result => stays later ∧ ∀ value, result = .ok value → post value) (run machine)

def Flow.All (good : Value → Prop) (flow : Flow) : Prop :=
  ∀ value, flow = .value value → good value

theorem Flow.All.nothing {good : Value → Prop} : Flow.nothing.All good := by
  rintro _ ⟨⟩

theorem Flow.All.stop {good : Value → Prop} : Flow.stop.All good := by
  rintro _ ⟨⟩

theorem Flow.All.mono {good better : Value → Prop} {flow : Flow} (all : flow.All good)
    (implies : ∀ value, good value → better value) : flow.All better :=
  fun value same => implies value (all value same)

theorem Flow.All.toValue {good : Value → Prop} {flow : Flow} (all : flow.All good) (empty : good .empty) :
    good flow.toValue := by
  cases flow with
  | nothing | stop => exact empty
  | value v => exact all v rfl

namespace Run.Settles

variable {α β : Type} {stays : Machine → Prop} {limit : Prop} {run other : Run α} {next onward : α → Run β}
  {post : α → Prop} {after : β → Prop}

theorem pure {result : α} (good : post result) : Settles stays limit (pure result) (pure result) post :=
  fun _ holds => ⟨rfl, holds, fun _ same => Except.ok.inj same ▸ good⟩

theorem throw (failure : Failure) : Settles stays limit (throw failure) (throw failure : Run α) post :=
  fun _ holds => ⟨rfl, holds, by rintro _ ⟨⟩⟩

theorem bind (first : Settles stays limit run other post)
    (rest : ∀ result, post result → Settles stays limit (next result) (onward result) after) :
    Settles stays limit (run >>= next) (other >>= onward) after := by
  intro machine holds
  obtain ⟨same, ends⟩ := first machine holds
  rw [bind_apply, bind_apply, ← same]
  generalize run machine = polled at ends ⊢
  cases polled with
  | exhausted => exact ⟨rfl, ends⟩
  | waiting => exact ends.elim
  | done later result =>
    cases result with
    | error failure => exact throw failure later ends.1
    | ok value => exact rest value (ends.2 value rfl) later ends.1

theorem inspect {read : Memory → α} {next onward : α → Run β}
    (rest : ∀ machine, stays machine →
      Settles stays limit (next (read machine.memory)) (onward (read machine.memory)) after) :
    Settles stays limit (Run.inspect read >>= next) (Run.inspect read >>= onward) after :=
  fun machine holds => rest machine holds machine holds

theorem get {next onward : Machine → Run β}
    (rest : ∀ machine, stays machine → Settles stays limit (next machine) (onward machine) after) :
    Settles stays limit (do next (← MonadState.get)) (do onward (← MonadState.get)) after :=
  fun machine holds => rest machine holds machine holds

theorem action {act : Action α} {good : Value → Prop} {known : Library → Prop} (ensures : act.Ensures good post) :
    Settles (Machine.Holds good known) limit (Run.action act) (Run.action act) post := by
  intro machine holds
  obtain ⟨kept, answered⟩ := ensures machine.memory holds.memory
  exact ⟨rfl, holds.withMemory kept, answered⟩

theorem perform {machine later : Machine} {result : Except Failure α} (settles : Settles stays limit run other post)
    (before : stays machine) (ran : run.perform machine = some (result, later)) :
    stays later ∧ ∀ value, result = .ok value → post value := by
  obtain ⟨-, ends⟩ := settles machine before
  cases polled : run machine with
  | exhausted => simp [Run.perform, Task.run, polled, Poll.finish] at ran
  | waiting =>
    rw [polled] at ends
    exact ends.elim
  | done final outcome =>
    cases (Run.perform_done polled).symm.trans ran
    rw [polled] at ends
    exact ends

end Run.Settles

section Machine

variable {good : Value → Prop} {known : Library → Prop} {limit : Prop}

theorem Run.capture_settles (scope : ScopeId) :
    Run.Settles (Machine.Holds good known) limit (Run.scopes fun arena => ((), arena.capture scope))
      (Run.scopes fun arena => ((), arena.capture scope)) fun _ => True :=
  fun _ holds => ⟨rfl, holds.capture scope, fun _ _ => trivial⟩

namespace Machine

variable (plain : ∀ value : Value, value.handle? = none → good value) (scope : ScopeId) (name : String)

include plain

theorem lookUp_settles :
    Run.Settles (Holds good known) limit (lookUp scope name) (lookUp scope name) good := by
  intro machine holds
  refine ⟨rfl, ?_⟩
  rw [lookUp_apply]
  split
  case h_1 owner _ =>
    refine ⟨holds, fun value same => Except.ok.inj same ▸ ?_⟩
    cases bound : Fields.get? (machine.arena.frame owner).locals name with
    | none => exact plain _ rfl
    | some value => exact holds.locals owner _ (Fields.mem_of_get? bound)
  case h_2 view _ =>
    obtain ⟨kept, found⟩ := View.get_all plain view name holds.memory
    exact ⟨holds.withMemory kept, fun value same => Except.ok.inj same ▸ found⟩
  case h_3 =>
    split
    · exact ⟨holds, fun value same => Except.ok.inj same ▸ plain _ rfl⟩
    · exact ⟨holds, by rintro _ ⟨⟩⟩

theorem assign_settles {value : Value} (new : good value) :
    Run.Settles (Holds good known) limit (assign scope name value) (assign scope name value) good := by
  intro machine holds
  refine ⟨rfl, ?_⟩
  rw [assign_apply]
  split
  case h_1 owner _ => exact ⟨holds.write owner name new, fun _ same => Except.ok.inj same ▸ new⟩
  case h_2 view _ =>
    obtain ⟨kept, answered⟩ := View.set_all plain view name holds.memory new
    exact ⟨holds.withMemory kept, fun _ same => Except.ok.inj same ▸ answered⟩
  case h_3 => exact ⟨holds, by rintro _ ⟨⟩⟩

omit plain in
theorem declare_settles {value : Value} (new : good value) :
    Run.Settles (Holds good known) limit (declare scope name value) (declare scope name value) good := by
  intro machine holds
  refine ⟨rfl, ?_⟩
  rw [declare_apply]
  split
  · exact ⟨holds, by rintro _ ⟨⟩⟩
  · exact ⟨holds.write scope name new, fun _ same => Except.ok.inj same ▸ new⟩

omit plain in
theorem inChild_settles {parent : ScopeId} {view : Option View} {body other : ScopeId → Run Flow}
    (inner : ∀ child, Run.Settles (Holds good known) limit (body child) (other child) (Flow.All good)) :
    Run.Settles (Holds good known) limit (inChild parent view body) (inChild parent view other) (Flow.All good) := by
  intro machine holds
  rw [inChild_apply, inChild_apply]
  have entered := holds.enter parent view
  generalize machine.arena.child parent view = made at entered ⊢
  obtain ⟨child, arena⟩ := made
  obtain ⟨same, ends⟩ := inner child _ entered
  dsimp only at same ends ⊢
  rw [← same]
  generalize body child ⟨arena, machine.memory⟩ = polled at ends ⊢
  cases polled with
  | exhausted => exact ⟨rfl, ends⟩
  | waiting => exact ends.elim
  | done later result => exact ⟨rfl, ends.1.leave child, ends.2⟩

end Machine

end Machine

end RuleScript
