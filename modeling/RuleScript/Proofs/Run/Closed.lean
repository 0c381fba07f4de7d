import RuleScript.Proofs.Run.Depth
import RuleScript.Proofs.Value.Closed

/-! Machines that are closed.

All that the scopes of a closed machine hold stands in its memory, and they import nothing but the standard library.
Every step on values, variables and documents that is given values that stand in memory leaves a closed machine.
-/

set_option autoImplicit false

namespace RuleScript

structure Frame.Stands (memory : Memory) (frame : Frame) : Prop where
  locals : ∀ pair ∈ frame.locals, pair.2.Stands memory
  libraries : ∀ library ∈ frame.libraries, library = .standard
  view : ∀ view, frame.view = some view → memory.cell? (.document view.document) ≠ none

namespace Frame.Stands

variable {memory later : Memory} {frame : Frame}

theorem blank : Frame.blank.Stands memory :=
  ⟨List.forall_mem_nil _, List.forall_mem_nil _, nofun⟩

theorem mono (stands : frame.Stands memory) (reaches : memory.Reaches later) : frame.Stands later where
  locals pair member := (stands.locals pair member).mono reaches
  libraries := stands.libraries
  view view has := reaches _ (stands.view view has)

theorem write (stands : frame.Stands memory) (name : String) {value : Value} (new : value.Stands memory) :
    (frame.write name value).Stands memory where
  locals := Fields.put_all stands.locals new
  libraries := stands.libraries
  view := stands.view

theorem capture (stands : frame.Stands memory) : frame.capture.Stands memory :=
  ⟨stands.locals, stands.libraries, stands.view⟩

end Frame.Stands

namespace Arena

variable {arena : Arena} {good : Frame → Prop}

theorem forall_modifyFrame (all : ∀ id, good (arena.frame id)) (scope : ScopeId) {f : Frame → Frame}
    (keeps : ∀ frame, good frame → good (f frame)) : ∀ id, good ((arena.modifyFrame scope f).frame id) := by
  intro id
  rcases @frame_modifyFrame_cases arena scope id f with same | changed
  · exact same ▸ all id
  · exact changed ▸ keeps _ (all id)

theorem forall_capture (all : ∀ id, good (arena.frame id)) (scope : ScopeId)
    (keeps : ∀ frame, good frame → good frame.capture) : ∀ id, good ((arena.capture scope).frame id) := by
  rw [capture_eq]
  generalize (arena.chain scope).takeWhile _ = scopes
  induction scopes generalizing arena with
  | nil => exact all
  | cons first rest ih => exact ih (forall_modifyFrame all first keeps)

theorem forall_add (all : ∀ id, good (arena.frame id)) {frame : Frame} (new : good frame) :
    ∀ id, good ((arena.add frame).2.frame id) := by
  intro id
  rcases @frame_add_cases arena id frame with here | old
  · rwa [here]
  · exact old ▸ all id

theorem forall_release (all : ∀ id, good (arena.frame id)) (scope : ScopeId) (blank : good .blank) :
    ∀ id, good ((arena.release scope).frame id) := by
  intro id
  rcases @frame_release_cases arena scope id with gone | old
  · exact gone ▸ blank
  · exact old ▸ all id

theorem forall_importAll (all : ∀ id, good (arena.frame id)) (scope : ScopeId) (libraries : List Library)
    (keeps : ∀ frame, ∀ library ∈ libraries, good frame →
      good { frame with libraries := frame.libraries ++ [library] }) :
    ∀ id, good ((arena.importAll scope libraries).frame id) := by
  induction libraries generalizing arena with
  | nil => exact all
  | cons first rest ih =>
    apply ih
    · exact forall_modifyFrame all scope fun frame => keeps frame first List.mem_cons_self
    · exact fun frame library member => keeps frame library (List.mem_cons_of_mem _ member)

theorem view_of_binding? {memory : Memory} {scope : ScopeId} {name : String} {view : View}
    (found : arena.binding? memory scope name = some (.member view)) : ∃ id, (arena.frame id).view = some view := by
  obtain ⟨id, -, here⟩ := List.exists_of_findSome?_eq_some found
  unfold bindingIn? at here
  dsimp only at here
  split at here
  · cases here
  · split at here
    · rename_i viewed
      split at here <;> cases here
      exact ⟨id, viewed⟩
    · cases here

end Arena

structure Machine.Closed (machine : Machine) : Prop where
  frames : ∀ scope, (machine.arena.frame scope).Stands machine.memory
  memory : machine.memory.Closed

namespace Machine.Closed

variable {machine : Machine}

theorem resolveCall_iterate (closed : machine.Closed) (scope : ScopeId) :
    ∃ failure, machine.arena.resolveCall scope Message.iterate.name = .error failure :=
  Arena.resolveCall_iterate (fun id pair member => ((closed.frames id).locals pair member).not_closure)
    (fun id => (closed.frames id).libraries) scope

theorem withMemory (closed : machine.Closed) {memory : Memory} (reaches : machine.memory.Reaches memory)
    (later : memory.Closed) : Closed ⟨machine.arena, memory⟩ :=
  ⟨fun scope => (closed.frames scope).mono reaches, later⟩

theorem write (closed : machine.Closed) (scope : ScopeId) (name : String) {value : Value}
    (new : value.Stands machine.memory) :
    Closed ⟨machine.arena.modifyFrame scope (Frame.write name value), machine.memory⟩ :=
  ⟨Arena.forall_modifyFrame closed.frames scope fun _ stands => stands.write name new, closed.memory⟩

theorem capture (closed : machine.Closed) (scope : ScopeId) :
    Closed ⟨machine.arena.capture scope, machine.memory⟩ :=
  ⟨Arena.forall_capture closed.frames scope fun _ stands => stands.capture, closed.memory⟩

theorem enter (closed : machine.Closed) (parent : ScopeId) {view : Option View}
    (there : ∀ seen, view = some seen → machine.memory.cell? (.document seen.document) ≠ none) :
    Closed ⟨(machine.arena.child parent view).2, machine.memory⟩ :=
  ⟨Arena.forall_add closed.frames ⟨List.forall_mem_nil _, List.forall_mem_nil _, there⟩, closed.memory⟩

theorem leave (closed : machine.Closed) (scope : ScopeId) :
    Closed ⟨machine.arena.release scope, machine.memory⟩ :=
  ⟨Arena.forall_release closed.frames scope .blank, closed.memory⟩

theorem search (closed : machine.Closed) (scope : ScopeId) (name : String) :
    ∀ view ∈ machine.arena.search machine.memory scope name,
      machine.memory.cell? (.document view.document) ≠ none := by
  intro view member
  unfold Arena.search at member
  split at member
  case h_2 => cases member
  case h_1 searched viewed =>
    unfold View.search at member
    split at member
    · obtain ⟨path, -, rfl⟩ := List.mem_map.mp member
      exact (closed.frames scope).view searched viewed
    · cases member

end Machine.Closed

def Primitive.Stands (memory : Memory) : Primitive → Prop
  | lookUp _ _ => True
  | assign _ _ value | declare _ _ value => value.Stands memory
  | act action => action.Stands memory

/-- A step on values leaves a closed machine, and its result stands in the memory after it. -/
theorem Primitive.Stands.closed {primitive : Primitive} {memory : Memory} {machine later : Machine}
    {result : Except Failure Value} (stands : primitive.Stands memory) (closed : machine.Closed)
    (reaches : memory.Reaches machine.memory) (ran : primitive.run.perform machine = some (result, later)) :
    later.Closed ∧ machine.memory.Reaches later.memory ∧ ∀ value, result = .ok value → value.Stands later.memory := by
  have acts : ∀ {memory : Memory} {action : Action Value}, action.Stands memory → memory.Reaches machine.memory →
      Machine.Closed ⟨machine.arena, (action machine.memory).2⟩ ∧
        machine.memory.Reaches (action machine.memory).2 ∧
        ∀ value, (action machine.memory).1 = .ok value → value.Stands (action machine.memory).2 := by
    intro memory action given reaches
    obtain ⟨whole, onward, answers⟩ := given machine.memory closed.memory reaches
    exact ⟨closed.withMemory onward whole, onward, answers⟩
  have still : ∀ {value : Value}, value.Stands machine.memory → machine.Closed ∧
      machine.memory.Reaches machine.memory ∧
      ∀ other, (Except.ok value : Except Failure Value) = .ok other → other.Stands machine.memory :=
    fun given => ⟨closed, .refl _, fun _ same => Except.ok.inj same ▸ given⟩
  have fails : ∀ failure : Failure, machine.Closed ∧ machine.memory.Reaches machine.memory ∧
      ∀ other, (Except.error failure : Except Failure Value) = .ok other → other.Stands machine.memory :=
    fun _ => ⟨closed, .refl _, nofun⟩
  cases primitive with
  | lookUp scope name =>
    have step := Machine.lookUp_apply scope name machine
    -- A name is bound to a variable, to a member of a view, or not at all.
    split at step <;> cases (Run.perform_done step).symm.trans ran
    case h_1 owner bound =>
      apply still
      cases found : Fields.get? (machine.arena.frame owner).locals name with
      | none => exact .empty
      | some value => exact (closed.frames owner).locals _ (Fields.mem_of_get? found)
    case h_2 view bound =>
      obtain ⟨owner, viewed⟩ := Arena.view_of_binding? bound
      have there := (closed.frames owner).view view viewed
      exact acts (Action.stands_get name there) (.refl _)
    case h_3 =>
      refine ⟨closed, .refl _, fun value same => ?_⟩
      rw [Machine.eq_empty_of_unbound same]
      exact .empty
  | assign scope name value =>
    have step := Machine.assign_apply scope name value machine
    split at step <;> cases (Run.perform_done step).symm.trans ran
    case h_1 owner bound => exact ⟨closed.write owner name (stands.mono reaches), (still (stands.mono reaches)).2⟩
    case h_2 view bound =>
      obtain ⟨owner, viewed⟩ := Arena.view_of_binding? bound
      have there := (closed.frames owner).view view viewed
      exact acts (Action.stands_set name there (stands.mono reaches)) (.refl _)
    case h_3 => exact fails _
  | declare scope name value =>
    have step := Machine.declare_apply scope name value machine
    split at step <;> cases (Run.perform_done step).symm.trans ran
    · exact fails _
    · exact ⟨closed.write scope name (stands.mono reaches), (still (stands.mono reaches)).2⟩
  | act action =>
    cases (Run.perform_done (Run.action_apply action machine)).symm.trans ran
    exact acts stands reaches

end RuleScript
