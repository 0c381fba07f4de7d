import RuleScript.Proofs.Run.Ending

/-! Without functions every process ends.

One lemma for each form of a process. What a process goes over was there when it started: the parts of an instruction,
the items of an array, the matches of a search, the operands of a fold. So it ends if the parts of the instruction do,
and an instruction without functions has no parts but those in its tree.
-/

set_option autoImplicit false

namespace RuleScript

open Process

variable {clock : Clock} {memory : Memory} {machine : Machine}

def Value.Callable (clock : Clock) (memory : Memory) (value : Value) : Prop :=
  (∃ closure, value = .closure closure ∧ closure.body.Ends clock) ∨ value.Stands memory

namespace Value.Callable

variable {value : Value}

theorem sound (callable : value.Callable clock memory) : value.Sound memory :=
  callable.imp_left fun ⟨called, same, _⟩ => ⟨called, same⟩

theorem mono {later : Memory} (callable : value.Callable clock memory) (reaches : memory.Reaches later) :
    value.Callable clock later :=
  callable.imp_right fun stands => stands.mono reaches

end Value.Callable

theorem Instruction.ends_of_start {instruction : Instruction}
    (moves : ∀ (machine : Machine) scope, machine.Closed → (start clock scope machine instruction).Ends clock machine) :
    instruction.Ends clock :=
  fun _ scope => .of_move rfl (List.forall_mem_nil _) fun machine closed _ => ⟨_, rfl, moves machine scope closed⟩

namespace Process.Ends

variable {part : Process} {scope : ScopeId} {arguments : List Value}

theorem withValue {after : After} (ends : Ends clock memory part) (holds : ∀ value ∈ after.held, value.Sound memory)
    (rest : ∀ (machine : Machine) value, machine.Closed → memory.Reaches machine.memory →
      value.Stands machine.memory → (after.resume value machine).Ends clock machine) :
    Ends clock memory (.waiting (.withValue after) part) := by
  refine ends.waiting holds fun machine flow closed reaches stands => ?_
  cases flow with
  | stop => exact .become closed .stop
  | nothing => exact rest machine .empty closed reaches .empty
  | value v => exact rest machine v closed reaches (stands v rfl)

theorem lines {line : Instruction} {rest : List Instruction} (first : line.Ends clock)
    (others : ∀ line ∈ rest, line.Ends clock) :
    Ends clock memory (.waiting (.lines scope rest) (evaluating line scope)) := by
  induction rest generalizing line memory with
  | nil =>
    apply (first memory scope).waiting (List.forall_mem_nil _)
    intro machine flow closed _ stands
    cases flow <;> exact .become closed (.finished stands)
  | cons next rest ih =>
    obtain ⟨second, others⟩ := List.forall_mem_cons.mp others
    apply (first memory scope).waiting (List.forall_mem_nil _)
    intro machine flow closed _ _
    cases flow with
    | stop => exact .become closed .stop
    | nothing | value => exact .become closed (ih second others)

theorem asking (function : String) (all : ∀ value ∈ arguments, value.Stands memory) :
    Ends clock memory (.asking 0 .standard function arguments) :=
  .of_move rfl (forall_sound all) fun _ closed reaches =>
    ⟨_, rfl, .act closed reaches (Action.stands_answer clock function all)⟩

/-- A call by name reaches the standard library, or nothing. -/
theorem naming (scope : ScopeId) (name : String) (all : ∀ value ∈ arguments, value.Stands memory) :
    Ends clock memory (.naming scope name arguments) := by
  refine of_move rfl (forall_sound all) fun machine closed reaches => ?_
  cases found : machine.arena.resolveCall scope name with
  | error failure => exact ⟨_, by simp only [Process.move, found], .become closed (.failed failure)⟩
  | ok callee =>
    obtain ⟨id, stands⟩ := Arena.callee_of_resolveCall found
    cases callee with
    -- No variable holds a closure.
    | closure closure => exact absurd rfl (((closed.frames id).locals _ stands).not_closure closure)
    | library library =>
      obtain rfl := (closed.frames id).libraries _ stands.1
      refine ⟨_, by simp only [Process.move, found]; rfl, .become closed (asking name fun value member => ?_)⟩
      exact (all value member).mono reaches

theorem naming_iterate (scope : ScopeId) (holds : ∀ value ∈ arguments, value.Sound memory) :
    Ends clock memory (.naming scope Message.iterate.name arguments) := by
  refine of_move rfl holds fun machine closed _ => ?_
  obtain ⟨failure, unknown⟩ := closed.resolveCall_iterate scope
  exact ⟨_, by simp only [Process.move, unknown], .become closed (.failed failure)⟩

theorem binding {body : Instruction} (ends : body.Ends clock) (parameters : List String)
    (all : ∀ value ∈ arguments, value.Stands memory) :
    Ends clock memory (.binding scope parameters arguments body) := by
  induction parameters generalizing arguments memory with
  | nil => exact of_move rfl (forall_sound all) fun _ closed _ => ⟨_, rfl, .become closed (ends _ scope)⟩
  | cons parameter parameters ih =>
    refine of_move rfl (forall_sound all) fun machine closed reaches => ?_
    refine ⟨_, rfl, .perform closed reaches (Value.Stands.headD all) fun later _ further _ => ih fun value member => ?_⟩
    exact (all value (List.mem_of_mem_tail member)).mono (reaches.trans further)

theorem calling {receiver : Value} (callable : receiver.Callable clock memory)
    (all : ∀ value ∈ arguments, value.Stands memory) : Ends clock memory (.calling receiver arguments) := by
  refine of_move rfl (List.forall_mem_cons.mpr ⟨callable.sound, forall_sound all⟩) fun machine closed reaches => ?_
  have later : ∀ value ∈ arguments, value.Stands machine.memory := fun value member => (all value member).mono reaches
  obtain ⟨closure, rfl, ends⟩ | stands := callable
  · exact ⟨_, rfl, .enter closed nofun fun _ => binding ends closure.parameters later⟩
  · cases receiver with
    | closure closure => exact absurd rfl (stands.not_closure closure)
    | scope id => exact ⟨_, rfl, .become closed (naming id _ later)⟩
    | _ => exact ⟨_, rfl, .act closed reaches (Action.stands_send .call stands all)⟩

/-- The items are those that were there at the start, so their number bounds the calls. -/
theorem iterating {body : Value} {last : Flow} {items : List Value} (callable : body.Callable clock memory)
    (soFar : last.All (Value.Stands memory)) (all : ∀ value ∈ items, value.Stands memory) :
    Ends clock memory (.iterating body last items) := by
  have holds : ∀ {memory : Memory} {last : Flow} {items : List Value}, body.Callable clock memory →
      last.All (Value.Stands memory) → (∀ value ∈ items, value.Stands memory) →
      ∀ value ∈ body :: last.held ++ items, value.Sound memory := fun callable soFar all =>
    List.forall_mem_append.mpr ⟨List.forall_mem_cons.mpr ⟨callable.sound, soFar.held⟩, forall_sound all⟩
  -- By induction on the items that are left; the body may add to the array, but not to these.
  induction items generalizing last memory with
  | nil =>
    refine of_move rfl (holds callable soFar all) fun machine closed reaches => ?_
    exact ⟨_, rfl, .become closed (.finished (soFar.mono fun value stands => stands.mono reaches))⟩
  | cons item rest ih =>
    refine of_move rfl (holds callable soFar all) fun machine closed reaches => ?_
    obtain ⟨first, others⟩ := List.forall_mem_cons.mp fun value member => (all value member).mono reaches
    have soFar := soFar.mono fun value stands => Value.Stands.mono stands reaches
    have callable := callable.mono reaches
    refine ⟨_, rfl, .become closed ((calling callable (List.forall_mem_singleton.mpr first)).waiting
      (holds callable soFar others) ?_)⟩
    intro machine flow closed reaches stands
    have soFar := soFar.mono fun value stands => Value.Stands.mono stands reaches
    have others : ∀ value ∈ rest, value.Stands machine.memory := fun value member => (others value member).mono reaches
    cases flow with
    | stop => exact .become closed (.finished soFar)
    | nothing => exact .become closed (ih (callable.mono reaches) soFar others)
    | value v => exact .become closed (ih (callable.mono reaches) stands others)

/-- The body of a loop goes with `iterate` alone, where an array calls it and a scope knows nothing of it. -/
theorem sending {receiver : Value} {message : Message} (target : receiver.Stands memory)
    (delivered : (∀ value ∈ arguments, value.Stands memory) ∨
      message = .iterate ∧ ∀ value ∈ arguments, value.Callable clock memory) :
    Ends clock memory (.sending receiver message arguments) := by
  have callable : ∀ value ∈ arguments, value.Callable clock memory :=
    delivered.elim (fun all value member => .inr (all value member)) And.right
  have stands : message ≠ .iterate → ∀ value ∈ arguments, value.Stands memory :=
    fun other => delivered.resolve_right fun both => other both.1
  have holds : ∀ value ∈ receiver :: arguments, value.Sound memory :=
    List.forall_mem_cons.mpr ⟨.inr target, fun value member => (callable value member).sound⟩
  refine of_move rfl holds fun machine closed reaches => ?_
  refine ⟨_, rfl, ?_⟩
  fun_cases send receiver message arguments machine with
  | case1 scope => exact .perform closed reaches trivial fun _ _ _ given => .answer given
  | case2 scope =>
    have new : (Value.argument arguments 1).Stands memory := by
      rw [Value.argument, List.getD_eq_getElem?_getD]
      cases found : arguments[1]? with
      | none => exact .empty
      | some value => exact stands (by decide) value (List.mem_of_getElem? found)
    exact .perform closed reaches new fun _ _ _ given => .answer given
  | case3 message scope notGet notSet =>
    apply Move.Ends.become closed
    by_cases same : message = .iterate
    · subst same
      exact naming_iterate scope fun value member => ((callable value member).mono reaches).sound
    · exact naming scope _ fun value member => (stands same value member).mono reaches
  | case4 closure => exact absurd rfl (target.not_closure closure)
  -- An array calls what it is given, which need not be the body of a loop, with each of its items.
  | case5 place =>
    have items := closed.memory.all.items place
    refine .become closed (iterating ?_ .nothing fun value member => items value (Array.mem_toList_iff.mp member))
    cases arguments with
    | nil => exact .inr .empty
    | cons body rest => exact (callable body List.mem_cons_self).mono reaches
  | case6 notGet notSet notScope notCall notIterate =>
    by_cases same : message = .iterate
    · subst same
      -- Any other receiver answers the same without the body.
      rw [Value.send_iterate]
      exact .act closed reaches (Action.stands_send .iterate target (List.forall_mem_nil _))
    · exact .act closed reaches (Action.stands_send message target (stands same))

end Process.Ends

namespace Move.Ends

variable {values : List Value}

theorem dispatch {target : Value} (closed : machine.Closed) (name : String) (receiver : target.Stands machine.memory)
    (all : ∀ value ∈ values, value.Stands machine.memory) : (dispatch target name values).Ends clock machine := by
  unfold Move.dispatch
  split
  · exact .become closed (.naming _ name all)
  · split
    · refine .become closed (Process.Ends.withValue (.sending receiver (.inl all)) (List.forall_mem_nil _) ?_)
      intro machine value closed _ stands
      exact .act closed (.refl _) (Action.stands_send .neg stands (List.forall_mem_nil _))
    · exact .become closed (.sending receiver (.inl all))

theorem access (kind : Access) (closed : machine.Closed) (all : ∀ value ∈ values, value.Stands machine.memory) :
    (Process.access kind values machine).Ends clock machine := by
  have target := Value.Stands.headD all
  have rest : ∀ value ∈ values.tail, value.Stands machine.memory := fun value member =>
    all value (List.mem_of_mem_tail member)
  unfold Process.access
  cases kind with
  | get => exact .become closed (.sending target (.inl rest))
  | set => exact .become closed (.sending target (.inl rest))
  | call =>
    dsimp only
    split
    · exact dispatch closed "" target (List.forall_mem_nil _)
    case h_2 named others found =>
      rw [found] at rest
      exact dispatch closed _ target (List.forall_mem_cons.mp rest).2

end Move.Ends

namespace Process.Ends

variable {scope : ScopeId}

theorem collecting (kind : Access) {done : List Value} {rest : List Instruction}
    (all : ∀ value ∈ done, value.Stands memory) (each : ∀ part ∈ rest, part.Ends clock) :
    Ends clock memory (.collecting kind scope done rest) := by
  induction rest generalizing done memory with
  | nil =>
    exact of_move rfl (forall_sound all)
      fun machine closed reaches => ⟨_, rfl, .access kind closed fun value member => (all value member).mono reaches⟩
  | cons part rest ih =>
    obtain ⟨first, others⟩ := List.forall_mem_cons.mp each
    refine of_move rfl (forall_sound all) fun machine closed reaches => ?_
    have all : ∀ value ∈ done, value.Stands machine.memory := fun value member => (all value member).mono reaches
    refine ⟨_, rfl, .become closed ((first machine.memory scope).withValue (forall_sound all) ?_)⟩
    intro machine value closed reaches stands
    refine .become closed (ih (List.forall_mem_append.mpr ⟨fun value member => ?_, ?_⟩) others)
    · exact (all value member).mono reaches
    · exact List.forall_mem_singleton.mpr stands

theorem folding (kind : Fold) {total : Value} {rest : List (String × Instruction)} (stands : total.Stands memory)
    (each : ∀ pair ∈ rest, pair.2.Ends clock) : Ends clock memory (.folding kind scope total rest) := by
  induction rest generalizing total memory with
  | nil =>
    exact of_move rfl (List.forall_mem_singleton.mpr (.inr stands))
      fun machine closed reaches => ⟨_, rfl, .become closed (.answer (stands.mono reaches))⟩
  | cons pair rest ih =>
    obtain ⟨operator, operand⟩ := pair
    obtain ⟨first, others⟩ := List.forall_mem_cons.mp each
    refine of_move rfl (List.forall_mem_singleton.mpr (.inr stands)) fun machine closed reaches => ?_
    have stands := stands.mono reaches
    refine ⟨_, rfl, ?_⟩
    simp only [fold]
    split
    · exact .become closed (.answer stands)
    · split
      · exact .become closed (.failed _)
      case h_2 message known =>
        refine .become closed ((first machine.memory scope).withValue (List.forall_mem_singleton.mpr (.inr stands)) ?_)
        intro machine value closed reaches given
        have sent := Action.stands_send message (stands.mono reaches) (List.forall_mem_singleton.mpr given)
        exact .perform closed (.refl _) sent fun _ _ _ total => ih total others

/-- The matches are those that were found at the start, in a document that is still there. -/
theorem matching {body : Instruction} (ends : body.Ends clock) {last : Value} {views : List View}
    (stands : last.Stands memory) (there : ∀ view ∈ views, memory.cell? (.document view.document) ≠ none) :
    Ends clock memory (.matching scope body last views) := by
  induction views generalizing last memory with
  | nil =>
    exact of_move rfl (List.forall_mem_singleton.mpr (.inr stands))
      fun machine closed reaches => ⟨_, rfl, .become closed (.answer (stands.mono reaches))⟩
  | cons view rest ih =>
    obtain ⟨here, others⟩ := List.forall_mem_cons.mp there
    refine of_move rfl (List.forall_mem_singleton.mpr (.inr stands)) fun machine closed reaches => ?_
    have visits : Ends clock machine.memory (.visiting scope view body) := by
      refine of_move rfl (List.forall_mem_nil _) fun later closed onto => ?_
      refine ⟨_, rfl, .enter closed ?_ fun child => ends _ child⟩
      rintro _ ⟨⟩
      exact onto _ (reaches _ here)
    refine ⟨_, rfl, .become closed (visits.withValue (List.forall_mem_nil _) ?_)⟩
    intro later value closed onto given
    exact .become closed (ih given fun view member => onto _ (reaches _ (others view member)))

end Process.Ends

theorem After.ends_choose {scope : ScopeId} {ok : Instruction} {fail : Option Instruction} (closed : machine.Closed)
    (value : Value) (first : ok.Ends clock) (second : ∀ part, fail = some part → part.Ends clock) :
    ((After.choose scope ok fail).resume value machine).Ends clock machine := by
  rw [After.resume_choose]
  split
  · exact .become closed (first _ scope)
  · cases fail with
    | none => exact .become closed .nothing
    | some part => exact .become closed (second part rfl _ scope)

/-- An instruction ends if its parts do and it makes no function. -/
theorem Instruction.ends_of_parts {instruction : Instruction} (parts : ∀ part ∈ instruction.parts, part.Ends clock)
    (noFunction : ∀ name parameters body, instruction ≠ .function name parameters body) : instruction.Ends clock := by
  have none : ∀ {memory : Memory}, ∀ value ∈ ([] : List Value), value.Sound memory := List.forall_mem_nil _
  apply ends_of_start
  intro machine scope closed
  cases instruction with
  | block lines =>
    cases lines with
    | nil => exact .become closed .nothing
    | cons line rest =>
      obtain ⟨first, others⟩ := List.forall_mem_cons.mp parts
      exact .become closed (.lines first others)
  | number | text | truth | translate => exact .become closed (.answer (by constructor))
  | date text => exact .act closed (.refl _) (Action.stands_date _)
  | dateTime text => exact .act closed (.refl _) (Action.stands_dateTime _)
  | scope => exact .capture closed scope (.answer (.scope scope))
  | stop => exact .become closed .stop
  | nest part => exact .become closed (parts part List.mem_cons_self _ scope)
  | result part =>
    cases part with
    | none => exact .become closed .nothing
    | some part => exact .become closed (parts part List.mem_cons_self _ scope)
  | negation part =>
    refine .become closed ((parts part List.mem_cons_self _ scope).withValue none ?_)
    intro machine value closed _ stands
    exact .act closed (.refl _) (Action.stands_send .neg stands (List.forall_mem_nil _))
  | choice test ok fail =>
    obtain ⟨first, others⟩ := List.forall_mem_cons.mp parts
    refine .become closed ((first _ scope).withValue none ?_)
    intro machine value closed _ _
    apply After.ends_choose closed value (others ok List.mem_cons_self)
    rintro _ ⟨⟩
    exact others fail (List.mem_cons_of_mem _ List.mem_cons_self)
  | branch test ok fail =>
    obtain ⟨first, others⟩ := List.forall_mem_cons.mp parts
    refine .become closed ((first _ scope).withValue none ?_)
    intro machine value closed _ _
    apply After.ends_choose closed value (others ok List.mem_cons_self)
    rintro part rfl
    exact others part (List.mem_cons_of_mem _ List.mem_cons_self)
  | array items =>
    refine .become closed (.together .array fun member inside => ?_)
    obtain ⟨item, written, rfl⟩ := List.mem_map.mp inside
    exact parts item written _ scope
  | object members =>
    refine .become closed (.together (.object (members.map Prod.fst)) fun member inside => ?_)
    obtain ⟨pair, written, rfl⟩ := List.mem_map.mp inside
    exact parts pair.2 (List.mem_map_of_mem written) _ scope
  | fold kind first rest =>
    obtain ⟨here, others⟩ := List.forall_mem_cons.mp parts
    refine .become closed ((here _ scope).withValue none ?_)
    intro machine value closed _ stands
    exact .become closed (.folding kind stands fun pair member => others pair.2 (List.mem_map_of_mem member))
  | compare left right operator =>
    refine .become closed ((parts left List.mem_cons_self _ scope).withValue none ?_)
    intro machine a closed _ first
    have second := parts right (List.mem_cons_of_mem _ List.mem_cons_self) machine.memory scope
    refine .become closed (second.withValue (List.forall_mem_singleton.mpr (.inr first)) ?_)
    intro machine b closed reaches given
    exact .act closed (.refl _) (Action.stands_comparison operator (first.mono reaches) given)
  | declaration name part =>
    refine .become closed ((parts part List.mem_cons_self _ scope).withValue none ?_)
    intro machine value closed _ stands
    exact .perform closed (.refl _) stands fun _ _ _ given => .answer given
  | assignment name part =>
    refine .become closed ((parts part List.mem_cons_self _ scope).withValue none ?_)
    intro machine value closed _ stands
    exact .perform closed (.refl _) stands fun _ _ _ given => .answer given
  | access kind items =>
    -- A scope in front is held from the start, and the other arguments are evaluated.
    obtain ⟨rest, rfl, same⟩ | ⟨-, same⟩ := start_access clock scope machine kind items <;> rw [same]
    · obtain ⟨-, others⟩ := List.forall_mem_cons.mp parts
      exact .become closed (.collecting kind (List.forall_mem_singleton.mpr (.scope scope)) others)
    · exact .become closed (.collecting kind (List.forall_mem_nil _) parts)
  | loop iterator list body =>
    refine .become closed ((parts list List.mem_cons_self _ scope).withValue none ?_)
    intro machine value closed _ stands
    -- The body of the loop does not stand in memory. It goes with `iterate`, which calls it and stores nothing.
    have ends := parts body (List.mem_cons_of_mem _ List.mem_cons_self)
    refine .become closed (.sending stands (.inr ⟨rfl, List.forall_mem_singleton.mpr (.inl ⟨_, rfl, ends⟩)⟩))
  | range first last =>
    refine .become closed ((parts first List.mem_cons_self _ scope).withValue none ?_)
    intro machine a closed _ start
    have second := parts last (List.mem_cons_of_mem _ List.mem_cons_self) machine.memory scope
    refine .become closed (second.withValue (List.forall_mem_singleton.mpr (.inr start)) ?_)
    intro machine b closed reaches given
    exact .act closed (.refl _) (Action.stands_range (start.mono reaches) given)
  | function name parameters body => exact absurd rfl (noFunction name parameters body)
  | each name body =>
    exact .become closed (.matching (parts body List.mem_cons_self) .empty (closed.search scope name))

theorem Instruction.FunctionFree.ends {instruction : Instruction} (free : instruction.FunctionFree) :
    instruction.Ends clock := by
  induction instruction using Instruction.parts_induction with
  | step instruction ih =>
    apply ends_of_parts fun part member => ih part member (free.part member)
    rintro name parameters body rfl
    exact free name parameters body .self

end RuleScript
