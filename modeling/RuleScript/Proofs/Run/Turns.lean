import RuleScript.Proofs.Run.Machine
import RuleScript.Proofs.Run.Process

/-! What one step does to the scopes.

A process owns the scopes of the bodies that it runs. A step enters a scope, which the process then owns, or leaves
one of those that it owns, or does no more than capture scopes and write variables.
-/

set_option autoImplicit false

namespace RuleScript

theorem Evaluator.gather_cons {flow : Flow} (goes : flow ≠ .stop) (rest : List (Except Failure Flow)) :
    gather (.ok flow :: rest) = (gather rest).map (Option.map (flow.toValue :: ·)) := by
  rw [gather]
  · rcases gather rest with _ | _ | _ <;> rfl
  · exact goes

theorem Evaluator.gather_of_collect {outcomes : List (Except Failure Flow)} {values? : Option (List Value)}
    (collected : collect outcomes = .ok values?) : gather outcomes = .ok values? := by
  unfold collect at collected
  split at collected
  · cases collected
  · exact collected

namespace Process

mutual

/-- The scopes of the bodies that a process runs. -/
def owned : Process → List ScopeId
  | waiting _ part => part.owned
  | inside scope body => scope :: body.owned
  | together _ members => ownedAll members
  | _ => []

def ownedAll : List Process → List ScopeId
  | [] => []
  | member :: rest => member.owned ++ ownedAll rest

end

@[simp] theorem ownedAll_append (left right : List Process) :
    ownedAll (left ++ right) = ownedAll left ++ ownedAll right := by
  induction left with
  | nil => rfl
  | cons first rest ih => simp [ownedAll, ih]

theorem mem_ownedAll {members : List Process} {scope : ScopeId} :
    scope ∈ ownedAll members ↔ ∃ member ∈ members, scope ∈ member.owned := by
  induction members with
  | nil => simp [ownedAll]
  | cons first rest ih => simp [ownedAll, ih]

theorem ownedAll_eq_nil {members : List Process} (none : ∀ member ∈ members, member.owned = []) :
    ownedAll members = [] := by
  induction members with
  | nil => rfl
  | cons first rest ih =>
    simp [ownedAll, none first List.mem_cons_self, ih fun member inside => none member (List.mem_cons_of_mem _ inside)]

theorem members_of_outcomes {members : List Process} {outcomes : List (Except Failure Flow)}
    (ended : members.mapM outcome? = some outcomes) : members = outcomes.map finished := by
  induction members generalizing outcomes with
  | nil =>
    cases ended
    rfl
  | cons first rest ih =>
    simp only [List.mapM_cons, Option.bind_eq_bind, Option.bind_eq_some_iff] at ended
    obtain ⟨outcome, here, others, later, same⟩ := ended
    cases same
    rw [List.map_cons, ← ih later]
    cases first with
    | finished outcome =>
      cases here
      rfl
    | _ => cases here

theorem ownedAll_finished (outcomes : List (Except Failure Flow)) : ownedAll (outcomes.map finished) = [] := by
  induction outcomes with
  | nil => rfl
  | cons first rest ih => exact ih

end Process

open Process

namespace Move

def Plain : Move → Prop
  | become next | capture _ next => next.owned = []
  | perform _ next => ∀ value, (next value).owned = []
  | enter _ _ body => ∀ scope, (body scope).owned = []
  | leave _ _ => False

theorem plain_act (action : Action Value) : (act action).Plain :=
  fun _ => rfl

theorem plain_dispatch (target : Value) (name : String) (arguments : List Value) :
    (dispatch target name arguments).Plain := by
  unfold dispatch
  split
  · rfl
  · split <;> rfl

end Move

theorem After.plain_resume (after : After) (value : Value) (machine : Machine) :
    (after.resume value machine).Plain := by
  cases after with
  | choose scope ok fail =>
    rw [After.resume_choose]
    split
    · rfl
    · cases fail <;> rfl
  | negate | compareRight | rangeLast => exact Move.plain_act _
  | operand | declare | assign => exact fun _ => rfl
  | _ => rfl

theorem Pending.plain_resume (pending : Pending) (flow : Flow) (machine : Machine) :
    (pending.resume flow machine).Plain := by
  cases pending with
  | withValue after =>
    cases flow with
    | stop => rfl
    | nothing => exact after.plain_resume .empty machine
    | value v => exact after.plain_resume v machine
  | lines scope rest => cases flow <;> cases rest <;> rfl
  | iterate body last rest => cases flow <;> rfl

theorem Literal.plain_close (literal : Literal) (outcomes : List (Except Failure Flow)) :
    (literal.close outcomes).Plain := by
  unfold Literal.close
  split
  · rfl
  · rfl
  · exact Move.plain_act _

namespace Process

variable {clock : Clock}

theorem plain_start (scope : ScopeId) (machine : Machine) (instruction : Instruction) :
    (start clock scope machine instruction).Plain := by
  have evaluated : ∀ {α : Type} (members : List α) (f : α → Instruction),
      ownedAll (members.map fun member => evaluating (f member) scope) = [] := by
    intro α members f
    refine ownedAll_eq_nil fun member inside => ?_
    obtain ⟨_, -, rfl⟩ := List.mem_map.mp inside
    rfl
  fun_cases start clock scope machine instruction
  all_goals first
    | rfl
    | exact Move.plain_act _
    | exact evaluated _ _

theorem plain_access (kind : Access) (values : List Value) (machine : Machine) :
    (access kind values machine).Plain := by
  unfold access
  dsimp only
  split
  · rfl
  · rfl
  · split <;> exact Move.plain_dispatch ..

theorem plain_send (receiver : Value) (message : Message) (arguments : List Value) (machine : Machine) :
    (send receiver message arguments machine).Plain := by
  fun_cases send receiver message arguments machine
  all_goals first
    | rfl
    | exact fun _ => rfl

theorem plain_fold (kind : Fold) (scope : ScopeId) (total : Value) (machine : Machine)
    (rest : List (String × Instruction)) : (fold kind scope total machine rest).Plain := by
  unfold fold
  repeat' split
  all_goals rfl

theorem owned_of_move {process : Process} {machine : Machine} {move : Move}
    (moves : process.move clock machine = some move) :
    process.owned = [] ∧ move.Plain ∨ ∃ scope outcome, process.owned = [scope] ∧ move = .leave scope outcome := by
  revert moves
  fun_cases Process.move clock machine process <;> intro moves
  case case4 pending flow =>
    cases moves
    exact .inl ⟨rfl, pending.plain_resume flow machine⟩
  case case6 scope outcome =>
    cases moves
    exact .inr ⟨scope, outcome, rfl, rfl⟩
  -- The members of a group that closes have all ended, so none of them owns a scope any more.
  case case8 literal members =>
    obtain ⟨outcomes, ended, rfl⟩ := Option.map_eq_some_iff.mp moves
    refine .inl ⟨?_, literal.plain_close outcomes⟩
    rw [members_of_outcomes ended]
    exact ownedAll_finished outcomes
  all_goals cases moves
  all_goals
    first
      | exact .inl ⟨rfl, rfl⟩
      | exact .inl ⟨rfl, fun _ => rfl⟩
      | exact .inl ⟨rfl, plain_start ..⟩
      | exact .inl ⟨rfl, plain_access ..⟩
      | exact .inl ⟨rfl, plain_send ..⟩
      | exact .inl ⟨rfl, plain_fold ..⟩

end Process

/-- What a step does to the scopes: some are owned before it, and some after it. -/
inductive Turn : List ScopeId → Arena → List ScopeId → Arena → Prop where
  /-- Frames keep what they keep while they are in use. -/
  | stay {owned after : List ScopeId} {arena later : Arena} (same : after.Perm owned)
      (sound : arena.Sound → later.Sound) (live : ∀ id, later.Live id ↔ arena.Live id)
      (keeps : ∀ id, (arena.frame id).Keeps (later.frame id)) : Turn owned arena after later
  | enter {owned after : List ScopeId} {arena : Arena} (parent : ScopeId) (view : Option View)
      (same : after.Perm ((arena.child parent view).1 :: owned)) :
      Turn owned arena after (arena.child parent view).2
  | leave {owned after : List ScopeId} {arena : Arena} (scope : ScopeId) (same : owned.Perm (scope :: after)) :
      Turn owned arena after (arena.release scope)

namespace Turn

variable {owned after : List ScopeId} {arena later : Arena}

/-- The scopes of other parts of the process are not touched. -/
theorem among (turn : Turn owned arena after later) {all allAfter : List ScopeId} (others : List ScopeId)
    (before : all.Perm (owned ++ others)) (behind : allAfter.Perm (after ++ others)) :
    Turn all arena allAfter later := by
  cases turn with
  | stay same sound live keeps =>
    exact .stay (behind.trans ((same.append_right others).trans before.symm)) sound live keeps
  | enter parent view same =>
    refine .enter parent view (behind.trans ((same.append_right others).trans ?_))
    exact before.symm.cons _
  | leave scope same =>
    refine .leave scope (before.trans ((same.append_right others).trans ?_))
    exact behind.symm.cons scope

theorem ofModify (arena : Arena) (owned : List ScopeId) (scope : ScopeId) {f : Frame → Frame}
    (keeps : ∀ frame : Frame, frame.Keeps (f frame)) : Turn owned arena owned (arena.modifyFrame scope f) :=
  .stay (.refl _) (fun sound => sound.modifyFrame fun frame => (keeps frame).parent)
    (fun _ => Arena.live_modifyFrame f) fun _ => Arena.frame_modifyFrame_keeps keeps

theorem refl (arena : Arena) (owned : List ScopeId) : Turn owned arena owned arena :=
  .stay (.refl _) id (fun _ => .rfl) fun _ => .refl _

theorem ofCapture (arena : Arena) (owned : List ScopeId) (scope : ScopeId) :
    Turn owned arena owned (arena.capture scope) := by
  rw [Arena.capture_eq]
  exact .stay (.refl _) (·.captureAll _) (fun _ => Arena.live_captureAll ..)
    fun _ => Arena.frame_captureAll_keeps ..

end Turn

theorem Primitive.turn {primitive : Primitive} {machine later : Machine} {result : Except Failure Value}
    (owned : List ScopeId) (ran : primitive.run.perform machine = some (result, later)) :
    Turn owned machine.arena owned later.arena := by
  cases primitive with
  | lookUp scope name =>
    have step := Machine.lookUp_apply scope name machine
    split at step <;>
      (cases (Run.perform_done step).symm.trans ran; exact .refl _ _)
  | assign scope name value =>
    have step := Machine.assign_apply scope name value machine
    split at step <;> cases (Run.perform_done step).symm.trans ran
    · exact .ofModify _ _ _ (Frame.write_keeps name value)
    · exact .refl _ _
    · exact .refl _ _
  | declare scope name value =>
    have step := Machine.declare_apply scope name value machine
    split at step <;> cases (Run.perform_done step).symm.trans ran
    · exact .refl _ _
    · exact .ofModify _ _ _ (Frame.write_keeps name value)
  | act action =>
    cases (Run.perform_done (Run.action_apply action machine)).symm.trans ran
    exact .refl _ _

theorem Move.Plain.turn {move : Move} (plain : move.Plain) {next : Process} {machine later : Machine}
    (applied : move.apply machine = some (next, later)) : Turn [] machine.arena next.owned later.arena := by
  cases move with
  | become =>
    cases applied
    exact plain ▸ .refl _ _
  | capture scope =>
    cases applied
    exact plain ▸ .ofCapture _ _ scope
  | perform primitive after =>
    obtain ⟨⟨result, final⟩, ran, same⟩ := Option.map_eq_some_iff.mp applied
    cases result with
    | ok value =>
      cases same
      exact plain value ▸ Primitive.turn [] ran
    | error failure =>
      cases same
      exact Primitive.turn [] ran
  | enter parent view body =>
    cases applied
    refine .enter parent view ?_
    rw [owned, plain]
    exact .refl _
  | leave => exact plain.elim

namespace Process

variable {clock : Clock} {admits : Process → Machine → Prop} {process next : Process} {machine later : Machine}

theorem Step.not_finished {outcome : Except Failure Flow}
    (step : Step clock admits (finished outcome) machine next later) : False := by
  cases step with
  | move _ moves => cases moves

/-- A process whose parts have ended has no step but its move. -/
theorem Step.of_move {move : Move} (step : Step clock admits process machine next later)
    (moves : process.move clock machine = some move) : move.apply machine = some (next, later) := by
  cases step with
  | move _ applied =>
    rw [moves] at applied
    exact applied
  | @waiting pending part _ _ _ step =>
    cases part with
    | finished outcome => exact step.not_finished.elim
    | _ => cases moves
  | @inside scope body _ _ _ step =>
    cases body with
    | finished outcome => exact step.not_finished.elim
    | _ => cases moves
  | @member literal before after member _ _ _ step =>
    obtain ⟨outcomes, ended, -⟩ := Option.map_eq_some_iff.mp moves
    have all := members_of_outcomes ended
    have inside : member ∈ outcomes.map finished := all ▸ List.mem_append_right before List.mem_cons_self
    obtain ⟨outcome, -, rfl⟩ := List.mem_map.mp inside
    exact step.not_finished.elim

theorem Step.turn (step : Step clock admits process machine next later) :
    Turn process.owned machine.arena next.owned later.arena := by
  induction step with
  | @move process next machine later admitted moves =>
    obtain ⟨move, made, applied⟩ := Option.bind_eq_some_iff.mp moves
    obtain ⟨none, plain⟩ | ⟨scope, outcome, one, rfl⟩ := owned_of_move made
    · exact none ▸ plain.turn applied
    · cases applied
      exact .leave scope (by rw [one]; exact .refl _)
  | waiting step ih => exact ih
  | @inside scope body next machine later step ih =>
    refine ih.among [scope] ?_ ?_ <;> exact @List.perm_append_comm _ [scope] _
  | @member literal before after member next machine later step ih =>
    refine ih.among (ownedAll before ++ ownedAll after) ?_ ?_ <;>
      (simp only [owned, ownedAll_append, ownedAll]; exact List.perm_append_comm_assoc ..)

end Process

end RuleScript
