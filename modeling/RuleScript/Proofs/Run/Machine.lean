import RuleScript.Proofs.Scope.Walks

/-! The steps that a run takes on its own state, each as one transition: none of them suspends. -/

set_option autoImplicit false

namespace RuleScript

variable {α : Type}

namespace Run

def Atomic (run : Run α) : Prop :=
  ∀ machine, ∃ later result, run machine = .done later result

theorem perform_done {run : Run α} {machine later : Machine} {result : Except Failure α}
    (ran : run machine = .done later result) : run.perform machine = some (result, later) := by
  simp [perform, Task.run, ran, Poll.finish]

@[simp] theorem action_apply (act : Action α) (machine : Machine) :
    Run.action act machine =
      .done ⟨machine.arena, (act machine.memory).2⟩ (act machine.memory).1 := rfl

theorem get_bind (next : Machine → Run α) (machine : Machine) : (get >>= next) machine = next machine machine := rfl

theorem action_atomic (act : Action α) : Atomic (Run.action act) :=
  fun machine => ⟨_, _, action_apply act machine⟩

end Run

namespace Machine

variable (scope : ScopeId) (name : String) (value : Value) (machine : Machine)

theorem lookUpWithin_succ (limit : Nat) :
    lookUpWithin name (limit + 1) scope machine =
      match machine.arena.bindingIn? machine.memory name scope with
      | some (.inScope owner) =>
        .done machine (.ok ((Fields.get? (machine.arena.frame owner).locals name).getD .empty))
      | some (.member view) =>
        .done ⟨machine.arena, (view.get name machine.memory).2⟩ (.ok (view.get name machine.memory).1)
      | none =>
        match (machine.arena.frame scope).parent with
        | some parent => lookUpWithin name limit parent machine
        | none => .done machine (.ok .empty) := by
  rw [lookUpWithin, Run.get_bind]
  cases bound : Fields.get? (machine.arena.frame scope).locals name with
  | some value =>
    rw [Arena.bindingIn?_of_local (by rw [Fields.contains_eq_isSome, bound]; rfl)]
    simp only [bound]
    rfl
  | none =>
    have absent : Fields.contains (machine.arena.frame scope).locals name = false := by
      rw [Fields.contains_eq_isSome, bound]; rfl
    cases viewed : (machine.arena.frame scope).view with
    | none =>
      rw [Arena.bindingIn?_of_bare absent viewed]
      cases (machine.arena.frame scope).parent <;> rfl
    | some view =>
      rw [Arena.bindingIn?_of_view absent viewed]
      dsimp only
      by_cases has : view.has name machine.memory
      · simp only [if_pos has]
        rfl
      · simp only [if_neg has]
        cases (machine.arena.frame scope).parent <;> rfl

theorem assignWithin_succ (limit : Nat) :
    assignWithin name value (limit + 1) scope machine =
      match machine.arena.bindingIn? machine.memory name scope with
      | some (.inScope owner) =>
        .done ⟨machine.arena.modifyFrame owner (Frame.write name value), machine.memory⟩ (.ok value)
      | some (.member view) =>
        .done ⟨machine.arena, (view.set name value machine.memory).2⟩
          (.ok (view.set name value machine.memory).1)
      | none =>
        match (machine.arena.frame scope).parent with
        | some parent => assignWithin name value limit parent machine
        | none => .done machine (.error (.undeclaredVariable name)) := by
  rw [assignWithin, Run.get_bind]
  cases present : Fields.contains (machine.arena.frame scope).locals name with
  | true =>
    rw [Arena.bindingIn?_of_local present]
    rfl
  | false =>
    cases viewed : (machine.arena.frame scope).view with
    | none =>
      rw [Arena.bindingIn?_of_bare present viewed]
      cases (machine.arena.frame scope).parent <;> rfl
    | some view =>
      rw [Arena.bindingIn?_of_view present viewed]
      dsimp only
      by_cases has : view.has name machine.memory
      · simp only [if_pos has]
        rfl
      · simp only [if_neg has]
        cases (machine.arena.frame scope).parent <;> rfl

theorem lookUpWithin_apply (limit : Nat) :
    lookUpWithin name limit scope machine =
      match (machine.arena.chainWithin limit scope).findSome? (machine.arena.bindingIn? machine.memory name) with
      | some (.inScope owner) =>
        .done machine (.ok ((Fields.get? (machine.arena.frame owner).locals name).getD .empty))
      | some (.member view) =>
        .done ⟨machine.arena, (view.get name machine.memory).2⟩ (.ok (view.get name machine.memory).1)
      | none =>
        .done machine
          (if machine.arena.endsWithin limit scope then .ok .empty else .error (.crash .endlessSearch)) := by
  -- Along the walk: the first scope that binds the name decides, as on the chain.
  induction limit generalizing scope with
  | zero => rfl
  | succ limit ih =>
    rw [lookUpWithin_succ, Arena.endsWithin]
    cases here : machine.arena.bindingIn? machine.memory name scope with
    | some binding =>
      rw [Arena.findSome?_chainWithin_here here]
      cases binding <;> rfl
    | none =>
      cases has : (machine.arena.frame scope).parent with
      | none =>
        rw [Arena.findSome?_chainWithin_top here has]
        rfl
      | some parent =>
        rw [Arena.findSome?_chainWithin_up here has]
        exact ih parent

theorem assignWithin_apply (limit : Nat) :
    assignWithin name value limit scope machine =
      match (machine.arena.chainWithin limit scope).findSome? (machine.arena.bindingIn? machine.memory name) with
      | some (.inScope owner) =>
        .done ⟨machine.arena.modifyFrame owner (Frame.write name value), machine.memory⟩ (.ok value)
      | some (.member view) =>
        .done ⟨machine.arena, (view.set name value machine.memory).2⟩
          (.ok (view.set name value machine.memory).1)
      | none =>
        .done machine (.error
          (if machine.arena.endsWithin limit scope then .undeclaredVariable name else .crash .endlessSearch)) := by
  induction limit generalizing scope with
  | zero => rfl
  | succ limit ih =>
    rw [assignWithin_succ, Arena.endsWithin]
    cases here : machine.arena.bindingIn? machine.memory name scope with
    | some binding =>
      rw [Arena.findSome?_chainWithin_here here]
      cases binding <;> rfl
    | none =>
      cases has : (machine.arena.frame scope).parent with
      | none =>
        rw [Arena.findSome?_chainWithin_top here has]
        rfl
      | some parent =>
        rw [Arena.findSome?_chainWithin_up here has]
        exact ih parent

/-- A name is read where its nearest binding is. -/
theorem lookUp_apply :
    lookUp scope name machine =
      match machine.arena.binding? machine.memory scope name with
      | some (.inScope owner) =>
        .done machine (.ok ((Fields.get? (machine.arena.frame owner).locals name).getD .empty))
      | some (.member view) =>
        .done ⟨machine.arena, (view.get name machine.memory).2⟩ (.ok (view.get name machine.memory).1)
      | none =>
        .done machine (if machine.arena.ends scope then .ok .empty else .error (.crash .endlessSearch)) :=
  lookUpWithin_apply scope name machine machine.arena.frames.size

theorem eq_empty_of_unbound {arena : Arena} {first : ScopeId} {found : Value}
    (same : (if arena.ends first then .ok .empty else .error (.crash .endlessSearch) : Except Failure Value) =
      .ok found) : found = .empty := by
  split at same <;> cases same
  rfl

/-- A name is overwritten where it is read. -/
theorem assign_apply :
    assign scope name value machine =
      match machine.arena.binding? machine.memory scope name with
      | some (.inScope owner) =>
        .done ⟨machine.arena.modifyFrame owner (Frame.write name value), machine.memory⟩ (.ok value)
      | some (.member view) =>
        .done ⟨machine.arena, (view.set name value machine.memory).2⟩
          (.ok (view.set name value machine.memory).1)
      | none =>
        .done machine (.error
          (if machine.arena.ends scope then .undeclaredVariable name else .crash .endlessSearch)) :=
  assignWithin_apply scope name value machine machine.arena.frames.size

theorem declare_apply :
    declare scope name value machine =
      if Fields.contains (machine.arena.frame scope).locals name then
        .done machine (.error (.duplicateDeclaration name))
      else
        .done ⟨machine.arena.modifyFrame scope (Frame.write name value), machine.memory⟩ (.ok value) := by
  obtain ⟨arena, memory⟩ := machine
  unfold declare Arena.declare
  by_cases present : Fields.contains (arena.frame scope).locals name <;> simp only [present] <;> rfl

theorem inChild_apply (view : Option View) (body : ScopeId → Run Flow) :
    inChild scope view body machine =
      match machine.arena.child scope view with
      | (child, arena) =>
        Poll.bind (body child ⟨arena, machine.memory⟩) fun result later =>
          .done ⟨later.arena.release child, later.memory⟩ result := rfl

theorem lookUp_atomic : (lookUp scope name).Atomic := by
  intro machine
  rw [lookUp_apply]
  split <;> exact ⟨_, _, rfl⟩

theorem assign_atomic : (assign scope name value).Atomic := by
  intro machine
  rw [assign_apply]
  split <;> exact ⟨_, _, rfl⟩

theorem declare_atomic : (declare scope name value).Atomic := by
  intro machine
  rw [declare_apply]
  split <;> exact ⟨_, _, rfl⟩

end Machine

end RuleScript
