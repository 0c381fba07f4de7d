/-! Computations that may suspend, on a state that others may change meanwhile.

A computation runs from a state to its end or to its next suspension. Members of a group are polled in
rounds: each round resumes every unfinished member once, in order, and the group ends when all members
have. A computation that exceeds its depth limit is `exhausted`, and so is all that waits for it.
-/

set_option autoImplicit false

namespace RuleScript

/-- A computation that has run to its next stop. -/
inductive Poll (σ α : Type) where
  | done (state : σ) (result : α)
  | waiting (state : σ) (resume : σ → Poll σ α)
  | exhausted

def Task (σ α : Type) := σ → Poll σ α

variable {σ α β : Type}

namespace Poll

def bind : Poll σ α → (α → Task σ β) → Poll σ β
  | done state result, next => next result state
  | waiting state resume, next => waiting state fun later => (resume later).bind next
  | exhausted, _ => exhausted

def map (f : α → β) : Poll σ α → Poll σ β
  | done state result => done state (f result)
  | waiting state resume => waiting state fun later => (resume later).map f
  | exhausted => exhausted

/-- Poll a member that has just stopped together with the rest of its group, which comes after it in every
round. -/
def both : Poll σ α → Task σ β → Poll σ (α × β)
  | done state result, rest => (rest state).map fun other => (result, other)
  | waiting state resume, rest =>
    match rest state with
    | done state other => waiting state fun later => (resume later).map fun result => (result, other)
    | waiting state resumeRest => waiting state fun later => (resume later).both resumeRest
    | exhausted => exhausted
  | exhausted, _ => exhausted

def finish : Poll σ α → Option (σ × α)
  | done state result => some (state, result)
  | waiting state resume => (resume state).finish
  | exhausted => none

end Poll

namespace Task

def pure (result : α) : Task σ α :=
  fun state => .done state result

def bind (task : Task σ α) (next : α → Task σ β) : Task σ β :=
  fun state => (task state).bind next

instance : Monad (Task σ) where
  pure := Task.pure
  bind := Task.bind

instance : MonadStateOf σ (Task σ) where
  get := fun state => .done state state
  set state := fun _ => .done state ()
  modifyGet f := fun state => let (result, later) := f state; .done later result

def exhausted : Task σ α :=
  fun _ => .exhausted

def suspend : Nat → Task σ Unit
  | 0 => Task.pure ()
  | count + 1 => fun state => .waiting state (suspend count)

def all : List (Task σ α) → Task σ (List α)
  | [] => Task.pure []
  | first :: rest => fun state => ((first state).both (all rest)).map fun (result, others) => result :: others

/-- The state and the result at the end, `none` if a limit was exceeded. -/
def run (task : Task σ α) (state : σ) : Option (σ × α) :=
  (task state).finish

end Task

end RuleScript
