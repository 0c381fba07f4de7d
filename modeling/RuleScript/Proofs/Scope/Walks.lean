import RuleScript.Evaluation.Machine
import RuleScript.Proofs.Scope.Frames

/-! The ways up from a scope.

Names are read, overwritten and called by walks of their own. Here each of them is told by the chain of the scope:
what the first scope on it has that has anything under the name, and whether the chain ends where none has.
-/

set_option autoImplicit false

namespace RuleScript

namespace Arena

def endsWithin (arena : Arena) : Nat → ScopeId → Bool
  | 0, _ => false
  | limit + 1, scope =>
    match (arena.frame scope).parent with
    | some parent => arena.endsWithin limit parent
    | none => true

/-- Whether the way up from a scope ends. One that has passed as many scopes as there are goes round for ever. -/
def ends (arena : Arena) (scope : ScopeId) : Bool :=
  arena.endsWithin arena.frames.size scope

inductive Binding where
  | inScope (scope : ScopeId)
  | member (view : View)

def bindingIn? (arena : Arena) (memory : Memory) (name : String) (scope : ScopeId) : Option Binding :=
  let frame := arena.frame scope
  if Fields.contains frame.locals name then some (.inScope scope)
  else
    match frame.view with
    | some view => if view.has name memory then some (.member view) else none
    | none => none

def binding? (arena : Arena) (memory : Memory) (scope : ScopeId) (name : String) : Option Binding :=
  (arena.chain scope).findSome? (arena.bindingIn? memory name)

variable {arena : Arena} {scope parent : ScopeId} {limit : Nat} {name : String}

theorem bindingIn?_of_local {memory : Memory} (present : Fields.contains (arena.frame scope).locals name = true) :
    arena.bindingIn? memory name scope = some (.inScope scope) := by
  unfold bindingIn?
  rw [if_pos present]

theorem bindingIn?_of_view {memory : Memory} {view : View}
    (absent : Fields.contains (arena.frame scope).locals name = false)
    (viewed : (arena.frame scope).view = some view) :
    arena.bindingIn? memory name scope = if view.has name memory then some (.member view) else none := by
  simp [bindingIn?, absent, viewed]

theorem bindingIn?_of_bare {memory : Memory} (absent : Fields.contains (arena.frame scope).locals name = false)
    (blind : (arena.frame scope).view = none) : arena.bindingIn? memory name scope = none := by
  simp [bindingIn?, absent, blind]

theorem findSome?_chainWithin_up {α : Type} {here : ScopeId → Option α} (nothing : here scope = none)
    (has : (arena.frame scope).parent = some parent) :
    (arena.chainWithin (limit + 1) scope).findSome? here = (arena.chainWithin limit parent).findSome? here := by
  rw [chainWithin, has, List.findSome?_cons, nothing]

theorem findSome?_chainWithin_top {α : Type} {here : ScopeId → Option α} (nothing : here scope = none)
    (top : (arena.frame scope).parent = none) : (arena.chainWithin (limit + 1) scope).findSome? here = none := by
  rw [chainWithin, top, List.findSome?_cons, nothing, List.findSome?_nil]

theorem findSome?_chainWithin_here {α : Type} {here : ScopeId → Option α} {found : α} (some : here scope = .some found) :
    (arena.chainWithin (limit + 1) scope).findSome? here = .some found := by
  rw [chainWithin, List.findSome?_cons, some]

section Congr

variable {other : Arena} (size : arena.frames.size = other.frames.size)
  (parents : ∀ scope, (arena.frame scope).parent = (other.frame scope).parent)

include size parents

theorem chain_congr (scope : ScopeId) : arena.chain scope = other.chain scope := by
  have within : ∀ limit scope, arena.chainWithin limit scope = other.chainWithin limit scope := by
    intro limit
    induction limit with
    | zero => exact fun _ => rfl
    | succ limit ih =>
      intro scope
      simp only [chainWithin, parents, ih]
  rw [chain, chain, size, within]

theorem ends_congr (scope : ScopeId) : arena.ends scope = other.ends scope := by
  have within : ∀ limit scope, arena.endsWithin limit scope = other.endsWithin limit scope := by
    intro limit
    induction limit with
    | zero => exact fun _ => rfl
    | succ limit ih =>
      intro scope
      simp only [endsWithin, parents, ih]
  rw [ends, ends, size, within]

end Congr

theorem resolveCallWithin_eq (limit : Nat) (scope : ScopeId) :
    arena.resolveCallWithin name limit scope =
      match (arena.chainWithin limit scope).findSome? (arena.calleeIn? name) with
      | some callee => .ok callee
      | none => .error (if arena.endsWithin limit scope then .methodNotFound name else .crash .endlessSearch) := by
  -- Along the walk: what the first scope offers decides, and without an offer the parent does.
  induction limit generalizing scope with
  | zero => rfl
  | succ limit ih =>
    rw [resolveCallWithin, endsWithin]
    cases here : arena.calleeIn? name scope with
    | some callee => rw [findSome?_chainWithin_here here]
    | none =>
      cases has : (arena.frame scope).parent with
      | none => rw [findSome?_chainWithin_top here has]; rfl
      | some parent =>
        rw [findSome?_chainWithin_up here has]
        exact ih parent

theorem resolveCall_eq (arena : Arena) (scope : ScopeId) (name : String) :
    arena.resolveCall scope name =
      match (arena.chain scope).findSome? (arena.calleeIn? name) with
      | some callee => .ok callee
      | none => .error (if arena.ends scope then .methodNotFound name else .crash .endlessSearch) :=
  resolveCallWithin_eq _ scope

end Arena

end RuleScript
