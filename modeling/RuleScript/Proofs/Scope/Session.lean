import RuleScript.Proofs.Run.Machine
import RuleScript.Proofs.Value.Handles

/-! Sessions with an arena.

A session asks one thing after another of the scopes of a machine. It names a scope by its number, the number of
scopes made before it, so the same requests can be put to arenas that give out different scopes.
-/

set_option autoImplicit false

namespace RuleScript

namespace Fields

variable {α β : Type} (f : α → β) (fields : Fields α) (name : String)

def mapValues : Fields β :=
  fields.map fun pair => (pair.1, f pair.2)

theorem contains_mapValues : contains (mapValues f fields) name = contains fields name := by
  induction fields with
  | nil => rfl
  | cons head rest ih => exact congrArg (head.1 = name || ·) ih

theorem get?_mapValues : get? (mapValues f fields) name = (get? fields name).map f := by
  induction fields with
  | nil => rfl
  | cons head rest ih =>
    by_cases same : head.1 = name
    · simp [mapValues, get?, same]
    · simpa [mapValues, get?, same] using ih

theorem put_mapValues (value : α) :
    put (mapValues f fields) name (f value) = mapValues f (put fields name value) := by
  induction fields with
  | nil => rfl
  | cons head rest ih =>
    by_cases same : head.1 = name
    · simp [mapValues, put, same]
    · simpa [mapValues, put, same] using ih

end Fields

def Closure.mapScope (f : ScopeId → ScopeId) (c : Closure) : Closure :=
  { c with scope := f c.scope }

namespace Value

variable (f g : ScopeId → ScopeId) (value : Value)

def mapScopes : Value → Value
  | closure c => closure (c.mapScope f)
  | scope id => scope (f id)
  | value => value

theorem mapScopes_of_plain (plain : value.handle? = none) : value.mapScopes f = value := by
  cases value <;> first | rfl | cases plain

theorem mapScopes_congr (same : ∀ id, value.handle? = some id → f id = g id) :
    value.mapScopes f = value.mapScopes g := by
  cases value with
  | closure c => exact congrArg (fun id => closure { c with scope := id }) (same c.scope rfl)
  | scope id => exact congrArg scope (same id rfl)
  | _ => rfl

theorem mapScopes_id : value.mapScopes id = value := by
  cases value <;> rfl

/-- The host form of a value does not show its scope. -/
theorem native_mapScopes (memory : Memory) : (value.mapScopes f).native memory = value.native memory := by
  cases value <;> simp [mapScopes, native, nativeWithin]

end Value

def Frame.mapScopes (f : ScopeId → ScopeId) (frame : Frame) : Frame :=
  { frame with locals := Fields.mapValues (·.mapScopes f) frame.locals, parent := frame.parent.map f }

theorem Frame.mapScopes_congr {f g : ScopeId → ScopeId} {frame : Frame}
    (locals : ∀ pair ∈ frame.locals, ∀ id, pair.2.handle? = some id → f id = g id)
    (parent : ∀ id, frame.parent = some id → f id = g id) : frame.mapScopes f = frame.mapScopes g := by
  have sameLocals : Fields.mapValues (·.mapScopes f) frame.locals =
      Fields.mapValues (·.mapScopes g) frame.locals :=
    List.map_congr_left fun pair member =>
      congrArg (pair.1, ·) (pair.2.mapScopes_congr f g (locals pair member))
  have sameParent : frame.parent.map f = frame.parent.map g := by
    cases has : frame.parent with
    | none => rfl
    | some id => exact congrArg some (parent id has)
  simp only [Frame.mapScopes, sameLocals, sameParent]

/-! ## Requests and answers -/

/-- What can be asked of the scopes of a machine. Scopes are given by their numbers. -/
inductive ScopeCall where
  | root (view : Option View)
  | child (parent : ScopeId) (view : Option View)
  | capture (scope : ScopeId)
  | release (scope : ScopeId)
  | importLibrary (scope : ScopeId) (library : Library)
  | declare (scope : ScopeId) (name : String) (value : Value)
  | assign (scope : ScopeId) (name : String) (value : Value)
  | lookUp (scope : ScopeId) (name : String)
  | resolve (scope : ScopeId) (name : String)
  | search (scope : ScopeId) (name : String)

namespace ScopeCall

def scope? : ScopeCall → Option ScopeId
  | root _ => none
  | child scope _ | capture scope | release scope | importLibrary scope _ | declare scope _ _
  | assign scope _ _ | lookUp scope _ | resolve scope _ | search scope _ => some scope

def value? : ScopeCall → Option Value
  | declare _ _ value | assign _ _ value => some value
  | _ => none

end ScopeCall

inductive ScopeAnswer where
  | scope (id : ScopeId)
  | done
  | value (result : Except Failure Value)
  | callee (result : Except Failure Arena.Callee)
  | views (found : List View)

def Arena.Binding.mapScopes (f : ScopeId → ScopeId) : Arena.Binding → Arena.Binding
  | inScope scope => inScope (f scope)
  | member view => member view

def Arena.Callee.mapScopes (f : ScopeId → ScopeId) : Arena.Callee → Arena.Callee
  | closure c => closure (c.mapScope f)
  | library l => library l

namespace ScopeAnswer

def mapScopes (f : ScopeId → ScopeId) : ScopeAnswer → ScopeAnswer
  | scope id => scope (f id)
  | done => done
  | value result => value (result.map (·.mapScopes f))
  | callee result => callee (result.map (·.mapScopes f))
  | views found => views found

def handle? : ScopeAnswer → Option ScopeId
  | scope id => some id
  | value (.ok v) => v.handle?
  | callee (.ok (.closure c)) => some c.scope
  | _ => none

theorem mapScopes_congr {f g : ScopeId → ScopeId} {answer : ScopeAnswer}
    (same : ∀ id, answer.handle? = some id → f id = g id) : answer.mapScopes f = answer.mapScopes g := by
  match answer with
  | scope id => exact congrArg scope (same id rfl)
  | done | views _ | value (.error _) | callee (.error _) | callee (.ok (.library _)) => rfl
  | value (.ok v) => exact congrArg (value <| .ok ·) (v.mapScopes_congr f g same)
  | callee (.ok (.closure c)) =>
    exact congrArg (fun id => callee (.ok (.closure { c with scope := id }))) (same c.scope rfl)

end ScopeAnswer

/-! ## Sessions -/

structure Session where
  machine : Machine
  /-- The scopes made so far, in order. -/
  issued : List ScopeId

namespace Session

def start (memory : Memory) : Session :=
  ⟨⟨.empty, memory⟩, []⟩

def scope (session : Session) (number : ScopeId) : ScopeId :=
  session.issued.getD number.index number

def allocate (session : Session) (make : Arena → ScopeId × Arena) : ScopeAnswer × Session :=
  let (id, arena) := make session.machine.arena
  (.scope id, ⟨⟨arena, session.machine.memory⟩, session.issued ++ [id]⟩)

def change (session : Session) (f : Arena → Arena) : ScopeAnswer × Session :=
  (.done, ⟨⟨f session.machine.arena, session.machine.memory⟩, session.issued⟩)

def ask (session : Session) (run : Run Value) : Option (ScopeAnswer × Session) :=
  (run.perform session.machine).map fun (result, machine) => (.value result, ⟨machine, session.issued⟩)

def perform (release : Arena → ScopeId → Arena) (session : Session) :
    ScopeCall → Option (ScopeAnswer × Session)
  | .root view => some (session.allocate (·.root view))
  | .child parent view => some (session.allocate (·.child (session.scope parent) view))
  | .capture scope => some (session.change (·.capture (session.scope scope)))
  | .release scope => some (session.change (release · (session.scope scope)))
  | .importLibrary scope library => some (session.change (·.importLibrary (session.scope scope) library))
  | .declare scope name value =>
    session.ask (Machine.declare (session.scope scope) name (value.mapScopes session.scope))
  | .assign scope name value =>
    session.ask (Machine.assign (session.scope scope) name (value.mapScopes session.scope))
  | .lookUp scope name => session.ask (Machine.lookUp (session.scope scope) name)
  | .resolve scope name =>
    some (.callee (session.machine.arena.resolveCall (session.scope scope) name), session)
  | .search scope name =>
    some (.views (session.machine.arena.search session.machine.memory (session.scope scope) name), session)

def serve (release : Arena → ScopeId → Arena) (session : Session) :
    List ScopeCall → Option (List ScopeAnswer × Session)
  | [] => some ([], session)
  | call :: rest => do
    let (answer, next) ← session.perform release call
    let (answers, last) ← next.serve release rest
    some (answer :: answers, last)

/-- A number whose scope has been made and not given back. -/
def Usable (session : Session) (ended : List ScopeId) (number : ScopeId) : Prop :=
  number.index < session.issued.length ∧ number ∉ ended

instance (session : Session) (ended : List ScopeId) (number : ScopeId) :
    Decidable (session.Usable ended number) :=
  inferInstanceAs (Decidable (_ ∧ _))

/-- A request that keeps to the rules: it uses no scope that was given back, it stores only scopes that were
made, and a release that takes effect is of a scope that is no live scope's parent. -/
structure Admits (session : Session) (ended : List ScopeId) (call : ScopeCall) : Prop where
  usable : ∀ number, call.scope? = some number → session.Usable ended number
  stored : ∀ value, call.value? = some value →
    ∀ number, value.handle? = some number → number.index < session.issued.length
  childless : ∀ number, call = .release number →
    session.machine.arena.Releasable (session.scope number) →
    ∀ other, session.machine.arena.Live other →
      (session.machine.arena.frame other).parent ≠ some (session.scope number)

theorem Admits.plain {session : Session} {ended : List ScopeId} {call : ScopeCall}
    (usable : ∀ number, call.scope? = some number → session.Usable ended number) (stores : call.value? = none)
    (keeps : ∀ number, call ≠ .release number) : session.Admits ended call where
  usable := usable
  stored value has := by simp [stores] at has
  childless number same := absurd same (keeps number)

/-- The scopes given back after a request: a release that takes effect gives its scope back. -/
def endedBy (session : Session) (ended : List ScopeId) : ScopeCall → List ScopeId
  | .release number =>
    if session.machine.arena.Releasable (session.scope number) then number :: ended else ended
  | _ => ended

/-- Requests that keep to the rules, each in the state that the ones before it lead to. -/
def Proper : Session → List ScopeId → List ScopeCall → Prop
  | _, _, [] => True
  | session, ended, call :: rest =>
    session.Admits ended call ∧ ∀ answer next, session.perform Arena.release call = some (answer, next) →
      next.Proper (session.endedBy ended call) rest

theorem Proper.cons {session next : Session} {ended : List ScopeId} {call : ScopeCall} {rest : List ScopeCall}
    {answer : ScopeAnswer} (admits : session.Admits ended call)
    (ran : session.perform Arena.release call = some (answer, next))
    (onward : next.Proper (session.endedBy ended call) rest) : session.Proper ended (call :: rest) := by
  refine ⟨admits, fun other after again => ?_⟩
  cases ran.symm.trans again
  exact onward

end Session

end RuleScript
