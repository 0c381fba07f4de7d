import RuleScript.Library.Basic

/-! The scopes of a run.

Scopes are frames of an arena. A frame looks names up in itself and then in its parent. The frames of
calls, iterations and matches that are over are released and used again, the last one released first, unless
a value holds on to them: a captured frame is kept, and all frames above it with it.
-/

set_option autoImplicit false

namespace RuleScript

structure Frame where
  locals : Fields Value
  libraries : List Library
  view : Option View
  parent : Option ScopeId
  captured : Bool

def Frame.blank : Frame :=
  ⟨[], [], none, none, false⟩

structure Arena where
  frames : Array Frame
  /-- Released frames, the next one to be used again first. -/
  free : List ScopeId

namespace Arena

def empty : Arena :=
  ⟨#[], []⟩

def frame (arena : Arena) (scope : ScopeId) : Frame :=
  arena.frames.getD scope.index .blank

def modifyFrame (arena : Arena) (scope : ScopeId) (f : Frame → Frame) : Arena :=
  { arena with frames := arena.frames.modify scope.index f }

def live (arena : Arena) : Nat :=
  arena.frames.size - arena.free.length

def add (arena : Arena) (frame : Frame) : ScopeId × Arena :=
  match arena.free with
  -- The frame that was released last is used again first.
  | scope :: free => (scope, ⟨arena.frames.setIfInBounds scope.index frame, free⟩)
  | [] => (⟨arena.frames.size⟩, ⟨arena.frames.push frame, []⟩)

def root (arena : Arena) (view : Option View) : ScopeId × Arena :=
  arena.add { Frame.blank with view }

def child (arena : Arena) (parent : ScopeId) (view : Option View) : ScopeId × Arena :=
  arena.add { Frame.blank with view, parent := some parent }

/-- A scope and those above it, nearest first, at most `limit` of them. -/
def chainWithin (arena : Arena) : Nat → ScopeId → List ScopeId
  | 0, _ => []
  | limit + 1, scope =>
    scope :: match (arena.frame scope).parent with
      | some parent => arena.chainWithin limit parent
      | none => []

/-- A scope and those above it. No chain that ends is longer than there are frames. -/
def chain (arena : Arena) (scope : ScopeId) : List ScopeId :=
  arena.chainWithin arena.frames.size scope

/-- Keep a scope and those above it. Above a captured scope all are captured already. -/
def capture (arena : Arena) (scope : ScopeId) : Arena :=
  ((arena.chain scope).takeWhile fun id => !(arena.frame id).captured).foldl
    (fun arena id => arena.modifyFrame id fun frame => { frame with captured := true }) arena

/-- Give a finished scope back. Scopes without a parent and captured scopes stay. -/
def release (arena : Arena) (scope : ScopeId) : Arena :=
  let frame := arena.frame scope
  -- The frame is blanked at once, so a handle that is left finds nothing in it.
  if frame.captured || frame.parent.isNone then arena
  else
    { frames := arena.frames.setIfInBounds scope.index .blank
      free := scope :: arena.free }

def importLibrary (arena : Arena) (scope : ScopeId) (library : Library) : Arena :=
  arena.modifyFrame scope fun frame => { frame with libraries := frame.libraries ++ [library] }

def declare (arena : Arena) (scope : ScopeId) (name : String) (value : Value) :
    Except Failure Arena :=
  if Fields.contains (arena.frame scope).locals name then .error (.duplicateDeclaration name)
  else
    .ok (arena.modifyFrame scope fun frame =>
      { frame with locals := Fields.put frame.locals name value })

/-- What a call of a name reaches. -/
inductive Callee where
  | closure (closure : Closure)
  | library (library : Library)

/-- The callee of a name in one scope: a variable that is a closure, then the libraries in import order. -/
def calleeIn? (arena : Arena) (name : String) (scope : ScopeId) : Option Callee :=
  let frame := arena.frame scope
  match Fields.get? frame.locals name with
  | some (.closure closure) => some (.closure closure)
  -- A variable that holds anything else does not hide a library.
  | _ => (frame.libraries.find? (·.has name)).map .library

def resolveCallWithin (arena : Arena) (name : String) : Nat → ScopeId → Except Failure Callee
  | 0, _ => .error (.crash .endlessSearch)
  | limit + 1, scope =>
    match arena.calleeIn? name scope with
    | some callee => .ok callee
    | none =>
      match (arena.frame scope).parent with
      | some parent => arena.resolveCallWithin name limit parent
      | none => .error (.methodNotFound name)

/-- The callee of a name. A search through more scopes than there are never ends. -/
def resolveCall (arena : Arena) (scope : ScopeId) (name : String) : Except Failure Callee :=
  arena.resolveCallWithin name arena.frames.size scope

def search (arena : Arena) (memory : Memory) (scope : ScopeId) (name : String) : List View :=
  match (arena.frame scope).view with
  | some view => view.search name memory
  | none => []

end Arena

end RuleScript
