import RuleScript.Value.Basic
import RuleScript.Document.Search
import RuleScript.Decimal.Numeral

/-! Reading host documents through views. -/

set_option autoImplicit false

namespace RuleScript

mutual

/-- A node as a value. Objects stay views; arrays become new arrays of projected elements; `null`
and the empty text are missing data. -/
def Json.project (view : View) : Json → StateM Memory Value
  | .null => pure .empty
  | .bool value => pure (.bool value)
  | .integer n => pure (.number (Float.ofInt n))
  | .float x => pure (.number x)
  | .string text => pure (if text.isEmpty then .empty else .text text)
  | .array items => do
    let values ← Json.projectItems view 0 items
    modifyGet fun memory => memory.addArray values.toArray
  | .object _ => pure (.data view)

def Json.projectItems (view : View) (position : Nat) : List Json → StateM Memory (List Value)
  | [] => pure []
  | item :: rest => do
    let value ← Json.project (view.child (.index position)) item
    let values ← Json.projectItems view (position + 1) rest
    pure (value :: values)

end

namespace View

/-- The node that is viewed, `none` if its path leads nowhere. -/
def node? (view : View) (memory : Memory) : Option Json :=
  (memory.document view.document).at? view.path

def isNull (view : View) (memory : Memory) : Bool :=
  match view.node? memory with
  | none | some .null => true
  | _ => false

def has (view : View) (name : String) (memory : Memory) : Bool :=
  match view.node? memory with
  | some (.object members) => Fields.contains members name
  | _ => false

/-- Whether the node is missing data, or an array or object of nothing. -/
def isEmpty (view : View) (memory : Memory) : Bool :=
  match view.node? memory with
  | none | some .null => true
  | some (.string text) => text.isEmpty
  | some (.array items) => items.isEmpty
  | some (.object members) => members.isEmpty
  | _ => false

def native (view : View) (memory : Memory) : Json :=
  (view.node? memory).getD .null

def project (view : View) : StateM Memory Value := do
  let memory ← get
  match view.node? memory with
  | some node => node.project view
  | none => pure .empty

/-- The step that a name means at a node: a member it has, or an element of an array. -/
def stepTo? (name : String) : Json → Option Step
  -- A name of digits is still a key of an object.
  | .object members => if Fields.contains members name then some (.key name) else none
  | .array items =>
    match Decimal.readIndex? name with
    | some position => if position < items.length then some (.index position) else none
    | none => none
  | _ => none

def get (view : View) (name : String) : StateM Memory Value := do
  let memory ← MonadState.get
  match (view.node? memory).bind (stepTo? name) with
  | some step => (view.child step).project
  | none => pure .empty

def search (view : View) (name : String) (memory : Memory) : List View :=
  match view.node? memory with
  | some node => (node.search name).map fun path => { view with path := view.path ++ path }
  | none => []

end View

end RuleScript
