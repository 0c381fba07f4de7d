import RuleScript.Json.Basic

/-! Places in a host document. -/

set_option autoImplicit false

namespace RuleScript

inductive Step where
  | index (position : Nat)
  | key (name : String)
  deriving DecidableEq, Repr

abbrev Path := List Step

namespace Json

/-- The node one step down: an index needs an array, a key an object. -/
def child? : Json → Step → Option Json
  | .array items, .index position => items[position]?
  | .object members, .key name => Fields.get? members name
  | _, _ => none

def at? : Json → Path → Option Json
  | node, [] => some node
  | node, step :: rest =>
    match node.child? step with
    | some next => at? next rest
    | none => none

def replaceChild (node : Json) (step : Step) (value : Json) : Json :=
  match node, step with
  | .array items, .index position => .array (items.set position value)
  | .object members, .key name => .object (Fields.put members name value)
  | node, _ => node

/-- Write a member of the object at a path; `none` if there is no object. -/
def putAt? (name : String) (value : Json) : Json → Path → Option Json
  | .object members, [] => some (.object (Fields.put members name value))
  | _, [] => none
  | node, step :: rest =>
    match node.child? step with
    | none => none
    | some next => (putAt? name value next rest).map (node.replaceChild step ·)

end Json

end RuleScript
