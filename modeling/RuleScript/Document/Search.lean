import RuleScript.Document.Path

/-! Searching a host document for the first holder of a name. -/

set_option autoImplicit false

namespace RuleScript.Json

def placesOf (name : String) : Json → List Path
  | .array items => (List.range items.length).map fun position => [.key name, .index position]
  | _ => [[.key name]]

mutual

/-- The places that hold `name`, as paths from this node. An object that has the name itself answers
its places; otherwise its arrays are searched element by element, in order, and the first
answer that is not empty counts. Other nodes hold nothing. -/
def search (name : String) : Json → List Path
  | .object members =>
    match Fields.get? members name with
    | some value => placesOf name value
    -- Only without the name itself are the elements searched.
    | none => searchMembers name members
  | _ => []

def searchMembers (name : String) : List (String × Json) → List Path
  | [] => []
  | (key, value) :: rest =>
    match searchArray name value with
    | [] => searchMembers name rest
    | found => found.map (.key key :: ·)

def searchArray (name : String) : Json → List Path
  | .array items => searchItems name 0 items
  | _ => []

def searchItems (name : String) (position : Nat) : List Json → List Path
  | [] => []
  | item :: rest =>
    match search name item with
    | [] => searchItems name (position + 1) rest
    | found => found.map (.index position :: ·)

end

end RuleScript.Json
