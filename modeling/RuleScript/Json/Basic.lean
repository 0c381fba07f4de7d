import RuleScript.Fields

/-! Host data: JSON values whose objects keep the order of their names and whose numbers keep the
form they were read in, whole or floating. -/

set_option autoImplicit false

namespace RuleScript

inductive Json where
  | null
  | bool (value : Bool)
  /-- A whole number of 64 bits, with sign below zero and without above. -/
  | integer (value : Int)
  | float (value : Float)
  | string (text : String)
  | array (items : List Json)
  | object (members : List (String × Json))
  deriving Inhabited, BEq

namespace Json

def number? : Json → Option Float
  | .integer n => some (Float.ofInt n)
  | .float x => some x
  | _ => none

def isNull : Json → Bool
  | .null => true
  | _ => false

def members? : Json → Option (Fields Json)
  | .object members => some members
  | _ => none

def member? (node : Json) (name : String) : Option Json :=
  match node with
  | .object members => Fields.get? members name
  | _ => none

end Json

end RuleScript
