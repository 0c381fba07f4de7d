import RuleScript.Json.Basic
import RuleScript.Decimal.Layout

/-! JSON text: compact, and spread over lines with two blanks for each level. -/

set_option autoImplicit false

namespace RuleScript.Json

def hexPair (code : Nat) : List Char :=
  [Nat.digitChar (code / 16), Nat.digitChar (code % 16)]

def escapeChar (c : Char) : List Char :=
  if c = '"' then ['\\', '"']
  else if c = '\\' then ['\\', '\\']
  else if c = '\n' then ['\\', 'n']
  else if c = '\r' then ['\\', 'r']
  else if c = '\t' then ['\\', 't']
  else if c.toNat = 8 then ['\\', 'b']
  else if c.toNat = 12 then ['\\', 'f']
  else if c.toNat < 32 then ['\\', 'u', '0', '0'] ++ hexPair c.toNat
  else [c]

def quote (text : String) : String :=
  "\"" ++ text.foldl (fun out c => out ++ String.ofList (escapeChar c)) "" ++ "\""

/-- A double that is no number or infinite has no JSON form and is written as `null`. -/
def floatText (x : Float) : String :=
  if x.isFinite then Decimal.Layout.json.write x else "null"

mutual

def compactTo (out : String) : Json → String
  | .null => out ++ "null"
  | .bool true => out ++ "true"
  | .bool false => out ++ "false"
  | .integer n => out ++ toString n
  | .float x => out ++ floatText x
  | .string text => out ++ quote text
  | .array items => compactItems (out ++ "[") true items ++ "]"
  | .object members => compactMembers (out ++ "\x7b") true members ++ "\x7d"

def compactItems (out : String) (first : Bool) : List Json → String
  | [] => out
  | item :: rest => compactItems (compactTo (if first then out else out ++ ",") item) false rest

def compactMembers (out : String) (first : Bool) : List (String × Json) → String
  | [] => out
  | (name, value) :: rest =>
    let start := if first then out else out ++ ","
    compactMembers (compactTo (start ++ quote name ++ ":") value) false rest

end

def compact (value : Json) : String :=
  compactTo "" value

/-- The start of a line at a level. -/
def lineAt (level : Nat) : String :=
  "\n" ++ String.ofList (List.replicate (2 * level) ' ')

mutual

def prettyTo (out : String) (level : Nat) : Json → String
  | .array [] => out ++ "[]"
  | .array (item :: rest) =>
    prettyItems (prettyTo (out ++ "[" ++ lineAt (level + 1)) (level + 1) item) level rest ++
      lineAt level ++ "]"
  | .object [] => out ++ "\x7b\x7d"
  | .object ((name, value) :: rest) =>
    prettyMembers
      (prettyTo (out ++ "\x7b" ++ lineAt (level + 1) ++ quote name ++ ": ") (level + 1) value)
      level rest ++ lineAt level ++ "\x7d"
  | value => compactTo out value

def prettyItems (out : String) (level : Nat) : List Json → String
  | [] => out
  | item :: rest =>
    prettyItems (prettyTo (out ++ "," ++ lineAt (level + 1)) (level + 1) item) level rest

def prettyMembers (out : String) (level : Nat) : List (String × Json) → String
  | [] => out
  | (name, value) :: rest =>
    prettyMembers
      (prettyTo (out ++ "," ++ lineAt (level + 1) ++ quote name ++ ": ") (level + 1) value) level rest

end

def pretty (value : Json) : String :=
  prettyTo "" 0 value

end RuleScript.Json
