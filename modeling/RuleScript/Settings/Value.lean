import RuleScript.Json.Basic
import RuleScript.Decimal.Layout
import RuleScript.Settings.Path
import RuleScript.Text.Case

/-! Values of settings: trees of tables that sources of rising priority are merged into. Names are in lower case,
however they were written. -/

set_option autoImplicit false

namespace RuleScript

inductive Setting where
  | nothing
  | bool (value : Bool)
  | integer (value : Int)
  | float (value : Float)
  | text (value : String)
  | list (items : List Setting)
  | table (entries : List (String × Setting))
  deriving Inhabited

namespace Setting

def entries : Setting → Fields Setting
  | table entries => entries
  | _ => []

def toText? : Setting → Option String
  | text s => some s
  | bool b => some (if b then "true" else "false")
  | integer n => some (toString n)
  | float x => some (Decimal.Layout.plain.write x)
  | _ => none

def ofWritten (entries : List (String × Setting)) : Setting :=
  table (Fields.ofList (entries.map fun (name, value) => (Text.toLower name, value)))

mutual

/-- A value written over an older one: a table adds its entries to it, all else replaces it. -/
def merge (old : Setting) : Setting → Setting
  | table entries => mergeAll old entries
  | value => value

/-- Entries written one after another. Only an older table keeps entries of its own. -/
def mergeAll (old : Setting) : List (String × Setting) → Setting
  | [] => old
  | (name, value) :: rest =>
    let inner := merge ((Fields.get? old.entries name).getD (table [])) value
    mergeAll (table (Fields.put old.entries name inner)) rest

end

def items : Setting → List Setting
  | list items => items
  | _ => []

def maxItems : Nat := 50000000

def place? (size : Nat) (position : Int) : Option Nat :=
  if 0 ≤ position then if position < maxItems then some position.toNat else none
  else if position.natAbs ≤ size then some (size - position.natAbs)
  else none

def changeItem (change : Setting → Option Setting) (place : Nat) (items : List Setting) :
    Option (List Setting) :=
  -- A list that is too short is filled up to the place.
  let filled := items ++ List.replicate (place + 1 - items.length) nothing
  (change (filled.getD place nothing)).map (filled.set place)

/-- Write a value at a path. What stands in the way becomes a table or a list. An item that a path ends at is
replaced, an entry is written over. -/
def writeAt? (value : Setting) : SettingPath → Setting → Option Setting
  | [], old => some (merge old value)
  | .entry name :: rest, old => do
    let inner ← writeAt? value rest ((Fields.get? old.entries name).getD (table []))
    some (table (Fields.put old.entries name inner))
  | .item position :: rest, old => do
    let place ← place? old.items.length position
    let change (item : Setting) : Option Setting :=
      if rest.isEmpty then some value else writeAt? value rest item
    some (list (← changeItem change place old.items))

mutual

def ofJson : Json → Setting
  | .null => nothing
  | .bool b => bool b
  | .integer n => if n ≤ Decimal.int64Max then integer n else float (Float.ofInt n)
  | .float x => float x
  | .string s => text s
  | .array items => list (ofJsonItems items)
  | .object members => ofWritten (ofJsonMembers members)

def ofJsonItems : List Json → List Setting
  | [] => []
  | item :: rest => ofJson item :: ofJsonItems rest

def ofJsonMembers : List (String × Json) → List (String × Setting)
  | [] => []
  | (name, value) :: rest => (name, ofJson value) :: ofJsonMembers rest

end

/-- Write the entries of a source over what earlier sources have set. The name of an entry may be a path. -/
def overlay? (old : Setting) (source : Fields Setting) : Option Setting :=
  source.foldlM (fun old (name, value) => writeAt? value (.ofText name) old) old

end Setting

end RuleScript
