import RuleScript.Fields

/-! Programs as instruction trees. -/

set_option autoImplicit false

namespace RuleScript

/-- What a fold sends between its operands. -/
inductive Fold where
  | arithmetic
  | conjunction
  | disjunction
  deriving DecidableEq, Repr

inductive Access where
  | get
  | set
  | call
  deriving DecidableEq, Repr

/-- A node of a program. The bodies of functions and loops are held as they are. -/
inductive Instruction where
  | block (lines : List Instruction)
  | number (value : Float)
  | text (value : String)
  | truth (value : Bool)
  | date (text : String)
  | dateTime (text : String)
  | nest (value : Instruction)
  | negation (value : Instruction)
  /-- One of two branches, both present. -/
  | choice (test ok fail : Instruction)
  /-- A branch whose alternative may be missing. -/
  | branch (test ok : Instruction) (fail : Option Instruction)
  | array (items : List Instruction)
  /-- A first operand, then pairs of an operator and an operand. -/
  | fold (kind : Fold) (first : Instruction) (operands : List (String × Instruction))
  | compare (left right : Instruction) (operator : String)
  /-- A new variable of the current scope. -/
  | declaration (name : String) (value : Instruction)
  /-- The nearest binding of a name is overwritten. -/
  | assignment (name : String) (value : Instruction)
  /-- The value of a body, or no value. -/
  | result (value : Option Instruction)
  /-- Ends the nearest loop. -/
  | stop
  | object (members : List (String × Instruction))
  /-- The current scope as a value. -/
  | scope
  | access (kind : Access) (arguments : List Instruction)
  | loop (iterator : String) (list body : Instruction)
  /-- All whole steps from one number to another. -/
  | range (first last : Instruction)
  | function (name : String) (parameters : List String) (body : Instruction)
  /-- Runs its body for every match of a name in the host document. -/
  | each (name : String) (body : Instruction)
  /-- A title; its argument is kept and never evaluated. -/
  | translate (title : String) (value : Option Instruction)
  deriving Inhabited

end RuleScript
