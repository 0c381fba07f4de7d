import RuleScript.Message

/-! Why a run of a program fails. -/

set_option autoImplicit false

namespace RuleScript

inductive Variant where
  | empty
  | number
  | text
  | bool
  | array
  | object
  | date
  | dateTime
  | closure
  | data
  | scope
  deriving DecidableEq, Repr

def Variant.name : Variant → String
  | empty => "Empty"
  | number => "Number"
  | text => "String"
  | bool => "Bool"
  | array => "Array"
  | object => "Object"
  | date => "Date"
  | dateTime => "DateTime"
  | closure => "Closure"
  | data => "Data"
  | scope => "Scope"

/-- What two values were to be joined for when their variants did not fit. -/
inductive Operation where
  | add
  | subtract
  | multiply
  | divide
  | compare
  | index
  | generate
  deriving DecidableEq, Repr

def Operation.name : Operation → String
  | add => "add"
  | subtract => "subtract"
  | multiply => "multiply"
  | divide => "divide"
  | compare => "compare"
  | index => "index"
  | generate => "generate"

/-- Why a run gives no answer at all: it stops on the spot, or it searches for ever. -/
inductive Crash where
  /-- An object is written under a key whose text has to read that object. -/
  | objectInUse
  /-- A date-time is shifted to where the clock of its offset shows no day of the calendar. -/
  | dayOutOfRange
  /-- A name is searched for up scopes that stand above themselves. -/
  | endlessSearch
  deriving DecidableEq, Repr

/-- A fatal failure; it ends the whole run. -/
inductive Failure where
  | duplicateDeclaration (name : String)
  | undeclaredVariable (name : String)
  | methodNotFound (name : String)
  | messageNotFound (message : Message) (receiver : Variant)
  | typeMismatch (operation : Operation) (left right : Variant)
  | unknownOperator (operator : String)
  | invalidDate (text : String)
  | crash (cause : Crash)
  deriving DecidableEq, Repr

def Failure.text : Failure → String
  | duplicateDeclaration name => "Variable `" ++ name ++ "` is already declared"
  | undeclaredVariable name => "Variable `" ++ name ++ "` is not declared"
  | methodNotFound name => "Method `" ++ name ++ "` not found"
  | messageNotFound message receiver =>
    "Unknown message `" ++ message.name ++ "` on type " ++ receiver.name
  | typeMismatch operation left right =>
    "Type mismatch: cannot " ++ operation.name ++ " " ++ left.name ++ " and " ++ right.name
  | unknownOperator operator => "Unknown operator `" ++ operator ++ "`"
  | invalidDate text => "Invalid date `" ++ text ++ "`"
  -- A crash says nothing.
  | crash _ => ""

end RuleScript
