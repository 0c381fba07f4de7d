import RuleScript.Instruction.Basic

/-! How many instructions a program has, and how deep they are nested. -/

set_option autoImplicit false

namespace RuleScript.Instruction

mutual

/-- The nodes that can be evaluated. The argument of a title never is, so it is not counted. -/
def size : Instruction → Nat
  | block items | array items | access _ items => 1 + sizeOfAll items
  | nest value | negation value | declaration _ value | assignment _ value => 1 + value.size
  | choice test ok fail => 1 + test.size + ok.size + fail.size
  | branch test ok fail => 1 + test.size + ok.size + sizeOfOption fail
  | fold _ first operands => 1 + first.size + sizeOfPairs operands
  | compare left right _ => 1 + left.size + right.size
  | result value => 1 + sizeOfOption value
  | object members => 1 + sizeOfPairs members
  | loop _ list body => 1 + list.size + body.size
  | range first last => 1 + first.size + last.size
  | function _ _ body => 1 + body.size
  | each _ body => 1 + body.size
  | number _ | text _ | truth _ | date _ | dateTime _ | stop | scope | translate _ _ => 1

def sizeOfAll : List Instruction → Nat
  | [] => 0
  | item :: rest => item.size + sizeOfAll rest

def sizeOfPairs : List (String × Instruction) → Nat
  | [] => 0
  | (_, value) :: rest => value.size + sizeOfPairs rest

def sizeOfOption : Option Instruction → Nat
  | none => 0
  | some value => value.size

end

mutual

def depth : Instruction → Nat
  | block items | array items | access _ items => 1 + depthOfAll items
  | nest value | negation value | declaration _ value | assignment _ value => 1 + value.depth
  | choice test ok fail => 1 + max test.depth (max ok.depth fail.depth)
  | branch test ok fail => 1 + max test.depth (max ok.depth (depthOfOption fail))
  | fold _ first operands => 1 + max first.depth (depthOfPairs operands)
  | compare left right _ => 1 + max left.depth right.depth
  | result value => 1 + depthOfOption value
  | object members => 1 + depthOfPairs members
  | loop _ list body => 1 + max list.depth body.depth
  | range first last => 1 + max first.depth last.depth
  | function _ _ body => 1 + body.depth
  | each _ body => 1 + body.depth
  | number _ | text _ | truth _ | date _ | dateTime _ | stop | scope | translate _ _ => 1

def depthOfAll : List Instruction → Nat
  | [] => 0
  | item :: rest => max item.depth (depthOfAll rest)

def depthOfPairs : List (String × Instruction) → Nat
  | [] => 0
  | (_, value) :: rest => max value.depth (depthOfPairs rest)

def depthOfOption : Option Instruction → Nat
  | none => 0
  | some value => value.depth

end

end RuleScript.Instruction
