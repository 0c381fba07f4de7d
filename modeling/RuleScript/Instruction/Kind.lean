import RuleScript.Instruction.Basic

/-! The kinds of instruction, their names, and the fields that each kind declares.

A field has a shape, and a shape says what its content is once it has been read. An instruction of a
kind is assembled from the contents of its fields, so the assembly cannot fail.
-/

set_option autoImplicit false

namespace RuleScript

inductive Kind where
  | block
  | number
  | text
  | truth
  | falsehood
  | date
  | dateTime
  | nest
  | negation
  | choice
  | branch
  | array
  | arithmetic
  | conjunction
  | disjunction
  | compare
  | declaration
  | assignment
  | result
  | stop
  | object
  | scope
  | get
  | set
  | call
  | loop
  | range
  | function
  | each
  | translate
  deriving DecidableEq, Repr

namespace Kind

def name : Kind → String
  | block => "Block"
  | number => "Number"
  | text => "String"
  | truth => "True"
  | falsehood => "False"
  | date => "Date"
  | dateTime => "DateTime"
  | nest => "Nest"
  | negation => "Negation"
  | choice => "When"
  | branch => "If"
  | array => "Array"
  | arithmetic => "Math"
  | conjunction => "And"
  | disjunction => "Or"
  | compare => "Compare"
  | declaration => "Variable"
  | assignment => "Assignment"
  | result => "Return"
  | stop => "Break"
  | object => "Object"
  | scope => "Scope"
  | get => "Get"
  | set => "Set"
  | call => "Call"
  | loop => "For"
  | range => "Generator"
  | function => "Function"
  | each => "Each"
  | translate => "Translate"

def all : List Kind :=
  [block, number, text, truth, falsehood, date, dateTime, nest, negation, choice, branch, array,
    arithmetic, conjunction, disjunction, compare, declaration, assignment, result, stop, object,
    scope, get, set, call, loop, range, function, each, translate]

def suffix : List Char := "Instruction".toList

def bareName (written : String) : String :=
  if suffix.isSuffixOf written.toList then
    String.ofList (written.toList.take (written.toList.length - suffix.length))
  else written

def ofName? (written : String) : Option Kind :=
  all.find? fun kind => kind.name = bareName written

end Kind

/-- What a field asks of the node it holds. -/
inductive Shape where
  | instruction
  | optionalInstruction
  /-- Absent is no instruction. -/
  | instructions
  /-- A number or a numeric text. -/
  | number
  | text
  | textOr (default : String)
  /-- A list of texts; absent is none. -/
  | names
  /-- A list of records that pair a text under `label` with an instruction; absent is none. -/
  | pairs (label : String)
  deriving DecidableEq, Repr

/-- What a field of a shape holds once it has been read. -/
def Shape.Content : Shape → Type
  | .instruction => Instruction
  | .optionalInstruction => Option Instruction
  | .instructions => List Instruction
  | .number => Float
  | .text => String
  | .textOr _ => String
  | .names => List String
  | .pairs _ => List (String × Instruction)

def Shape.expected : Shape → String
  | .instruction => "an instruction"
  | .optionalInstruction => "an instruction"
  | .instructions => "a list of instructions"
  | .number => "a number"
  | .text => "a string"
  | .textOr _ => "a string"
  | .names => "a list of names"
  | .pairs label => "a list of \x7b" ++ label ++ ", value\x7d"

structure Field where
  name : String
  shape : Shape
  deriving DecidableEq, Repr

def Contents : List Field → Type
  | [] => Unit
  | field :: rest => field.shape.Content × Contents rest

namespace Kind

def fields : Kind → List Field
  | block => [⟨"lines", .instructions⟩]
  | number => [⟨"value", .number⟩]
  | text => [⟨"value", .textOr ""⟩]
  | truth => []
  | falsehood => []
  | date => [⟨"value", .text⟩]
  | dateTime => [⟨"value", .text⟩]
  | nest => [⟨"value", .instruction⟩]
  | negation => [⟨"value", .instruction⟩]
  | choice => [⟨"test", .instruction⟩, ⟨"ok", .instruction⟩, ⟨"fail", .instruction⟩]
  | branch => [⟨"test", .instruction⟩, ⟨"ok", .instruction⟩, ⟨"fail", .optionalInstruction⟩]
  | array => [⟨"list", .instructions⟩]
  | arithmetic => [⟨"init", .instruction⟩, ⟨"list", .pairs "operator"⟩]
  | conjunction => [⟨"init", .instruction⟩, ⟨"list", .pairs "operator"⟩]
  | disjunction => [⟨"init", .instruction⟩, ⟨"list", .pairs "operator"⟩]
  | compare => [⟨"a", .instruction⟩, ⟨"b", .instruction⟩, ⟨"operator", .textOr "=="⟩]
  | declaration => [⟨"name", .text⟩, ⟨"value", .instruction⟩]
  | assignment => [⟨"id", .text⟩, ⟨"value", .instruction⟩]
  | result => [⟨"value", .optionalInstruction⟩]
  | stop => []
  | object => [⟨"members", .pairs "name"⟩]
  | scope => []
  | get => [⟨"args", .instructions⟩]
  | set => [⟨"args", .instructions⟩]
  | call => [⟨"args", .instructions⟩]
  | loop => [⟨"iterator", .text⟩, ⟨"list", .instruction⟩, ⟨"block", .instruction⟩]
  | range => [⟨"from", .instruction⟩, ⟨"to", .instruction⟩]
  | function => [⟨"name", .text⟩, ⟨"args", .names⟩, ⟨"block", .instruction⟩]
  | each => [⟨"self", .text⟩, ⟨"block", .instruction⟩]
  | translate => [⟨"title", .textOr ""⟩, ⟨"value", .optionalInstruction⟩]

def declares (kind : Kind) (field : String) : Bool :=
  kind.fields.any fun f => f.name = field

def assemble : (kind : Kind) → Contents kind.fields → Instruction
  | block, (lines, _) => .block lines
  | number, (value, _) => .number value
  | text, (value, _) => .text value
  | truth, _ => .truth true
  | falsehood, _ => .truth false
  | date, (value, _) => .date value
  | dateTime, (value, _) => .dateTime value
  | nest, (value, _) => .nest value
  | negation, (value, _) => .negation value
  | choice, (test, ok, fail, _) => .choice test ok fail
  | branch, (test, ok, fail, _) => .branch test ok fail
  | array, (items, _) => .array items
  | arithmetic, (first, operands, _) => .fold .arithmetic first operands
  | conjunction, (first, operands, _) => .fold .conjunction first operands
  | disjunction, (first, operands, _) => .fold .disjunction first operands
  | compare, (left, right, operator, _) => .compare left right operator
  | declaration, (name, value, _) => .declaration name value
  | assignment, (name, value, _) => .assignment name value
  | result, (value, _) => .result value
  | stop, _ => .stop
  | object, (members, _) => .object members
  | scope, _ => .scope
  | get, (arguments, _) => .access .get arguments
  | set, (arguments, _) => .access .set arguments
  | call, (arguments, _) => .access .call arguments
  | loop, (iterator, list, body, _) => .loop iterator list body
  | range, (first, last, _) => .range first last
  | function, (name, parameters, body, _) => .function name parameters body
  | each, (name, body, _) => .each name body
  | translate, (title, value, _) => .translate title value

end Kind

namespace Instruction

def kind : Instruction → Kind
  | block _ => .block
  | number _ => .number
  | text _ => .text
  | truth true => .truth
  | truth false => .falsehood
  | date _ => .date
  | dateTime _ => .dateTime
  | nest _ => .nest
  | negation _ => .negation
  | choice .. => .choice
  | branch .. => .branch
  | array _ => .array
  | fold .arithmetic .. => .arithmetic
  | fold .conjunction .. => .conjunction
  | fold .disjunction .. => .disjunction
  | compare .. => .compare
  | declaration .. => .declaration
  | assignment .. => .assignment
  | result _ => .result
  | stop => .stop
  | object _ => .object
  | scope => .scope
  | access .get _ => .get
  | access .set _ => .set
  | access .call _ => .call
  | loop .. => .loop
  | range .. => .range
  | function .. => .function
  | each .. => .each
  | translate .. => .translate

/-- The contents of the fields, the ones that `Kind.assemble` makes the instruction from. -/
def contents : (instruction : Instruction) → Contents instruction.kind.fields
  | block lines => (lines, ())
  | number value => (value, ())
  | text value => (value, ())
  | truth true => ()
  | truth false => ()
  | date value => (value, ())
  | dateTime value => (value, ())
  | nest value => (value, ())
  | negation value => (value, ())
  | choice test ok fail => (test, ok, fail, ())
  | branch test ok fail => (test, ok, fail, ())
  | array items => (items, ())
  | fold .arithmetic first operands => (first, operands, ())
  | fold .conjunction first operands => (first, operands, ())
  | fold .disjunction first operands => (first, operands, ())
  | compare left right operator => (left, right, operator, ())
  | declaration name value => (name, value, ())
  | assignment name value => (name, value, ())
  | result value => (value, ())
  | stop => ()
  | object members => (members, ())
  | scope => ()
  | access .get arguments => (arguments, ())
  | access .set arguments => (arguments, ())
  | access .call arguments => (arguments, ())
  | loop iterator list body => (iterator, list, body, ())
  | range first last => (first, last, ())
  | function name parameters body => (name, parameters, body, ())
  | each name body => (name, body, ())
  | translate title value => (title, value, ())

theorem assemble_contents (instruction : Instruction) :
    instruction.kind.assemble instruction.contents = instruction := by
  cases instruction with
  | truth value => cases value <;> rfl
  | fold kind _ _ => cases kind <;> rfl
  | access kind _ => cases kind <;> rfl
  | _ => rfl

end Instruction

end RuleScript
