import RuleScript.Instruction.Kind
import RuleScript.Json.Printer
import RuleScript.Decimal.Numeral

/-! Trees of host data read as programs.

An object that names a type is an instruction of that kind: its other keys must be fields of the kind,
and each field must have its shape. All other data stays what it is, read member by member.
-/

set_option autoImplicit false

namespace RuleScript

/-- Why a tree is no program. -/
inductive CompileError where
  | unknownInstruction (name : String)
  | unknownField (instruction field : String)
  | missingField (instruction field : String)
  | invalidField (instruction field : String) (shape : Shape)
  | notAnInstruction
  deriving DecidableEq, Repr

def CompileError.message : CompileError → String
  | unknownInstruction name => "Can't find instruction `" ++ name ++ "`"
  | unknownField instruction field =>
    "Instruction `" ++ instruction ++ "` doesn't have property `" ++ field ++ "`"
  | missingField instruction field =>
    "Instruction `" ++ instruction ++ "` is missing property `" ++ field ++ "`"
  | invalidField instruction field shape =>
    "Property `" ++ field ++ "` of instruction `" ++ instruction ++ "` must be " ++ shape.expected
  | notAnInstruction => "Program root must be an instruction or a list of instructions"

inductive Node where
  | null
  | bool (value : Bool)
  | number (value : Float)
  | text (value : String)
  | list (items : List Node)
  /-- An object that names no type. -/
  | record (members : List (String × Node))
  | instruction (value : Instruction)
  deriving Inhabited

namespace Node

def instruction? : Node → Option Instruction
  | instruction value => some value
  | _ => none

def text? : Node → Option String
  | text value => some value
  | _ => none

def number? : Node → Option Float
  | number value => some value
  | text value => Decimal.readFloat? (Text.trim value.toList)
  | _ => none

def listOf? {α : Type} (item? : Node → Option α) : Node → Option (List α)
  | list items => items.mapM item?
  | _ => none

def pair? (label : String) : Node → Option (String × Instruction)
  | record members => do
    let name ← (Fields.get? members label).bind text?
    let value ← (Fields.get? members "value").bind instruction?
    some (name, value)
  | _ => none

end Node

/-- A node that is there; `null` counts as absent. -/
def present? : Option Node → Option Node
  | some .null => none
  | node => node

/-- What a shape says of a field that is absent, `none` if the field is required. -/
def Shape.absent? : (shape : Shape) → Option shape.Content
  | .instruction => none
  | .optionalInstruction => some (none : Option Instruction)
  | .instructions => some ([] : List Instruction)
  | .number => none
  | .text => none
  | .textOr default => some default
  | .names => some ([] : List String)
  | .pairs _ => some ([] : List (String × Instruction))

/-- The content of a field that holds `node`, `none` if the node has another shape. -/
def Shape.content? (node : Node) : (shape : Shape) → Option shape.Content
  | .instruction => node.instruction?
  | .optionalInstruction => node.instruction?.map (some : Instruction → Option Instruction)
  | .instructions => node.listOf? Node.instruction?
  | .number => node.number?
  | .text => node.text?
  | .textOr _ => node.text?
  | .names => node.listOf? Node.text?
  | .pairs label => node.listOf? (Node.pair? label)

def Field.read (instruction : String) (values : Fields Node) (field : Field) :
    Except CompileError field.shape.Content :=
  match present? (Fields.get? values field.name) with
  | none =>
    -- Only fields that may be missing say what they are then.
    match field.shape.absent? with
    | some content => .ok content
    | none => .error (.missingField instruction field.name)
  | some node =>
    match field.shape.content? node with
    | some content => .ok content
    | none => .error (.invalidField instruction field.name field.shape)

def Contents.read (instruction : String) (values : Fields Node) :
    (fields : List Field) → Except CompileError (Contents fields)
  | [] => .ok ()
  | field :: rest =>
    match field.read instruction values with
    | .error e => .error e
    | .ok content =>
      match Contents.read instruction values rest with
      | .error e => .error e
      | .ok contents => .ok (content, contents)

def Kind.ofType (type : Json) : Except CompileError (String × Kind) :=
  match type with
  | .string name =>
    match Kind.ofName? name with
    | some kind => .ok (name, kind)
    | none => .error (.unknownInstruction name)
  | other => .error (.unknownInstruction other.compact)

mutual

def Node.build : Json → Except CompileError Node
  | .null => .ok .null
  | .bool value => .ok (.bool value)
  | .integer n => .ok (.number (Float.ofInt n))
  | .float x => .ok (.number x)
  | .string value => .ok (.text value)
  | .array items =>
    match Node.buildItems items with
    | .error e => .error e
    | .ok nodes => .ok (.list nodes)
  | .object members =>
    match Fields.get? members "type" with
    | none =>
      match Node.buildMembers none members with
      | .error e => .error e
      | .ok nodes => .ok (.record nodes)
    | some type =>
      match Kind.ofType type with
      | .error e => .error e
      | .ok (name, kind) =>
        match Node.buildMembers (some (name, kind)) members with
        | .error e => .error e
        | .ok values =>
          match Contents.read name values kind.fields with
          | .error e => .error e
          | .ok contents => .ok (.instruction (kind.assemble contents))

def Node.buildItems : List Json → Except CompileError (List Node)
  | [] => .ok []
  | item :: rest =>
    match Node.build item with
    | .error e => .error e
    | .ok node =>
      match Node.buildItems rest with
      | .error e => .error e
      | .ok nodes => .ok (node :: nodes)

/-- The members of an object, in order. In an instruction the `type` key is left out, and a key that
its kind does not declare ends the reading. -/
def Node.buildMembers (owner : Option (String × Kind)) :
    List (String × Json) → Except CompileError (List (String × Node))
  | [] => .ok []
  | (key, value) :: rest =>
    match owner with
    | some (name, kind) =>
      if key = "type" then Node.buildMembers owner rest
      else if kind.declares key then
        match Node.build value with
        | .error e => .error e
        | .ok node =>
          match Node.buildMembers owner rest with
          | .error e => .error e
          | .ok nodes => .ok ((key, node) :: nodes)
      else .error (.unknownField name key)
    | none =>
      match Node.build value with
      | .error e => .error e
      | .ok node =>
        match Node.buildMembers owner rest with
        | .error e => .error e
        | .ok nodes => .ok ((key, node) :: nodes)

end

/-- The program that a tree holds: one instruction, or a list of instructions that run as a block. -/
def Instruction.compile (tree : Json) : Except CompileError Instruction :=
  match Node.build tree with
  | .error e => .error e
  | .ok (.instruction root) => .ok root
  | .ok (.list items) =>
    match items.mapM Node.instruction? with
    | some lines => .ok (.block lines)
    | none => .error .notAnInstruction
  | .ok _ => .error .notAnInstruction

end RuleScript
