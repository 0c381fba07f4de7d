import RuleScript.Proofs.Instruction.Parts
import RuleScript.Value.Basic

/-! Literals whose members only read.

The members of a literal run together. Where there are two or more, a program may ask of them that they write no
variable and no host data, run no body of a function or loop, and call nothing but what the host gives.
-/

set_option autoImplicit false

namespace RuleScript

namespace Instruction

def declares : Instruction → List String
  | declaration name _ => [name]
  | function name parameters _ => name :: parameters
  | loop iterator _ _ => [iterator]
  | _ => []

def Declares (root : Instruction) (name : String) : Prop :=
  ∃ node, root.Contains node ∧ name ∈ node.declares

/-- Whether a node may stand in a member that only reads. The one call that may is of a literal name, with the current
scope as its target, and of a name that is not declared. -/
def ReadsOnly (declared : String → Prop) : Instruction → Prop
  | declaration .. | assignment .. | access .set _ | function .. | loop .. | each .. => False
  | access .call arguments => ∃ name rest, arguments = .scope :: .text name :: rest ∧ ¬ declared name
  | _ => True

def literalMembers : Instruction → List Instruction
  | array items => items
  | object members => members.map Prod.snd
  | _ => []

/-- Whether the members of a literal, if there are two or more, only read. -/
def LiteralReads (declared : String → Prop) (node : Instruction) : Prop :=
  2 ≤ node.literalMembers.length →
    ∀ member ∈ node.literalMembers, ∀ inner, member.Contains inner → inner.ReadsOnly declared

/-- An instruction all of whose declarations are known and all of whose literals have members that only read. It only
reads itself where it is run `together` with others, in their scope. -/
structure Tame (declared : String → Prop) (together : Option ScopeId) (instruction : Instruction) : Prop where
  known : ∀ node, instruction.Contains node → ∀ name ∈ node.declares, declared name
  literals : ∀ node, instruction.Contains node → node.LiteralReads declared
  reads : together ≠ none → ∀ node, instruction.Contains node → node.ReadsOnly declared

namespace Tame

variable {declared : String → Prop} {together : Option ScopeId} {instruction inner : Instruction}

theorem part (tame : instruction.Tame declared together) (member : inner ∈ instruction.parts) :
    inner.Tame declared together where
  known node inside := tame.known node (.part member inside)
  literals node inside := tame.literals node (.part member inside)
  reads others node inside := tame.reads others node (.part member inside)

theorem free (tame : instruction.Tame declared together) : instruction.Tame declared none where
  known := tame.known
  literals := tame.literals
  reads none := absurd rfl none

theorem node (tame : instruction.Tame declared together) (others : together ≠ none) :
    instruction.ReadsOnly declared :=
  tame.reads others instruction .self

theorem members (tame : instruction.Tame declared together) (parts : instruction.literalMembers = instruction.parts)
    (many : 2 ≤ instruction.parts.length) (scope : ScopeId) :
    ∀ member ∈ instruction.parts, member.Tame declared (some scope) := by
  intro member inside
  have part := tame.part inside
  refine ⟨part.known, part.literals, fun _ => ?_⟩
  exact tame.literals instruction .self (by rwa [parts]) member (by rwa [parts])

end Tame

end Instruction

def Closure.Tame (declared : String → Prop) (closure : Closure) : Prop :=
  (∀ name ∈ closure.parameters, declared name) ∧ closure.body.Tame declared none

end RuleScript
