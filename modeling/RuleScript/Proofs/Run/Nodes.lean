import Mathlib.Algebra.GroupWithZero.Nat
import RuleScript.Proofs.Run.BreakFree

/-! The nodes of a program.

They are all that evaluation can come to: the program, the parts that it may evaluate, the parts that these may
evaluate, and so on. The size of a program is their number. In a run no process evaluates anything else, but for the
closures that a library shares.
-/

set_option autoImplicit false

namespace RuleScript

namespace Instruction

/-- An instruction and all that stand in it and may be evaluated, each as often as it stands there. -/
def nodes (instruction : Instruction) : List Instruction :=
  instruction :: instruction.evaluated.attach.flatMap fun part => part.1.nodes
termination_by sizeOf instruction
decreasing_by exact sizeOf_part (mem_parts_of_evaluated part.2)

theorem nodes_eq (instruction : Instruction) :
    instruction.nodes = instruction :: instruction.evaluated.flatMap nodes := by
  rw [nodes]
  simp

theorem self_mem_nodes (instruction : Instruction) : instruction ∈ instruction.nodes := by
  rw [nodes_eq]
  exact .head _

theorem mem_nodes_of_evaluated {root node part : Instruction} (inside : node ∈ root.nodes)
    (member : part ∈ node.evaluated) : part ∈ root.nodes := by
  induction root using parts_induction with
  | step root ih =>
    rw [nodes_eq] at inside ⊢
    refine .tail _ (List.mem_flatMap.mpr ?_)
    obtain rfl | inside := List.mem_cons.mp inside
    · exact ⟨part, member, part.self_mem_nodes⟩
    · obtain ⟨above, stands, inside⟩ := List.mem_flatMap.mp inside
      exact ⟨above, stands, ih above (mem_parts_of_evaluated stands) inside⟩

theorem sizeOfAll_eq (items : List Instruction) : sizeOfAll items = (items.map size).sum := by
  induction items with
  | nil => rfl
  | cons item rest ih => rw [sizeOfAll, ih, List.map_cons, List.sum_cons]

theorem sizeOfPairs_eq (pairs : List (String × Instruction)) :
    sizeOfPairs pairs = ((pairs.map Prod.snd).map size).sum := by
  induction pairs with
  | nil => rfl
  | cons pair rest ih => rw [sizeOfPairs, ih, List.map_cons, List.map_cons, List.sum_cons]

theorem sizeOfOption_eq (value : Option Instruction) : sizeOfOption value = (value.toList.map size).sum := by
  cases value <;> rfl

theorem size_eq (instruction : Instruction) : instruction.size = 1 + (instruction.evaluated.map size).sum := by
  cases instruction with
  | block | array | access => simp only [size, sizeOfAll_eq, evaluated, parts]
  | object => simp only [size, sizeOfPairs_eq, evaluated, parts]
  | fold => simp only [size, sizeOfPairs_eq, evaluated, parts, List.map_cons, List.sum_cons, Nat.add_assoc]
  | result => simp only [size, sizeOfOption_eq, evaluated, parts]
  | branch =>
    simp only [size, sizeOfOption_eq, evaluated, parts, List.map_cons, List.sum_cons, Nat.add_assoc]
  | _ => simp [size, evaluated, parts, Nat.add_assoc]

/-- The size of an instruction is the number of its nodes. -/
theorem size_eq_length_nodes (instruction : Instruction) : instruction.size = instruction.nodes.length := by
  induction instruction using parts_induction with
  | step instruction ih =>
    have parts : instruction.evaluated.map size = instruction.evaluated.map fun part => part.nodes.length :=
      List.map_congr_left fun part member => ih part (mem_parts_of_evaluated member)
    rw [size_eq, parts, nodes_eq, List.length_cons, List.length_flatMap, Nat.add_comm]

end Instruction

def Program.code (program : Program) : Code where
  has node := node ∈ program.root.nodes
  parts _ inside _ member := Instruction.mem_nodes_of_evaluated inside member

section Runs

variable {program : Program} {document : Json} {process : Process} {machine : Machine} {instruction : Instruction}
  {scope : ScopeId}

theorem Process.Runs.mem_of_evaluating {code : Code} (runs : (Process.evaluating instruction scope).Runs code) :
    instruction ∈ code := by
  cases runs with
  | evaluating inside => exact inside

/-- A run evaluates nothing but the nodes of its program. -/
theorem Program.mem_nodes_of_visits (visits : program.Visits document (process, machine))
    (involves : process.Involves (.evaluating instruction scope)) : instruction ∈ program.code := by
  have starts : (program.start (.ofDocument document)).2.Calls program.code :=
    start_holds (fun _ _ => trivial) trivial (.ofDocument document)
  obtain ⟨-, runs⟩ := visits.runs starts (.evaluating program.root.self_mem_nodes)
  exact (runs.involves involves).mem_of_evaluating

end Runs

end RuleScript
