import RuleScript.Evaluation.Step
import RuleScript.Instruction.Size

/-! Programs: an instruction tree with the clock and the libraries that it runs with. -/

set_option autoImplicit false

namespace RuleScript

structure Program where
  root : Instruction
  clock : Clock
  /-- Host libraries in import order; the standard library comes after them. -/
  libraries : List Library

/-- How much deeper than the program itself its evaluation may be nested, through calls in calls. -/
def maxDepth : Nat := 100000

def Arena.importAll (arena : Arena) (scope : ScopeId) (libraries : List Library) : Arena :=
  libraries.foldl (fun arena library => arena.importLibrary scope library) arena

namespace Program

def start (program : Program) (memory : Memory) : ScopeId × Machine :=
  let (root, arena) := Arena.empty.root (some ⟨0, []⟩)
  (root, ⟨arena.importAll root (program.libraries ++ [.standard]), memory⟩)

/-- Run on the documents in memory. The memory after the run holds what the program wrote, also if the run
failed; `none` means that evaluation was nested too deep. -/
def run (program : Program) (memory : Memory) : Option (Except Failure Value × Memory) :=
  let (root, machine) := program.start memory
  let depth := program.root.depth + maxDepth
  ((evaluate program.clock depth program.root root).perform machine).map
    fun (result, machine) => (result.map Flow.toValue, machine.memory)

end Program

end RuleScript
