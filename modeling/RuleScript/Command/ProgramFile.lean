import RuleScript.Program
import RuleScript.Instruction.Node
import RuleScript.Settings.Load

/-! Checking and running programs that stand in files. -/

set_option autoImplicit false

namespace RuleScript

inductive FileError where
  | unreadable (path : String)
  | malformed (path : String)
  | rejected (path : String) (reason : CompileError)
  | failed (path : String) (reason : Failure)
  /-- Evaluation was nested too deep. -/
  | tooDeep (path : String)

def FileError.message : FileError → String
  | unreadable path => "Failed to read " ++ path
  | malformed path => "Failed to parse " ++ path
  | rejected path reason => "Failed to compile " ++ path ++ ": " ++ reason.message
  | failed path reason => "Failed to run " ++ path ++ ": " ++ reason.text
  | tooDeep path => "Failed to run " ++ path ++ ": evaluation is nested too deep"

structure RunOutput where
  result : Json
  document : Json

namespace ProgramFile

section

variable {m : Type → Type} [Monad m]

def readJson (host : Host m) (path : String) : m (Except FileError Json) := do
  match ← host.read? path with
  | none => pure (.error (.unreadable path))
  | some text =>
    match Json.read? text with
    | some value => pure (.ok value)
    | none => pure (.error (.malformed path))

def compile (host : Host m) (path : String) : m (Except FileError Instruction) := do
  match ← readJson host path with
  | .error e => pure (.error e)
  | .ok tree =>
    match Instruction.compile tree with
    | .ok root => pure (.ok root)
    | .error reason => pure (.error (.rejected path reason))

def check (host : Host m) (path : String) : m (Except FileError Nat) := do
  return (← compile host path).map Instruction.size

def readDocument (host : Host m) : Option String → m (Except FileError Json)
  | some path => readJson host path
  | none => pure (.ok .null)

def runOn (path : String) (root : Instruction) (clock : Clock) (document : Json) :
    Except FileError RunOutput :=
  match Program.run ⟨root, clock, []⟩ (Memory.ofDocument document) with
  | none => .error (.tooDeep path)
  | some (.ok value, memory) => .ok ⟨value.native memory, memory.document 0⟩
  | some (.error reason, _) => .error (.failed path reason)

/-- Run a program on the document in a file, or on `null`. The program is compiled before the document is read. -/
def run (host : Host m) (path : String) (document : Option String) (clock : Clock) :
    m (Except FileError RunOutput) := do
  match ← compile host path with
  | .error e => pure (.error e)
  | .ok root =>
    match ← readDocument host document with
    | .error e => pure (.error e)
    | .ok document => pure (runOn path root clock document)

end

end ProgramFile

end RuleScript
