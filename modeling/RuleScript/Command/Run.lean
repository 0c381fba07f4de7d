import RuleScript.Command.Arguments
import RuleScript.Command.ProgramFile

/-! Running the command line: what is printed, and the exit code. -/

set_option autoImplicit false

namespace RuleScript

inductive Outcome where
  | printed (text : String)
  | failed (message : String)
  | usage
  /-- The settings cannot be set at all. -/
  | aborted (reason : SettingsError)
  | crashed (cause : Crash)
  deriving DecidableEq, Repr

def Outcome.exitCode : Outcome → Nat
  | printed _ => 0
  | failed _ => 1
  | usage => 2
  | aborted _ | crashed _ => 101

namespace Invocation

variable {m : Type → Type} [Monad m]

def request (invocation : Invocation) : SettingsRequest :=
  match invocation.command with
  | .run r => ⟨invocation.settings, r.clock, r.zone, none⟩
  | .check _ => ⟨invocation.settings, none, none, none⟩

def report (request : RunRequest) (output : RunOutput) : String :=
  output.result.pretty ++ "\n" ++ if request.printDocument then output.document.pretty ++ "\n" else ""

/-- Load the settings, then carry the command out. `present` is the moment taken if no clock is set. -/
def perform (host : Host m) (present : String) (invocation : Invocation) : m Outcome := do
  match ← Settings.load host invocation.request with
  | .error (.unreadable path) => pure (.failed (SettingsError.unreadable path).message)
  | .error e => pure (.aborted e)
  | .ok settings =>
    match invocation.command with
    | .check program =>
      match ← ProgramFile.check host program with
      | .ok size => pure (.printed (program ++ ": ok (" ++ toString size ++ " instructions)\n"))
      | .error e => pure (.failed e.message)
    | .run request =>
      let clock : Clock := ⟨settings.clock.getD present, settings.zone⟩
      match ← ProgramFile.run host request.program request.document clock with
      | .ok output => pure (.printed (report request output))
      | .error (.failed _ (.crash cause)) => pure (.crashed cause)
      | .error e => pure (.failed e.message)

end Invocation

def helpText : String :=
  "Evaluate rule programs against JSON contexts\n\n" ++
  "Usage: verdict [--config <CONFIG>] <COMMAND>\n\n" ++
  "Commands:\n" ++
  "  run <PROGRAM>    Compile a parse tree and run it\n" ++
  "                   [-c, --context <CONTEXT>] [--clock <CLOCK>] [--timezone <TIMEZONE>]\n" ++
  "                   [--print-context]\n" ++
  "  check <PROGRAM>  Compile a parse tree without running it\n"

def runCommand {m : Type → Type} [Monad m] (host : Host m) (present : String)
    (arguments : List String) : m Outcome :=
  match Arguments.read? none arguments with
  | none => pure .usage
  | some .help => pure (.printed helpText)
  | some (.invoke invocation) => invocation.perform host present

end RuleScript
