import Std.Time.DateTime.Timestamp
import RuleScript.Command.Run

/-! The command line on a real file system. -/

set_option autoImplicit false

namespace RuleScript

def splitVariable (text : String) : String × String :=
  let name := text.toList.takeWhile (· != '=')
  (String.ofList name, String.ofList (text.toList.drop (name.length + 1)))

def readText? (path : String) : IO (Option String) := do
  try
    return some (← IO.FS.readFile path)
  catch _ =>
    return none

def processVariables : IO Environment.Variables := do
  let text := (← readText? "/proc/self/environ").getD ""
  return ((text.splitOn "\x00").filter fun entry => !entry.isEmpty).map splitVariable

def presentText : IO String := do
  let now ← Std.Time.Timestamp.now
  let nanos := now.toNanosecondsSinceUnixEpoch.val
  let seconds := nanos / Calendar.nanosPerSecond
  return Calendar.Instant.text ⟨seconds, (nanos % Calendar.nanosPerSecond).toNat, 0⟩

end RuleScript

open RuleScript in
def main (arguments : List String) : IO UInt32 := do
  let host : Host IO := ⟨readText?, ← processVariables⟩
  let outcome ← runCommand host (← presentText) arguments
  match outcome with
  | .printed text => IO.print text
  | .failed message => IO.eprintln ("Error: " ++ message)
  | .usage => IO.eprint helpText
  | .aborted reason => IO.eprintln reason.message
  | .crashed _ => pure ()
  return outcome.exitCode.toUInt32
