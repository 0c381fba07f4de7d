import RuleScript.Main
import RuleScript.Command.Directory
import RuleScript.Proofs.Scope.Recycling
import RuleScript.Proofs.Run.Escape
import RuleScript.Proofs.Instruction.Grammar
import RuleScript.Proofs.Instruction.Rendering
import RuleScript.Proofs.Run.Settling
import RuleScript.Proofs.Run.Agreement
import RuleScript.Proofs.Run.Sequential
import RuleScript.Proofs.Value.Alike
import RuleScript.Proofs.Value.HostForm
import RuleScript.Proofs.Library.Alike
import RuleScript.Proofs.Instruction.Reading
import RuleScript.Proofs.Scope.Alike
import RuleScript.Proofs.Run.Alongside
import RuleScript.Proofs.Run.Mirroring
import RuleScript.Proofs.Run.Together
import RuleScript.Proofs.Run.Keeping
import RuleScript.Proofs.Run.Unseen
import RuleScript.Proofs.Run.Depth
import RuleScript.Proofs.Value.Closed
import RuleScript.Proofs.Run.Closed
import RuleScript.Proofs.Run.Ending
import RuleScript.Proofs.Run.Finite
import RuleScript.Proofs.Run.FunctionFree
import RuleScript.Proofs.Document.Writing
import RuleScript.Proofs.Scope.Binding
import RuleScript.Proofs.Run.Declaring
import RuleScript.Proofs.Value.Growing
import RuleScript.Proofs.Run.WriteFree
import RuleScript.Proofs.Value.Rendering
import RuleScript.Proofs.Document.Copying
import RuleScript.Proofs.Document.Searching
import RuleScript.Proofs.Run.BreakFree
import RuleScript.Proofs.Run.Calling
import RuleScript.Proofs.Run.Rounds
import RuleScript.Proofs.Run.Folding
import RuleScript.Proofs.Library.Extremes
import RuleScript.Proofs.Value.DayBounds
import RuleScript.Proofs.Value.Rereading
import RuleScript.Proofs.Library.Missing
import RuleScript.Proofs.Decimal.Exact
import RuleScript.Proofs.Library.Joining
import RuleScript.Proofs.Value.Sending
import RuleScript.Proofs.Instruction.Editing
import RuleScript.Proofs.Value.Padding
import RuleScript.Proofs.Scope.Marking
import RuleScript.Proofs.Scope.Misuse
import RuleScript.Proofs.Document.Projecting
import RuleScript.Proofs.Decimal.Doubles
import RuleScript.Proofs.Library.Numbers
import RuleScript.Proofs.Calendar.Following
import RuleScript.Proofs.Value.DayShifts
import RuleScript.Proofs.Run.Nodes
import RuleScript.Proofs.Instruction.Counting
