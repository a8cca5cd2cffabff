import ScriptSandbox.Embedding
import ScriptSandbox.Main
import ScriptSandbox.Proofs.Expression.Arrangement
import ScriptSandbox.Proofs.Expression.Indices
import ScriptSandbox.Proofs.Expression.Postfix
import ScriptSandbox.Proofs.Expression.Precedence
import ScriptSandbox.Proofs.Host.Refinement
import ScriptSandbox.Proofs.Number.Prefixes
import ScriptSandbox.Proofs.Number.Rounding
import ScriptSandbox.Proofs.Run.Break
import ScriptSandbox.Proofs.Run.CallSites
import ScriptSandbox.Proofs.Run.Calls
import ScriptSandbox.Proofs.Run.Ceiling
import ScriptSandbox.Proofs.Run.Comments
import ScriptSandbox.Proofs.Run.Coverage
import ScriptSandbox.Proofs.Run.Drawing
import ScriptSandbox.Proofs.Run.Failures
import ScriptSandbox.Proofs.Run.Finality
import ScriptSandbox.Proofs.Run.Passes
import ScriptSandbox.Proofs.Run.Records
import ScriptSandbox.Proofs.Run.Termination
import ScriptSandbox.Proofs.Run.Unread
import ScriptSandbox.Proofs.Statement.Heads
import ScriptSandbox.Proofs.Statement.RoundTrip
import ScriptSandbox.Proofs.Value.Comparison
import ScriptSandbox.Proofs.Value.Stability
