import ScriptSandbox.Machine
import ScriptSandbox.Statement.Parse

/-!
The commands of the language and what a statement asks of the body it stands in. Any other command
is the call of a declared function.
-/

namespace ScriptSandbox

/-- How a body goes on after a statement. -/
inductive Flow where
  | next
  | leave
deriving DecidableEq

/-- A command that runs no other statement. -/
inductive PlainCommand where
  | assign
  | leaveBody
  | comment
  | declare
  | draw
  | exit
  | log
  | save
deriving DecidableEq

inductive Command where
  | plain (command : PlainCommand)
  | ifBlock
  | loopBlock
  | whileBlock
  | nested
deriving DecidableEq

def Command.ofName? : String → Option Command
  | "break" => some (.plain .leaveBody)
  | "#" => some (.plain .comment)
  | "eval" => some .nested
  | "exit" => some (.plain .exit)
  | "func" => some (.plain .declare)
  | "if" => some .ifBlock
  | "log" => some (.plain .log)
  | "loop" => some .loopBlock
  | "rend" => some (.plain .draw)
  | "fnl:idbSet" => some (.plain .save)
  | "var" => some (.plain .assign)
  | "while" => some .whileBlock
  | _ => none

/-- What a statement leaves behind: how its body goes on, or the fault that stopped it. -/
abbrev Outcome := Except Fault Flow × Machine

namespace Statement

/-- The statements of the block whose opening brace stands at a place. -/
def bodyStatements (statement : Statement) (opening : Nat) : Except Fault (List Statement) :=
  match statement.body? opening with
  | some text => parse text
  | none => .error (.malformed statement.line .unwrappedBody)

end Statement

end ScriptSandbox
