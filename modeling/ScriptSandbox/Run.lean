import ScriptSandbox.Interpreter

/-!
A whole run: a program on a fresh machine, and what it reports to its host.
-/

namespace ScriptSandbox

structure Report where
  exitCode : Int
  elapsed : Number

/-- More fuel than any run gets to use. -/
def ampleFuel : Nat := twoTo 62

/-- Runs a program with a ceiling on active blocks; the clock is read once more at the end. -/
def run (fuel limit : Nat) (source : String) (host : Host) : Option (Report × Host) :=
  match Interpreter.runProgram (Interpreter.execute fuel) source (Machine.start limit host) with
  | none => none
  | some machine =>
      let (elapsed, read) := machine.elapsed
      some (⟨machine.control.exitCode, elapsed⟩, read.host)

def exitBanner (code : Int) : String :=
  "[ Exited application with code " ++ toString code ++ " ]"

end ScriptSandbox
