import ScriptSandbox.Fault
import ScriptSandbox.Number.Arithmetic
import ScriptSandbox.Number.Literal

/-!
What decides how a run goes on: whether it has halted, and how many blocks and calls are active.
The halt payload is kept as text and only turned into a number for the exit code.
-/

namespace ScriptSandbox

structure Control where
  payload : Option String
  depth : Nat
  limit : Nat

namespace Control

/-- The ceiling on active blocks and calls when none is given. -/
def defaultLimit : Nat := 5000

/-- The payload of a run that an error halted. -/
def errorPayload : String := "1"

def start (limit : Nat) : Control := ⟨none, 0, limit⟩

def reset (control : Control) : Control :=
  { control with payload := none, depth := 0 }

def isHalted (control : Control) : Bool :=
  control.payload.isSome

def halt (control : Control) (payload : String) : Control :=
  { control with payload := some payload }

/-- Counts one more active block. Beyond the ceiling this fails, and the count stays raised. -/
def enter (control : Control) (line : Nat) : Except Fault Unit × Control :=
  let raised := { control with depth := control.depth + 1 }
  if control.limit < control.depth + 1 then (.error (.tooDeep line control.limit), raised)
  else (.ok (), raised)

def leave (control : Control) : Control :=
  { control with depth := control.depth - 1 }

def setDepth (control : Control) (depth : Nat) : Control :=
  { control with depth }

def leastCode : Int := -2147483648

def greatestCode : Int := 2147483647

/-- A rounded number as an exit code, kept within 32 bits. -/
def codeOf : Number → Int
  | .nan => 0
  | .infinite negative => if negative then leastCode else greatestCode
  | .finite negative rank =>
      max leastCode (min greatestCode (Number.wholePart (.finite negative rank)))

/-- The exit code: the number the payload starts with, rounded, or 0. -/
def exitCode (control : Control) : Int :=
  match control.payload with
  | none => 0
  | some payload => codeOf (Number.ofTextStart payload).round

end Control

end ScriptSandbox
