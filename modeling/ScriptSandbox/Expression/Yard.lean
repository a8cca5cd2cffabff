import ScriptSandbox.Expression.Code

/-!
The reordering of an infix expression into items with the operators after their operands. Operators
wait in the yard until one that binds no tighter, a closing parenthesis or the end sends them on.
-/

namespace ScriptSandbox

inductive Waiting where
  | operator (operator : Operator)
  | parenthesis
deriving DecidableEq

/-- Items already in order and what waits behind them, both newest first. -/
structure Yard where
  output : List Item
  waiting : List Waiting

namespace Yard

def empty : Yard := ⟨[], []⟩

def operand (yard : Yard) (item : Item) : Yard :=
  { yard with output := item :: yard.output }

/-- Sends on the waiting operators that bind at least as tightly as the new one. -/
def release (arriving : Operator) (output : List Item) : List Waiting → Yard
  | .operator top :: rest =>
      if top.precedence < arriving.precedence then ⟨output, .operator top :: rest⟩
      else release arriving (.operator top :: output) rest
  | waiting => ⟨output, waiting⟩

def operator (yard : Yard) (arriving : Operator) : Yard :=
  let released := release arriving yard.output yard.waiting
  { released with waiting := .operator arriving :: released.waiting }

def opening (yard : Yard) : Yard :=
  { yard with waiting := .parenthesis :: yard.waiting }

/-- Sends on the operators since the last open parenthesis; `none` when there is none. -/
def closeFrom (output : List Item) : List Waiting → Option Yard
  | [] => none
  | .parenthesis :: rest => some ⟨output, rest⟩
  | .operator top :: rest => closeFrom (.operator top :: output) rest

def closing? (yard : Yard) : Option Yard :=
  closeFrom yard.output yard.waiting

/-- Sends on everything that waits; `none` when a parenthesis is still open. -/
def drain (output : List Item) : List Waiting → Option (List Item)
  | [] => some output.reverse
  | .parenthesis :: _ => none
  | .operator top :: rest => drain (.operator top :: output) rest

def finish? (yard : Yard) : Option (List Item) :=
  drain yard.output yard.waiting

end Yard

end ScriptSandbox
