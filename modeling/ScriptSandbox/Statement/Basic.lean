/-!
Statements: a command, its argument tokens and its number within the text it was split from. A
block command ends in three arguments, an opening brace, its body as one text and a closing brace.
-/

namespace ScriptSandbox

structure Statement where
  command : String
  arguments : List String
  line : Nat
deriving DecidableEq

namespace Statement

def openMark : String := "\x7b"

def closeMark : String := "\x7d"

/-- The place of the first opening brace among the arguments. -/
def open? (statement : Statement) : Option Nat :=
  statement.arguments.findIdx? (· == openMark)

/-- The place of the last closing brace among the arguments. -/
def lastClose? (statement : Statement) : Option Nat :=
  (statement.arguments.reverse.findIdx? (· == closeMark)).map
    fun fromEnd => statement.arguments.length - 1 - fromEnd

/-- The text right after the opening brace, when a closing brace stands somewhere after it. -/
def body? (statement : Statement) (opening : Nat) : Option String :=
  match statement.lastClose? with
  | some closing => if closing ≤ opening then none else statement.arguments[opening + 1]?
  | none => none

end Statement

end ScriptSandbox
