/-!
The operators of expressions: their spelling and how tightly they bind. All of them associate to
the left.
-/

namespace ScriptSandbox

inductive Operator where
  | equal
  | differ
  | less
  | greater
  | atMost
  | atLeast
  | plus
  | minus
  | times
  | divide
  | push
  | pop
  | slice
  | splice
deriving DecidableEq

namespace Operator

def symbol : Operator → String
  | .equal => "=="
  | .differ => "!="
  | .less => "<"
  | .greater => ">"
  | .atMost => "<="
  | .atLeast => ">="
  | .plus => "+"
  | .minus => "-"
  | .times => "*"
  | .divide => "/"
  | .push => "push"
  | .pop => "pop"
  | .slice => "slice"
  | .splice => "splice"

def all : List Operator :=
  [.equal, .differ, .less, .greater, .atMost, .atLeast, .plus, .minus, .times, .divide, .push,
    .pop, .slice, .splice]

def ofSymbol? (text : String) : Option Operator :=
  all.find? fun operator => operator.symbol == text

/-- Binding strength: comparisons, then sums, then products, then the array operators. -/
def precedence : Operator → Nat
  | .equal | .differ | .less | .greater | .atMost | .atLeast => 0
  | .plus | .minus => 1
  | .times | .divide => 2
  | .push | .pop | .slice | .splice => 3

def arity : Operator → Nat
  | .pop => 1
  | .slice | .splice => 3
  | _ => 2

/-- Whether the operator works on the array bound to its first operand. -/
def actsOnArray : Operator → Bool
  | .push | .pop | .slice | .splice => true
  | _ => false

theorem of_symbol_symbol (operator : Operator) : ofSymbol? operator.symbol = some operator := by
  cases operator <;> rfl

end Operator

end ScriptSandbox
