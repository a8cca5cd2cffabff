import ScriptSandbox.Expression.Binary
import ScriptSandbox.Fault
import ScriptSandbox.Scope

/-!
Compiled expressions and their evaluation against an operand stack. A reference stays unresolved on
the stack until an operator needs its value, because the array operators change the array bound to
the name.
-/

namespace ScriptSandbox

/-- One step of a compiled expression; operators follow their operands. -/
inductive Item where
  | literal (value : Value)
  | reference (name : String)
  | operator (operator : Operator)
deriving DecidableEq

inductive Operand where
  | value (value : Value)
  | reference (name : String)
deriving DecidableEq

namespace Operand

def resolve (scope : Scope) : Operand → Value
  | .value held => held
  | .reference name => scope.resolve name

def target (scope : Scope) (operator : Operator) (line : Nat) : Operand → Except Fault Nat
  | .value _ => .error (.misuse line (.targetNotReference operator))
  | .reference name =>
      match scope.bindings.get? name with
      | some (.array handle) => .ok handle
      | _ => .error (.misuse line (.notArray name))

end Operand

namespace Code

/-- The place an index argument stands for in an array: cut to a whole number, counted from the end
when negative, and kept within the array. -/
def place (number : Number) (length : Nat) : Nat :=
  let whole := if number.isNaN then Number.zero else number.truncate
  let size := Number.ofNat length
  if whole.less .zero then ((size + whole).greater .zero).toCount else (whole.lesser size).toCount

/-- How many items a count argument stands for, of those available. -/
def count (number : Number) (available : Nat) : Nat :=
  if number.isNaN || number.atMost .zero then 0
  else (number.truncate.lesser (.ofNat available)).toCount

def sliced (items : Array Value) (start finish : Number) : Array Value :=
  items.extract (place start items.size) (place finish items.size)

def spliced (items : Array Value) (start amount : Number) : Array Value :=
  let first := place start items.size
  let removed := count amount (items.size - first)
  items.extract 0 first ++ items.extract (first + removed) items.size

def apply (scope : Scope) (line : Nat) (operator : Operator) (stack : List Operand) (heap : Heap) :
    Except Fault (List Operand) × Heap :=
  match operator, stack with
  | .push, value :: array :: rest =>
      match array.target scope operator line with
      | .error fault => (.error fault, heap)
      | .ok handle =>
          let item := value.resolve scope
          (.ok (.value (.array handle) :: rest), heap.modifyItems handle fun items => items.push item)
  | .pop, array :: rest =>
      match array.target scope operator line with
      | .error fault => (.error fault, heap)
      | .ok handle =>
          let last := (heap.items handle).back?.getD .null
          (.ok (.value last :: rest), heap.modifyItems handle fun items => items.pop)
  | .slice, finish :: start :: array :: rest =>
      match array.target scope operator line with
      | .error fault => (.error fault, heap)
      | .ok handle =>
          let (copy, grown) := heap.newArray
            (sliced (heap.items handle) (heap.numberOf (start.resolve scope))
              (heap.numberOf (finish.resolve scope)))
          (.ok (.value copy :: rest), grown)
  | .splice, amount :: start :: array :: rest =>
      match array.target scope operator line with
      | .error fault => (.error fault, heap)
      | .ok handle =>
          let first := heap.numberOf (start.resolve scope)
          let removed := heap.numberOf (amount.resolve scope)
          (.ok (.value (.array handle) :: rest),
            heap.modifyItems handle fun items => spliced items first removed)
  | _, right :: left :: rest =>
      if operator.actsOnArray then (.error (.misuse line (.tooFewOperands operator)), heap)
      else
        (.ok (.value (operator.apply heap (left.resolve scope) (right.resolve scope)) :: rest), heap)
  | _, _ => (.error (.misuse line (.tooFewOperands operator)), heap)

/-- Runs items on a stack. Changes to arrays stay when a later item fails. -/
def run (scope : Scope) (line : Nat) :
    List Item → List Operand → Heap → Except Fault (List Operand) × Heap
  | [], stack, heap => (.ok stack, heap)
  | .literal value :: rest, stack, heap => run scope line rest (.value value :: stack) heap
  | .reference name :: rest, stack, heap => run scope line rest (.reference name :: stack) heap
  | .operator operator :: rest, stack, heap =>
      match apply scope line operator stack heap with
      | (.error fault, changed) => (.error fault, changed)
      | (.ok next, changed) => run scope line rest next changed

/-- The value of a compiled expression, which must leave exactly one operand. -/
def evaluate (scope : Scope) (line : Nat) (items : List Item) (heap : Heap) :
    Except Fault Value × Heap :=
  match run scope line items [] heap with
  | (.error fault, changed) => (.error fault, changed)
  | (.ok [operand], changed) => (.ok (operand.resolve scope), changed)
  | (.ok _, changed) => (.error (.malformed line .notReduced), changed)

end Code

end ScriptSandbox
