import ScriptSandbox.Expression.Operator
import ScriptSandbox.Value.Equality

/-!
Operators applied to two values.
-/

namespace ScriptSandbox.Operator

/-- The value of an arithmetic or comparison operator. A sum of two numbers is a number, any other
sum joins texts; a comparison that involves a NaN is false. -/
def apply (operator : Operator) (heap : Heap) (left right : Value) : Value :=
  match operator with
  | .plus =>
      match left, right with
      | .number left, .number right => .number (left + right)
      | _, _ => .string (heap.textOf left ++ heap.textOf right)
  | .minus => .number (heap.numberOf left - heap.numberOf right)
  | .times => .number (heap.numberOf left * heap.numberOf right)
  | .divide => .number (heap.numberOf left / heap.numberOf right)
  | .equal => .bool (heap.looselyEqual left right)
  | .differ => .bool (!heap.looselyEqual left right)
  | .less => .bool (heap.order? left right == some .lt)
  | .greater => .bool (heap.order? left right == some .gt)
  | .atMost => .bool (heap.order? left right == some .lt || heap.order? left right == some .eq)
  | .atLeast => .bool (heap.order? left right == some .gt || heap.order? left right == some .eq)
  | .push | .pop | .slice | .splice => .null

end ScriptSandbox.Operator
