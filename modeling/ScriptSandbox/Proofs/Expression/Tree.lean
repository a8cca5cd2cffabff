import ScriptSandbox.Expression.Code

/-!
Operator trees over any kind of leaf, with as many children at every node as its operator takes, and
their listing in post-order.
-/

namespace ScriptSandbox

inductive OperatorTree (Leaf : Type) where
  | leaf (content : Leaf)
  | unary (operator : Operator) (one : operator.arity = 1) (only : OperatorTree Leaf)
  | binary (operator : Operator) (two : operator.arity = 2) (left right : OperatorTree Leaf)
  | ternary (operator : Operator) (three : operator.arity = 3)
      (first second third : OperatorTree Leaf)

def Operand.toItem : Operand → Item
  | .value held => .literal held
  | .reference name => .reference name

namespace OperatorTree

/-- Whether every leaf has a property. -/
def All {Leaf : Type} (holds : Leaf → Prop) : OperatorTree Leaf → Prop
  | .leaf content => holds content
  | .unary _ _ only => only.All holds
  | .binary _ _ left right => left.All holds ∧ right.All holds
  | .ternary _ _ first second third => first.All holds ∧ second.All holds ∧ third.All holds

/-- The items of a tree, every operator behind its operands. -/
def postorder : OperatorTree Operand → List Item
  | .leaf operand => [operand.toItem]
  | .unary operator _ only => only.postorder ++ [.operator operator]
  | .binary operator _ left right => left.postorder ++ right.postorder ++ [.operator operator]
  | .ternary operator _ first second third =>
      first.postorder ++ second.postorder ++ third.postorder ++ [.operator operator]

end OperatorTree

end ScriptSandbox
