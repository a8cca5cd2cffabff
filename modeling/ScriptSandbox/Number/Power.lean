/-!
Powers of two and ten.
-/

namespace ScriptSandbox

def twoTo (exponent : Nat) : Nat :=
  Nat.pow 2 exponent

def tenTo (exponent : Nat) : Nat :=
  Nat.pow 10 exponent

end ScriptSandbox
