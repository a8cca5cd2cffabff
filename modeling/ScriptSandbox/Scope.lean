import ScriptSandbox.Value.Basic

/-!
Scopes: the variables and functions a statement sees. A scope is a plain value, so a copy of it is
a call frame that shares the containers of its caller and none of its bindings.
-/

namespace ScriptSandbox

structure Scope where
  bindings : Table Value
  functions : Table Nat

namespace Scope

def empty : Scope := ⟨[], []⟩

instance : Inhabited Scope := ⟨empty⟩

def setVariable (scope : Scope) (name : String) (value : Value) : Scope :=
  { scope with bindings := scope.bindings.set name value }

def setFunction (scope : Scope) (name : String) (handle : Nat) : Scope :=
  { scope with functions := scope.functions.set name handle }

def isBound (scope : Scope) (name : String) : Bool :=
  scope.bindings.contains name

/-- The text that names a function where a variable is expected. -/
def functionMark : List Char := ['f', 'u', 'n', 'c', ':']

def functionName? (text : String) : Option String :=
  if functionMark.isPrefixOf text.toList then
    some (String.ofList (text.toList.drop functionMark.length))
  else none

/-- The value of a reference: that of the variable, or the function of a marked name, or `null`. -/
def resolve (scope : Scope) (name : String) : Value :=
  match scope.bindings.get? name with
  | some value => value
  | none =>
      match (functionName? name).bind scope.functions.get? with
      | some handle => .function handle
      | none => .null

end Scope

end ScriptSandbox
