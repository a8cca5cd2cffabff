import ScriptSandbox.Expression.Operator
import ScriptSandbox.Fault
import ScriptSandbox.Json.Read
import ScriptSandbox.Number.Literal
import ScriptSandbox.Scope

/-!
What a token of an expression stands for. The classes are tried in a fixed order, numbers first, so
a token that reads as a number is never a name.
-/

namespace ScriptSandbox

/-- A question to the host that is answered while an expression is compiled. -/
inductive Capability where
  | elapsed
  | width
  | height
  | load
  | fetch
  | random
  | round
deriving DecidableEq

namespace Capability

def ofToken? : String → Option Capability
  | "fnl:performance" => some .elapsed
  | "fnl:width" => some .width
  | "fnl:height" => some .height
  | "fnl.height" => some .height
  | "fnl:idbGet" => some .load
  | "fnl:fetch" => some .fetch
  | "random" => some .random
  | "round" => some .round
  | _ => none

/-- How many of the tokens that follow are its arguments. -/
def arity : Capability → Nat
  | .elapsed | .width | .height => 0
  | .load | .fetch | .round => 1
  | .random => 2

end Capability

inductive Lexeme where
  | scalar (value : Value)
  | json (value : Json)
  | reference (name : String)
  | call (capability : Capability)
  | operator (operator : Operator)
  | opening
  | closing

namespace Lexeme

def isBetween (first last : Char) (text : List Char) : Bool :=
  text.head? == some first && text.getLast? == some last

def inner (text : List Char) : List Char :=
  (text.drop 1).dropLast

/-- The marks that turn a name into a reference. -/
def referenceMarks : List (List Char) := [['r', 'e', 'f', ':'], ['v', 'a', 'r', ':']]

/-- The name after a reference mark, if the text starts with one. -/
def referenceName? (text : List Char) : Option String :=
  (referenceMarks.find? fun mark => mark.isPrefixOf text).map fun mark =>
    String.ofList (text.drop mark.length)

def constant? : String → Option Value
  | "true" => some (.bool true)
  | "false" => some (.bool false)
  | "null" => some .null
  | _ => none

/-- Tokens that are neither numbers, strings, capabilities, references, operators nor
parentheses. -/
def ofRemaining (scope : Scope) (token : String) : Except Malformed Lexeme :=
  if isBetween '\x7b' '\x7d' token.toList || isBetween '[' ']' token.toList then
    match Json.parse token with
    | .ok value => .ok (.json value)
    | .error _ => .error (.invalidJson token)
  else
    match constant? token with
    | some value => .ok (.scalar value)
    | none => if scope.isBound token then .ok (.reference token) else .error (.unknownToken token)

/-- Tokens that are neither numbers nor strings. -/
def ofName (scope : Scope) (token : String) : Except Malformed Lexeme :=
  match Capability.ofToken? token with
  | some capability => .ok (.call capability)
  | none =>
      match referenceName? token.toList with
      | some name => .ok (.reference name)
      | none =>
          match Operator.ofSymbol? token with
          | some found => .ok (.operator found)
          | none =>
              if token = "(" then .ok .opening
              else if token = ")" then .ok .closing
              else ofRemaining scope token

def ofToken (scope : Scope) (token : String) : Except Malformed Lexeme :=
  let number := Number.ofText token
  if !number.isNaN then .ok (.scalar (.number number))
  else if isBetween '"' '"' token.toList then
    .ok (.scalar (.string (String.ofList (inner token.toList))))
  else ofName scope token

end Lexeme

end ScriptSandbox
