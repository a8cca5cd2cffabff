import ScriptSandbox.Scope
import ScriptSandbox.Statement.Words

/-!
Function heads and call sites. A head is `name(parameter, ...)`. A call is `name(argument, ...)`
with any expression as argument, or `name argument ...` with one token each; either may start with
the function mark.
-/

namespace ScriptSandbox

open ScriptSandbox.Text

def isWordCharacter (c : Char) : Bool :=
  c.isAlphanum || c == '_'

/-- Whether a text is a name that parentheses may follow. -/
def isWord (text : List Char) : Bool :=
  !text.isEmpty && text.all isWordCharacter

def atParenthesis? (text : List Char) : Option (List Char × List Char) :=
  match text.dropWhile (· != '(') with
  | [] => none
  | _ :: after => some (text.takeWhile (· != '('), after)

def beforeClosing? (text : List Char) : Option (List Char) :=
  if text.getLast? = some ')' then some text.dropLast else none

def readSignature? (head : String) : Option (String × List String) :=
  match atParenthesis? head.toList with
  | none => none
  | some (name, afterName) =>
      if isWord name then
        (beforeClosing? afterName).map fun inside =>
          let parameters := ((cut (· == ',') inside).map trim).filter fun text => !text.isEmpty
          (String.ofList name, parameters.map String.ofList)
      else none

/-- A cut of an argument list in progress: the finished arguments and the characters of the open
one, both newest first. -/
structure ArgumentCutting where
  depth : Nat
  quoted : Bool
  openPiece : List Char
  pieces : List (List Char)

namespace ArgumentCutting

def isOpening (c : Char) : Bool :=
  c == '(' || c == '[' || c == '\x7b'

def isClosing (c : Char) : Bool :=
  c == ')' || c == ']' || c == '\x7d'

/-- A comma cuts only outside quotes and brackets. -/
def step (cutting : ArgumentCutting) (c : Char) : ArgumentCutting :=
  if c = ',' ∧ cutting.quoted = false ∧ cutting.depth = 0 then
    { cutting with
      openPiece := []
      pieces := cutting.openPiece.reverse :: cutting.pieces }
  else
    { cutting with
      depth :=
        if cutting.quoted then cutting.depth
        else if isOpening c then cutting.depth + 1
        else if isClosing c then cutting.depth - 1
        else cutting.depth
      quoted := if c = '"' then !cutting.quoted else cutting.quoted
      openPiece := c :: cutting.openPiece }

end ArgumentCutting

def cutArguments (text : List Char) : List (List Char) :=
  let cutting := text.foldl ArgumentCutting.step ⟨0, false, [], []⟩
  (cutting.openPiece.reverse :: cutting.pieces).reverse

/-- A call site: the function's name and the tokens of each argument. -/
structure Call where
  name : String
  arguments : List (List String)
deriving DecidableEq

def readArguments (inside : List Char) : List (List String) :=
  if (trim inside).isEmpty then []
  else (cutArguments inside).map fun text => (Statement.words text).map String.ofList

/-- The call a statement stands for, if it can be one. -/
def Statement.call? (statement : Statement) : Option Call :=
  let command := (Scope.functionName? statement.command).getD statement.command
  match atParenthesis? command.toList with
  | none => some ⟨command, statement.arguments.map fun token => [token]⟩
  | some (name, afterName) =>
      if isWord name then
        let text := statement.arguments.foldl (fun text token => text ++ ' ' :: token.toList) afterName
        (beforeClosing? (trimEnd text)).map fun inside =>
          ⟨String.ofList name, readArguments inside⟩
      else none

end ScriptSandbox
