import ScriptSandbox.Expression.Operator
import ScriptSandbox.File.Fault
import ScriptSandbox.Json.Fault

/-!
What can go wrong in a program, by cause, and the one line that reports it.
-/

namespace ScriptSandbox

/-- Program text that does not have the form it needs. -/
inductive Malformed where
  | missingCommand
  | missingArgument (token : String)
  | mismatchedParentheses
  | invalidJson (token : String)
  | unknownToken (token : String)
  | notReduced
  | missingExpression
  | missingAssignment
  | incompleteIf
  | unopenedIf
  | incompleteLoop
  | unopenedLoop
  | incompleteFunction
  | invalidFunctionHead
  | unwrappedBody
deriving DecidableEq

def Malformed.message : Malformed → String
  | .missingCommand => "Missing command"
  | .missingArgument token => "Missing argument for '" ++ token ++ "'"
  | .mismatchedParentheses => "Mismatched parentheses"
  | .invalidJson token => "Invalid JSON literal '" ++ token ++ "'"
  | .unknownToken token => "Unknown token '" ++ token ++ "'"
  | .notReduced => "Invalid expression (stack not reduced to single result)"
  | .missingExpression => "Expression expected"
  | .missingAssignment => "Assignment operator expected"
  | .incompleteIf => "If statement and body required"
  | .unopenedIf => "Missing '\x7b' in if statement"
  | .incompleteLoop => "Loop amount and body required"
  | .unopenedLoop => "Missing '\x7b' in loop statement"
  | .incompleteFunction => "Function name and body required"
  | .invalidFunctionHead => "Invalid function declaration"
  | .unwrappedBody => "Function body must be wrapped in \x7b \x7d"

/-- Well-formed text that asks for something impossible. -/
inductive Misuse where
  | tooFewOperands (operator : Operator)
  | targetNotReference (operator : Operator)
  | notArray (name : String)
  | unknownCommand (command : String)
  | nothingToLog
  | nothingToEvaluate
  | incompleteEntry
  | incompleteDrawing
deriving DecidableEq

def Misuse.message : Misuse → String
  | .tooFewOperands .push => "push requires [arrayVar, value]"
  | .tooFewOperands .pop => "pop requires [arrayVar]"
  | .tooFewOperands .slice => "slice requires [array, start, end]"
  | .tooFewOperands .splice => "splice requires [array, start, deleteCount]"
  | .tooFewOperands operator => "Not enough operands for '" ++ operator.symbol ++ "'"
  | .targetNotReference operator => operator.symbol ++ " target must be a var reference"
  | .notArray name => "Variable '" ++ name ++ "' is not an array"
  | .unknownCommand command => "Unknown command '" ++ command ++ "'"
  | .nothingToLog => "At least one argument required for log"
  | .nothingToEvaluate => "1 or more inputs expected"
  | .incompleteEntry => "2 inputs expected"
  | .incompleteDrawing => "6 inputs expected"

/-- Why the durable store could not be read or written. -/
inductive StoreFault where
  | unreadable (fault : Json.Fault)
  | notObject (path : String)
  | file (fault : FileFault)
deriving DecidableEq

namespace StoreFault

def cause : StoreFault → String
  | .unreadable fault => fault.message
  | .notObject path => path ++ " does not hold a JSON object"
  | .file fault => fault.message

def message (fault : StoreFault) : String :=
  "IO error: " ++ fault.cause

end StoreFault

/-- A request that the host turned down. -/
inductive Refusal where
  | load (key : String) (cause : StoreFault)
  | save (key : String) (cause : StoreFault)
  | fetch (url : String)
  | stated (message : String)
deriving DecidableEq

def Refusal.message : Refusal → String
  | .load key cause => "Failed to load '" ++ key ++ "': " ++ cause.message
  | .save key cause => "Failed to store '" ++ key ++ "': " ++ cause.message
  | .fetch url => "Failed to fetch '" ++ url ++ "'"
  | .stated message => message

inductive Fault where
  | malformed (line : Nat) (cause : Malformed)
  | misuse (line : Nat) (cause : Misuse)
  | tooDeep (line : Nat) (limit : Nat)
  | refused (line : Nat) (cause : Refusal)
deriving DecidableEq

namespace Fault

def atLine (message : String) (line : Nat) : String :=
  message ++ ". Line: " ++ toString line

def message : Fault → String
  | .malformed line cause => atLine cause.message line
  | .misuse line cause => atLine cause.message line
  | .tooDeep line limit =>
      "Maximum recursion depth (" ++ toString limit ++ ") reached at line " ++ toString line
  | .refused line cause => atLine cause.message line

end Fault

end ScriptSandbox
