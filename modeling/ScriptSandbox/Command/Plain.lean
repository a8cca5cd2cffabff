import ScriptSandbox.Command.Basic
import ScriptSandbox.Command.Signature
import ScriptSandbox.Expression.Compile

/-!
The commands that run no other statement.
-/

namespace ScriptSandbox.PlainCommand

open ScriptSandbox.Text

/-- `log expression`: writes the value to the log. -/
def runLog (statement : Statement) (machine : Machine) : Outcome :=
  if statement.arguments.isEmpty then (.error (.misuse statement.line .nothingToLog), machine)
  else
    match machine.evaluate statement.arguments statement.line with
    | (.error fault, next) => (.error fault, next)
    | (.ok value, next) =>
        let text := next.heap.logText value
        (.ok .next, next.record (.log text))

/-- `var name = expression`: binds a variable; `==` does as well as `=`. -/
def runAssign (statement : Statement) (machine : Machine) : Outcome :=
  match statement.arguments with
  | name :: mark :: first :: more =>
      if mark = "=" ∨ mark = "==" then
        match machine.evaluate (first :: more) statement.line with
        | (.error fault, next) => (.error fault, next)
        | (.ok value, next) => (.ok .next, next.setVariable name value)
      else (.error (.malformed statement.line .missingAssignment), machine)
  | _ => (.error (.malformed statement.line .missingExpression), machine)

/-- `exit payload`: halts the run; the payload is kept as it stands. -/
def runExit (statement : Statement) (machine : Machine) : Outcome :=
  (.ok .next, machine.halt (statement.arguments.headD "0"))

/-- `fnl:idbSet key value`: writes an entry of the store; both are one token. -/
def runSave (statement : Statement) (machine : Machine) : Outcome :=
  match statement.arguments with
  | keyToken :: valueToken :: _ =>
      match machine.evaluate [keyToken] statement.line with
      | (.error fault, next) => (.error fault, next)
      | (.ok keyValue, next) =>
          let key := next.heap.textOf keyValue
          match next.evaluate [valueToken] statement.line with
          | (.error fault, final) => (.error fault, final)
          | (.ok value, final) =>
              let (saved, host) := final.host.save key (final.heap.snapshot value)
              match saved with
              | .error cause =>
                  (.error (.refused statement.line (.save key cause)), { final with host })
              | .ok () => (.ok .next, { final with host })
  | _ => (.error (.misuse statement.line .incompleteEntry), machine)

/-- `func name(parameters) { body }`: declares a function in the scope in force. -/
def runDeclare (statement : Statement) (machine : Machine) : Outcome :=
  if statement.arguments.length < 3 then
    (.error (.malformed statement.line .incompleteFunction), machine)
  else
    let opening := statement.open?
    let head := " ".intercalate
      (statement.arguments.take (opening.getD statement.arguments.length))
    match readSignature? head with
    | none => (.error (.malformed statement.line .invalidFunctionHead), machine)
    | some (name, parameters) =>
        match opening with
        | none => (.error (.malformed statement.line .unwrappedBody), machine)
        | some place =>
            match statement.bodyStatements place with
            | .error fault => (.error fault, machine)
            | .ok body => (.ok .next, machine.declare ⟨name, parameters, body⟩)

def isQuoteMark (c : Char) : Bool :=
  c == '"' || c == '\''

/-- A text without one quote mark at its start and one at its end, of either kind. -/
def unquoted (text : List Char) : List Char :=
  let opened :=
    match text with
    | c :: rest => if isQuoteMark c then rest else text
    | [] => []
  match opened.getLast? with
  | some c => if isQuoteMark c then opened.dropLast else opened
  | none => opened

/-- Evaluates coordinate texts one after the other. -/
def coordinates (line : Nat) : List (List Char) → Machine → Except Fault (List Number) × Machine
  | [], machine => (.ok [], machine)
  | text :: rest, machine =>
      match machine.evaluate ((Statement.words text).map String.ofList) line with
      | (.error fault, next) => (.error fault, next)
      | (.ok value, next) =>
          let number := next.heap.numberOf value
          match coordinates line rest next with
          | (.error fault, final) => (.error fault, final)
          | (.ok numbers, final) => (.ok (number :: numbers), final)

/-- `rend shape, color, x, y, width, height`: draws a rectangle for the shape `sqr` and nothing for
any other. -/
def runDraw (statement : Statement) (machine : Machine) : Outcome :=
  let parts := (cut (· == ',') (" ".intercalate statement.arguments).toList).map trim
  if unquoted (parts.headD []) ≠ ['s', 'q', 'r'] then (.ok .next, machine)
  else
    match parts with
    | _ :: color :: x :: y :: width :: height :: _ =>
        let colored := machine.record (.fillColor (String.ofList (unquoted color)))
        match coordinates statement.line [x, y, width, height] colored with
        | (.error fault, next) => (.error fault, next)
        | (.ok [left, top, across, down], next) =>
            (.ok .next, next.record (.fillRect left top across down))
        | (.ok _, next) => (.ok .next, next)
    | _ => (.error (.misuse statement.line .incompleteDrawing), machine)

def run : PlainCommand → Statement → Machine → Outcome
  | .assign, statement, machine => runAssign statement machine
  | .leaveBody, _, machine => (.ok .leave, machine)
  | .comment, _, machine => (.ok .next, machine)
  | .declare, statement, machine => runDeclare statement machine
  | .draw, statement, machine => runDraw statement machine
  | .exit, statement, machine => runExit statement machine
  | .log, statement, machine => runLog statement machine
  | .save, statement, machine => runSave statement machine

end ScriptSandbox.PlainCommand
