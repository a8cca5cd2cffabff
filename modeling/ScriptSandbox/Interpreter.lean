import ScriptSandbox.Command.Plain

/-!
Statements run on a machine. Everything that runs other statements is written over an executor for
one statement, and the executor itself recurs on a supply of fuel: one unit for every statement
entered and one for every pass of a loop. `none` means that the fuel ran out.
-/

namespace ScriptSandbox

abbrev Executor := Statement → Machine → Option Outcome

namespace Interpreter

/-- Runs the statements of a block or a function. It ends early after a `break`, after a fault,
which halts the run, and once the run has halted. -/
def runBody (execute : Executor) : List Statement → Machine → Option (Flow × Machine)
  | [], machine => some (.next, machine)
  | statement :: rest, machine =>
      if machine.isHalted then some (.next, machine)
      else
        match execute statement machine with
        | none => none
        | some (.ok .next, next) => runBody execute rest next
        | some (.ok .leave, next) => some (.leave, next)
        | some (.error fault, next) => some (.next, next.fail fault)

/-- Runs the statements of a program, where `break` does nothing. -/
def runStatements (execute : Executor) : List Statement → Machine → Option Machine
  | [], machine => some machine
  | statement :: rest, machine =>
      if machine.isHalted then some machine
      else
        match execute statement machine with
        | none => none
        | some (.ok _, next) => runStatements execute rest next
        | some (.error fault, next) => runStatements execute rest (next.fail fault)

/-- Runs program text. Text that cannot be read runs nothing. -/
def runProgram (execute : Executor) (source : String) (machine : Machine) : Option Machine :=
  match Statement.parse source with
  | .error fault => some (machine.fail fault)
  | .ok statements => runStatements execute statements machine

/-- Runs program text with a depth count of its own. -/
def runNested (execute : Executor) (source : String) (machine : Machine) : Option Machine :=
  let outer := machine.control.depth
  match runProgram execute source { machine with control := machine.control.setDepth 0 } with
  | none => none
  | some next => some { next with control := next.control.setDepth outer }

/-- Runs something as one more active block; only going beyond the ceiling fails. -/
def withDepth {Result : Type} (line : Nat) (inside : Machine → Option (Result × Machine))
    (machine : Machine) : Option (Except Fault Result × Machine) :=
  match machine.enter line with
  | (.error fault, entered) => some (.error fault, entered)
  | (.ok (), entered) =>
      match inside entered with
      | none => none
      | some (result, next) => some (.ok result, next.leave)

/-- Runs something as one more active block in place of a statement; the next one follows. -/
def runEntered (line : Nat) (inside : Machine → Option (Except Fault Unit × Machine))
    (machine : Machine) : Option Outcome :=
  match withDepth line inside machine with
  | none => none
  | some (.error fault, next) => some (.error fault, next)
  | some (.ok (.error fault), next) => some (.error fault, next)
  | some (.ok (.ok ()), next) => some (.ok .next, next)

/-- Evaluates what stands before the block of a statement and goes on with the place of its opening
brace and the value. -/
def withHead (statement : Statement) (incomplete unopened : Malformed)
    (rest : Nat → Value → Machine → Option Outcome) (machine : Machine) : Option Outcome :=
  if statement.arguments.length < 3 then
    some (.error (.malformed statement.line incomplete), machine)
  else
    match statement.open? with
    | none => some (.error (.malformed statement.line unopened), machine)
    | some opening =>
        match machine.evaluate (statement.arguments.take opening) statement.line with
        | (.error fault, next) => some (.error fault, next)
        | (.ok value, next) => rest opening value next

/-- Reads the block of a statement and runs something with it as one more active block. -/
def runBlock (statement : Statement) (opening : Nat)
    (inside : List Statement → Machine → Option (Except Fault Unit × Machine))
    (machine : Machine) : Option Outcome :=
  match statement.bodyStatements opening with
  | .error fault => some (.error fault, machine)
  | .ok body => runEntered statement.line (inside body) machine

/-- Runs a body once; a `break` in it ends nothing else. -/
def runOnce (execute : Executor) (body : List Statement) (machine : Machine) :
    Option (Except Fault Unit × Machine) :=
  (runBody execute body machine).map fun final => (.ok (), final.2)

/-- `if condition { body }`. -/
def runIf (execute : Executor) (statement : Statement) : Machine → Option Outcome :=
  withHead statement .incompleteIf .unopenedIf fun opening condition next =>
    if condition.isTruthy then runBlock statement opening (runOnce execute) next
    else some (.ok .next, next)

/-- Runs a body again while the number of passes is below a count. -/
def runPasses (execute : Executor) (body : List Statement) (count : Number) :
    Nat → Number → Machine → Option Machine
  | fuel, passes, machine =>
      if passes.less count && !machine.isHalted then
        match fuel with
        | 0 => none
        | fuel + 1 =>
            match runBody execute body machine with
            | none => none
            | some (_, next) => runPasses execute body count fuel (passes + Number.one) next
      else some machine

/-- `loop count { body }`. The count is read once, from the start of its text; a `break` ends the
pass it stands in and no more. -/
def runLoop (execute : Executor) (fuel : Nat) (statement : Statement) : Machine → Option Outcome :=
  withHead statement .incompleteLoop .unopenedLoop fun opening value next =>
    let count := Number.ofTextStart (next.heap.textOf value)
    if count.atMost .zero then some (.ok .next, next)
    else
      let passes (body : List Statement) (entered : Machine) : Option (Except Fault Unit × Machine) :=
        (runPasses execute body count fuel .zero entered).map fun final => (.ok (), final)
      runBlock statement opening passes next

/-- Runs a body again while a condition holds, evaluating it before every pass. -/
def runWhileHolds (execute : Executor) (condition : List String) (line : Nat)
    (body : List Statement) : Nat → Machine → Option (Except Fault Unit × Machine)
  | fuel, machine =>
      if machine.isHalted then some (.ok (), machine)
      else
        match machine.evaluate condition line with
        | (.error fault, next) => some (.error fault, next)
        | (.ok value, next) =>
            if value.isTruthy then
              match fuel with
              | 0 => none
              | fuel + 1 =>
                  match runBody execute body next with
                  | none => none
                  | some (_, final) => runWhileHolds execute condition line body fuel final
            else some (.ok (), next)

/-- `while condition { body }`. The condition is evaluated once on its own before the block is
entered, and then before every pass. -/
def runWhile (execute : Executor) (fuel : Nat) (statement : Statement) : Machine → Option Outcome :=
  withHead statement .incompleteLoop .unopenedLoop fun opening condition next =>
    if condition.isTruthy then
      let passes (body : List Statement) : Machine → Option (Except Fault Unit × Machine) :=
        runWhileHolds execute (statement.arguments.take opening) statement.line body fuel
      runBlock statement opening passes next
    else some (.ok .next, next)

/-- `eval expression`: runs the text of a value as a program; `null` runs nothing. -/
def runEval (execute : Executor) (statement : Statement) (machine : Machine) : Option Outcome :=
  if statement.arguments.isEmpty then
    some (.error (.misuse statement.line .nothingToEvaluate), machine)
  else
    match machine.evaluate statement.arguments statement.line with
    | (.error fault, next) => some (.error fault, next)
    | (.ok .null, next) => some (.ok .next, next)
    | (.ok value, next) =>
        let source := next.heap.textOf value
        match runNested execute source next with
        | none => none
        | some final => some (.ok .next, final)

/-- Evaluates the arguments of a call for its parameters, in order; a missing one is `null` and a
surplus one is left alone. -/
def bindArguments (line : Nat) :
    List String → List (List String) → Scope → Machine → Except Fault Scope × Machine
  | [], _, frame, machine => (.ok frame, machine)
  | parameter :: parameters, [], frame, machine =>
      bindArguments line parameters [] (frame.setVariable parameter .null) machine
  | parameter :: parameters, tokens :: arguments, frame, machine =>
      match machine.evaluate tokens line with
      | (.error fault, next) => (.error fault, next)
      | (.ok value, next) =>
          bindArguments line parameters arguments (frame.setVariable parameter value) next

/-- Runs a function's body in a copy of the caller's scope with the parameters bound; the caller's
scope is in force again afterwards. -/
def invoke (execute : Executor) (function : Function) (arguments : List (List String)) (line : Nat)
    (machine : Machine) : Option (Except Fault Unit × Machine) :=
  match bindArguments line function.parameters arguments machine.scope machine with
  | (.error fault, next) => some (.error fault, next)
  | (.ok frame, next) =>
      match runBody execute function.body { next with scope := frame } with
      | none => none
      | some (_, final) => some (.ok (), { final with scope := next.scope })

/-- A statement with any other command: the call of a declared function. -/
def runCall (execute : Executor) (statement : Statement) (machine : Machine) : Option Outcome :=
  let unknown : Fault := .misuse statement.line (.unknownCommand statement.command)
  match statement.call? with
  | none => some (.error unknown, machine)
  | some call =>
      match machine.function? call.name with
      | none => some (.error unknown, machine)
      | some function =>
          runEntered statement.line (invoke execute function call.arguments statement.line) machine

/-- Runs one statement. -/
def execute : Nat → Executor
  | 0, _, _ => none
  | fuel + 1, statement, machine =>
      match Command.ofName? statement.command with
      | some (.plain command) => some (command.run statement machine)
      | some .ifBlock => runIf (execute fuel) statement machine
      | some .loopBlock => runLoop (execute fuel) fuel statement machine
      | some .whileBlock => runWhile (execute fuel) fuel statement machine
      | some .nested => runEval (execute fuel) statement machine
      | none => runCall (execute fuel) statement machine

end Interpreter

end ScriptSandbox
