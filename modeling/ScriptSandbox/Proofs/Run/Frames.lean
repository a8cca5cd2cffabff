import ScriptSandbox.Proofs.Run.Acts

/-!
Where a statement stands in a run. A run comes to a statement of its program, from there to the
statements of the body or of the nested program it runs, and so on inward; the frames around a
statement are what was opened on this way. Nothing here looks at the depth count except the guard
that lets an entry through.
-/

namespace ScriptSandbox

/-- What counts as one active entry: the block of a command, or the body of a function. -/
inductive Activation where
  | ifBlock (body : List Statement)
  | loopBlock (body : List Statement) (count : Number)
  | whileBlock (body : List Statement) (condition : List String)
  | call (function : Function) (arguments : List (List String))

inductive Frame where
  | active (activation : Activation)
  | nested

namespace Frame

def isActive : Frame → Bool
  | .active _ => true
  | .nested => false

/-- How many entries are active since the innermost nested program, or since the start of the run;
the frames are listed from the inside out. -/
def activeEntries (frames : List Frame) : Nat :=
  (frames.takeWhile isActive).length

theorem active_entries_active (activation : Activation) (frames : List Frame) :
    activeEntries (.active activation :: frames) = activeEntries frames + 1 := rfl

end Frame

namespace Statement

/-- What stands before the block of the statement is evaluated on a machine. -/
structure HasHead (statement : Statement) (machine : Machine) (opening : Nat) (value : Value)
    (ready : Machine) : Prop where
  enough : 3 ≤ statement.arguments.length
  opens : statement.open? = some opening
  evaluated :
    machine.evaluate (statement.arguments.take opening) statement.line = (.ok value, ready)

/-- Executed on a machine, the statement gets as far as to ask for one more active entry; by then
the machine is `ready`. -/
inductive Requests (statement : Statement) (machine : Machine) : Activation → Machine → Prop
  | ifBlock {opening : Nat} {value : Value} {ready : Machine} {body : List Statement}
      (named : Command.ofName? statement.command = some .ifBlock)
      (head : statement.HasHead machine opening value ready) (holds : value.isTruthy = true)
      (read : statement.bodyStatements opening = .ok body) :
      Requests statement machine (.ifBlock body) ready
  | loopBlock {opening : Nat} {value : Value} {ready : Machine} {body : List Statement}
      {count : Number} (named : Command.ofName? statement.command = some .loopBlock)
      (head : statement.HasHead machine opening value ready)
      (counted : count = Number.ofTextStart (ready.heap.textOf value))
      (positive : count.atMost .zero = false) (read : statement.bodyStatements opening = .ok body) :
      Requests statement machine (.loopBlock body count) ready
  | whileBlock {opening : Nat} {value : Value} {ready : Machine} {body : List Statement}
      (named : Command.ofName? statement.command = some .whileBlock)
      (head : statement.HasHead machine opening value ready) (holds : value.isTruthy = true)
      (read : statement.bodyStatements opening = .ok body) :
      Requests statement machine (.whileBlock body (statement.arguments.take opening)) ready
  | call {call : Call} {function : Function}
      (named : Command.ofName? statement.command = none) (called : statement.call? = some call)
      (declared : machine.function? call.name = some function) :
      Requests statement machine (.call function call.arguments) machine

/-- Executed on a machine, the statement gets as far as to run a text as a program of its own. -/
structure Nests (statement : Statement) (machine : Machine) (source : String) (ready : Machine) :
    Prop where
  named : Command.ofName? statement.command = some .nested
  given : statement.arguments ≠ []
  evaluated : ∃ value, value ≠ .null ∧ source = ready.heap.textOf value ∧
    machine.evaluate statement.arguments statement.line = (.ok value, ready)

end Statement

namespace Interpreter

/-- The machines on which the passes of a `loop` start, from one number of passes on. -/
inductive LoopPass (execute : Executor) (body : List Statement) (count : Number) :
    Number → Machine → Machine → Prop
  | here {passes : Number} {machine : Machine} (below : passes.less count = true)
      (running : machine.isHalted = false) : LoopPass execute body count passes machine machine
  | later {passes : Number} {machine middle start : Machine} {flow : Flow}
      (below : passes.less count = true) (running : machine.isHalted = false)
      (ran : runBody execute body machine = some (flow, middle))
      (pass : LoopPass execute body count (passes + Number.one) middle start) :
      LoopPass execute body count passes machine start

/-- The machines on which the passes of a `while` start; the condition was evaluated right before. -/
inductive WhilePass (execute : Executor) (condition : List String) (line : Nat)
    (body : List Statement) : Machine → Machine → Prop
  | here {machine start : Machine} {value : Value} (running : machine.isHalted = false)
      (evaluated : machine.evaluate condition line = (.ok value, start))
      (holds : value.isTruthy = true) : WhilePass execute condition line body machine start
  | later {machine next middle start : Machine} {value : Value} {flow : Flow}
      (running : machine.isHalted = false)
      (evaluated : machine.evaluate condition line = (.ok value, next))
      (holds : value.isTruthy = true) (ran : runBody execute body next = some (flow, middle))
      (pass : WhilePass execute condition line body middle start) :
      WhilePass execute condition line body machine start

/-- A body started on a machine comes to one of its statements: those before it ran to their end. -/
def BodyComesTo (execute : Executor) (body : List Statement) (start : Machine)
    (statement : Statement) (machine : Machine) : Prop :=
  ∃ before after, body = before ++ statement :: after ∧
    runBody execute before start = some (.next, machine) ∧ machine.isHalted = false

/-- A program started on a machine comes to one of its statements. -/
def ProgramComesTo (execute : Executor) (source : String) (start : Machine)
    (statement : Statement) (machine : Machine) : Prop :=
  ∃ before after, Statement.parse source = .ok (before ++ statement :: after) ∧
    runStatements execute before start = some machine ∧ machine.isHalted = false

end Interpreter

namespace Activation

open Interpreter

/-- What runs inside an entry. -/
def inside (execute : Executor) (fuel line : Nat) :
    Activation → Machine → Option (Except Fault Unit × Machine)
  | .ifBlock body => runOnce execute body
  | .loopBlock body count => fun entered =>
      (runPasses execute body count fuel .zero entered).map fun final => (.ok (), final)
  | .whileBlock body condition => runWhileHolds execute condition line body fuel
  | .call function arguments => invoke execute function arguments line

/-- Inside an entry made on one machine, a statement of its body is come to on another. -/
def ComesTo (execute : Executor) (line : Nat) :
    Activation → Machine → Statement → Machine → Prop
  | .ifBlock body, entered, statement, machine => BodyComesTo execute body entered statement machine
  | .loopBlock body count, entered, statement, machine =>
      ∃ start, LoopPass execute body count .zero entered start ∧
        BodyComesTo execute body start statement machine
  | .whileBlock body condition, entered, statement, machine =>
      ∃ start, WhilePass execute condition line body entered start ∧
        BodyComesTo execute body start statement machine
  | .call function arguments, entered, statement, machine =>
      ∃ frame bound, bindArguments line function.parameters arguments entered.scope entered =
          (.ok frame, bound) ∧
        BodyComesTo execute function.body { bound with scope := frame } statement machine

end Activation

/-- A statement about to be executed, with what is left of the fuel afterwards. -/
structure Point where
  fuel : Nat
  statement : Statement
  machine : Machine

namespace Point

open Interpreter

def outcome (point : Point) : Option Outcome :=
  execute (point.fuel + 1) point.statement point.machine

/-- Executing the one point executes the other in the body of an entry of its own. -/
inductive Enters : Point → Activation → Point → Prop
  | intro {fuel : Nat} {outer inner : Statement} {machine ready entered start : Machine}
      {activation : Activation} (requests : outer.Requests machine activation ready)
      (admitted : ready.enter outer.line = (.ok (), entered))
      (comes : activation.ComesTo (execute (fuel + 1)) outer.line entered inner start) :
      Enters ⟨fuel + 1, outer, machine⟩ activation ⟨fuel, inner, start⟩

/-- Executing the one point executes the other in a nested program of its own. -/
inductive Nests : Point → Point → Prop
  | intro {fuel : Nat} {outer inner : Statement} {machine ready start : Machine} {source : String}
      (nests : outer.Nests machine source ready)
      (comes : ProgramComesTo (execute (fuel + 1)) source
        { ready with control := ready.control.setDepth 0 } inner start) :
      Nests ⟨fuel + 1, outer, machine⟩ ⟨fuel, inner, start⟩

end Point

/-- What a run of a program executes, with the frames around it. -/
inductive Executed (fuel limit : Nat) (source : String) (host : Host) : List Frame → Point → Prop
  | program {statement : Statement} {machine : Machine}
      (comes : Interpreter.ProgramComesTo (Interpreter.execute (fuel + 1)) source
        (Machine.start limit host) statement machine) :
      Executed fuel limit source host [] ⟨fuel, statement, machine⟩
  | entered {frames : List Frame} {outer inner : Point} {activation : Activation}
      (executed : Executed fuel limit source host frames outer)
      (enters : outer.Enters activation inner) :
      Executed fuel limit source host (.active activation :: frames) inner
  | nested {frames : List Frame} {outer inner : Point}
      (executed : Executed fuel limit source host frames outer) (nests : outer.Nests inner) :
      Executed fuel limit source host (.nested :: frames) inner

namespace Interpreter

theorem with_head_of_has_head {statement : Statement} {machine ready : Machine} {opening : Nat}
    {value : Value} (head : statement.HasHead machine opening value ready)
    (incomplete unopened : Malformed) (rest : Nat → Value → Machine → Option Outcome) :
    withHead statement incomplete unopened rest machine = rest opening value ready := by
  unfold withHead
  rw [if_neg (Nat.not_lt.mpr head.enough), head.opens]
  simp only [head.evaluated]

/-- A statement that asks for an entry is executed by running the inside of the entry. -/
theorem execute_requested {fuel : Nat} {statement : Statement} {machine ready : Machine}
    {activation : Activation} (requests : statement.Requests machine activation ready) :
    execute (fuel + 1) statement machine =
      runEntered statement.line (activation.inside (execute fuel) fuel statement.line) ready := by
  cases requests with
  | ifBlock named head holds read =>
      simp only [execute, named, runIf, with_head_of_has_head head, holds, if_true, runBlock, read]
      rfl
  | loopBlock named head counted positive read =>
      subst counted
      simp only [execute, named, runLoop, with_head_of_has_head head, positive, runBlock, read]
      rfl
  | whileBlock named head holds read =>
      simp only [execute, named, runWhile, with_head_of_has_head head, holds, if_true, runBlock, read]
      rfl
  | call named called declared =>
      simp only [execute, named, runCall, called, declared]
      rfl

/-- A statement that runs a program of its own goes on with the next statement afterwards. -/
theorem execute_nested {fuel : Nat} {statement : Statement} {machine ready : Machine}
    {source : String} (nests : statement.Nests machine source ready) :
    execute (fuel + 1) statement machine =
      (runNested (execute fuel) source ready).map fun final => (.ok .next, final) := by
  obtain ⟨value, someValue, rfl, evaluated⟩ := nests.evaluated
  simp only [execute, nests.named, runEval, List.isEmpty_iff, nests.given, if_false, evaluated]
  cases value with
  | null => exact absurd rfl someValue
  | _ => cases runNested (execute fuel) _ ready <;> rfl

end Interpreter

end ScriptSandbox
