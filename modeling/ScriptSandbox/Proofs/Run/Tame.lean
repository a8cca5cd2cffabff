import ScriptSandbox.Proofs.Expression.Moments
import ScriptSandbox.Proofs.Run.Cases
import ScriptSandbox.Proofs.Statement.Parts

/-!
A program without `while` and `eval` in its text stays without them. The statements that a run
executes and the bodies of the functions that it declares are read from parts of the text, so none of
them loops on a condition or runs a text of its own making.
-/

namespace ScriptSandbox

namespace Statement

/-- Neither `while` nor `eval` stands anywhere in the statement. -/
structure Tame (statement : Statement) : Prop where
  lacksWhile : statement.Lacks "while".toList
  lacksEval : statement.Lacks "eval".toList

theorem parse_tame {source : String} {statements : List Statement}
    (noWhile : ¬"while".toList <:+: source.toList) (noEval : ¬"eval".toList <:+: source.toList)
    (read : parse source = .ok statements) : ∀ statement ∈ statements, statement.Tame :=
  fun statement member =>
    ⟨parse_lacks (by decide) noWhile read statement member,
      parse_lacks (by decide) noEval read statement member⟩

theorem Tame.body {statement : Statement} (tame : statement.Tame) {opening : Nat}
    {body : List Statement} (read : statement.bodyStatements opening = .ok body) :
    ∀ inner ∈ body, inner.Tame :=
  fun inner member =>
    ⟨body_lacks (by decide) tame.lacksWhile read inner member,
      body_lacks (by decide) tame.lacksEval read inner member⟩

theorem Tame.not_while {statement : Statement} (tame : statement.Tame) :
    Command.ofName? statement.command ≠ some .whileBlock := by
  intro named
  apply tame.lacksWhile.command
  rw [Command.eq_word_of_name named]
  rfl

theorem Tame.not_nests {statement : Statement} (tame : statement.Tame) {machine ready : Machine}
    {source : String} : ¬statement.Nests machine source ready := by
  intro nests
  apply tame.lacksEval.command
  rw [Command.eq_word_of_name nests.named]
  rfl

end Statement

namespace Machine

/-- Every function declared so far has a tame body. -/
def DeclaresTame (machine : Machine) : Prop :=
  ∀ function ∈ machine.heap.functions, ∀ statement ∈ function.body, statement.Tame

theorem DeclaresTame.of_functions {machine next : Machine} (declares : machine.DeclaresTame)
    (same : next.heap.functions = machine.heap.functions) : next.DeclaresTame := by
  intro function member
  rw [same] at member
  exact declares function member

theorem DeclaresTame.raised {machine : Machine} (declares : machine.DeclaresTame) :
    machine.raised.DeclaresTame :=
  declares.of_functions rfl

theorem DeclaresTame.evaluate {tokens : List String} {line : Nat} {machine next : Machine}
    {result : Except Fault Value} (declares : machine.DeclaresTame)
    (evaluated : machine.evaluate tokens line = (result, next)) : next.DeclaresTame :=
  declares.of_functions (evaluate_functions evaluated)

theorem DeclaresTame.declare {machine : Machine} (declares : machine.DeclaresTame)
    {function : Function} (tame : ∀ statement ∈ function.body, statement.Tame) :
    (machine.declare function).DeclaresTame := by
  intro other member
  rcases Array.mem_push.mp member with old | new
  · exact declares other old
  · rw [new]
    exact tame

theorem DeclaresTame.function {machine : Machine} (declares : machine.DeclaresTame) {name : String}
    {function : Function} (declared : machine.function? name = some function) :
    ∀ statement ∈ function.body, statement.Tame := by
  rcases Option.bind_eq_some_iff.mp declared with ⟨handle, -, found⟩
  exact declares function (Array.mem_of_getElem? found)

theorem start_declares_tame (limit : Nat) (host : Host) : (start limit host).DeclaresTame := by
  intro function member
  cases Array.not_mem_empty function member

theorem tame_composes : Composes fun machine next => machine.DeclaresTame → next.DeclaresTame where
  same _ heap declares := declares.of_functions (congrArg Heap.functions heap)
  trans before after declares := after (before declares)

end Machine

theorem Statement.Tame.keeps {statement : Statement} (tame : statement.Tame) :
    PlainCommand.Keeps statement fun machine next => machine.DeclaresTame → next.DeclaresTame where
  toComposes := Machine.tame_composes
  evaluate evaluated declares := declares.evaluate evaluated
  assign evaluated _ declares := (declares.evaluate evaluated).of_functions rfl
  declare read _ _ _ declares := declares.declare (tame.body read)

/-- The entry is of a block or a function with a tame body, and of no `while`. -/
def Activation.Tame : Activation → Prop
  | .ifBlock body | .loopBlock body _ => ∀ statement ∈ body, statement.Tame
  | .whileBlock .. => False
  | .call function _ => ∀ statement ∈ function.body, statement.Tame

theorem Statement.Requests.tame {statement : Statement} {machine ready : Machine}
    {activation : Activation} (requests : statement.Requests machine activation ready)
    (tame : statement.Tame) (declares : machine.DeclaresTame) :
    activation.Tame ∧ ready.DeclaresTame := by
  cases requests with
  | ifBlock _ head _ read => exact ⟨tame.body read, declares.evaluate head.evaluated⟩
  | loopBlock _ head _ _ read => exact ⟨tame.body read, declares.evaluate head.evaluated⟩
  | whileBlock named => exact absurd named tame.not_while
  | call _ _ declared => exact ⟨declares.function declared, declares⟩

namespace Interpreter

theorem bind_arguments_functions {line : Nat} {parameters : List String}
    {arguments : List (List String)} {frame : Scope} {machine next : Machine}
    {result : Except Fault Scope}
    (bound : bindArguments line parameters arguments frame machine = (result, next)) :
    next.heap.functions = machine.heap.functions := by
  induction parameters generalizing arguments frame machine with
  | nil =>
      cases bound
      rfl
  | cons parameter parameters ih =>
      cases arguments with
      | nil => exact ih bound
      | cons tokens arguments =>
          unfold bindArguments at bound
          split at bound
          · next failed =>
              cases bound
              exact Machine.evaluate_functions failed
          · next evaluated => exact (ih bound).trans (Machine.evaluate_functions evaluated)

/-- A function's body starts with the functions of its caller. -/
theorem call_declares_tame {line : Nat} {parameters : List String} {arguments : List (List String)}
    {caller frame : Scope} {machine bound : Machine} (declares : machine.DeclaresTame)
    (binding : bindArguments line parameters arguments caller machine = (.ok frame, bound)) :
    ({ bound with scope := frame } : Machine).DeclaresTame := by
  have unchanged := bind_arguments_functions binding
  exact declares.of_functions unchanged

/-- Tame statements declare tame functions only. -/
def KeepsTame (execute : Executor) : Prop :=
  ∀ statement, statement.Tame → ∀ machine result next,
    execute statement machine = some (result, next) → machine.DeclaresTame → next.DeclaresTame

section

variable {execute : Executor} (keeps : KeepsTame execute)
include keeps

theorem run_body_tame {body : List Statement} {machine next : Machine} {flow : Flow}
    (tame : ∀ statement ∈ body, statement.Tame) (declares : machine.DeclaresTame)
    (ran : runBody execute body machine = some (flow, next)) : next.DeclaresTame :=
  run_body_keeps Machine.tame_composes
    (fun statement member => keeps statement (tame statement member)) ran declares

theorem inside_tame {activation : Activation} {fuel line : Nat} {entered next : Machine}
    {result : Except Fault Unit} (tame : activation.Tame) (declares : entered.DeclaresTame)
    (ran : activation.inside execute fuel line entered = some (result, next)) :
    next.DeclaresTame := by
  cases activation with
  | ifBlock body =>
      rcases Option.map_eq_some_iff.mp ran with ⟨⟨flow, final⟩, ranBody, same⟩
      cases same
      exact run_body_tame keeps tame declares ranBody
  | loopBlock body count =>
      rcases Option.map_eq_some_iff.mp ran with ⟨final, passes, same⟩
      cases same
      exact run_passes_keeps Machine.tame_composes
        (fun statement member => keeps statement (tame statement member)) passes declares
  | whileBlock body condition => cases tame
  | call function arguments =>
      rcases invoke_cases ran with ⟨fault, failed, -⟩ |
        ⟨frame, bound, flow, final, binding, ranBody, -, same⟩
      · exact declares.of_functions (bind_arguments_functions failed)
      · have called := call_declares_tame declares binding
        rw [same]
        exact (run_body_tame keeps tame called ranBody).of_functions rfl

theorem body_comes_to_tame {body : List Statement} {start machine : Machine}
    {statement : Statement} (tame : ∀ inner ∈ body, inner.Tame) (declares : start.DeclaresTame)
    (comes : BodyComesTo execute body start statement machine) :
    statement.Tame ∧ machine.DeclaresTame := by
  rcases comes with ⟨before, after, same, ran, -⟩
  rw [same] at tame
  constructor
  · exact tame statement (List.mem_append_right before List.mem_cons_self)
  · exact run_body_tame keeps (fun inner member => tame inner (List.mem_append_left _ member))
      declares ran

theorem program_comes_to_tame {source : String} {start machine : Machine} {statement : Statement}
    (tame : ∀ statements, Statement.parse source = .ok statements →
      ∀ inner ∈ statements, inner.Tame)
    (declares : start.DeclaresTame)
    (comes : ProgramComesTo execute source start statement machine) :
    statement.Tame ∧ machine.DeclaresTame := by
  rcases comes with ⟨before, after, parsed, ran, -⟩
  have tame := tame _ parsed
  constructor
  · exact tame statement (List.mem_append_right before List.mem_cons_self)
  · have front (inner : Statement) (member : inner ∈ before) : inner.Tame :=
      tame inner (List.mem_append_left _ member)
    exact run_statements_keeps Machine.tame_composes
      (fun inner member => keeps inner (front inner member)) ran declares

theorem comes_to_tame {activation : Activation} {line : Nat} {entered machine : Machine}
    {statement : Statement} (tame : activation.Tame) (declares : entered.DeclaresTame)
    (comes : activation.ComesTo execute line entered statement machine) :
    statement.Tame ∧ machine.DeclaresTame := by
  cases activation with
  | ifBlock body => exact body_comes_to_tame keeps tame declares comes
  | loopBlock body count =>
      rcases comes with ⟨start, pass, comes⟩
      have begun := loop_pass_keeps Machine.tame_composes
        (fun inner member => keeps inner (tame inner member)) pass declares
      exact body_comes_to_tame keeps tame begun comes
  | whileBlock body condition => cases tame
  | call function arguments =>
      rcases comes with ⟨frame, bound, binding, comes⟩
      exact body_comes_to_tame keeps tame (call_declares_tame declares binding) comes

end

theorem execute_keeps_tame (fuel : Nat) : KeepsTame (execute fuel) := by
  intro statement tame machine result next ran declares
  induction fuel generalizing statement machine result next with
  | zero => cases ran
  | succ fuel ih =>
      rcases execute_cases statement machine with ⟨_, _, done, always⟩ |
        ⟨activation, ready, requests⟩ | ⟨source, ready, nests⟩
      · cases (always fuel).symm.trans ran
        exact done.keeps tame.keeps declares
      · rw [execute_requested requests] at ran
        rcases requests.tame tame declares with ⟨tameInside, declaresReady⟩
        rcases run_entered_cases ran with ⟨-, -, same⟩ | ⟨-, inner, final, inside, -, same⟩
        · rw [same]
          exact declaresReady.raised
        · rw [same]
          exact (inside_tame ih tameInside declaresReady.raised inside).of_functions rfl
      · exact absurd nests tame.not_nests

end Interpreter

open Interpreter in
/-- Every statement that such a program executes is tame, and so is every function declared by
then. -/
theorem executed_tame {fuel limit : Nat} {source : String} {host : Host} {frames : List Frame}
    {point : Point} (noWhile : ¬"while".toList <:+: source.toList)
    (noEval : ¬"eval".toList <:+: source.toList)
    (executed : Executed fuel limit source host frames point) :
    point.statement.Tame ∧ point.machine.DeclaresTame := by
  induction executed with
  | program comes =>
      exact program_comes_to_tame (execute_keeps_tame _)
        (fun _ => Statement.parse_tame noWhile noEval) (Machine.start_declares_tame limit host) comes
  | entered _ enters ih =>
      cases enters with
      | intro requests admitted comes =>
          rcases requests.tame ih.1 ih.2 with ⟨tameInside, declares⟩
          have raised := declares.raised
          rw [← (Machine.enter_cases admitted).2] at raised
          exact comes_to_tame (execute_keeps_tame _) tameInside raised comes
  | nested _ nests ih =>
      cases nests with
      | intro nests comes => exact absurd nests ih.1.not_nests

end ScriptSandbox
