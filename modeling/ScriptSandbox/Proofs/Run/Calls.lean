import ScriptSandbox.Proofs.Run.Order

/-!
Calls and the bindings around them. The arguments of a call are evaluated in the caller's scope, the
body runs in a frame of its own, and the caller's scope is back afterwards, however the body ends.
-/

namespace ScriptSandbox

open Machine Moment

/-- Expressions are evaluated one after the other, each in the caller's scope. -/
inductive EvaluatesEach (caller : Scope) (line : Nat) :
    List (List String) → Machine → List Value → Machine → Prop
  | nil (machine : Machine) : EvaluatesEach caller line [] machine [] machine
  | cons {tokens : List String} {rest : List (List String)} {machine middle final : Machine}
      {value : Value} {values : List Value} (scope : machine.scope = caller)
      (evaluated : machine.evaluate tokens line = (.ok value, middle))
      (others : EvaluatesEach caller line rest middle values final) :
      EvaluatesEach caller line (tokens :: rest) machine (value :: values) final

/-- The frame of a call: what the caller has bound, and each parameter bound to its value, `null` for
want of one. The last of several parameters with one name counts. -/
structure BindsParameters (caller : Scope) (parameters : List String) (values : List Value)
    (frame : Scope) : Prop where
  functions : frame.functions = caller.functions
  others : ∀ name, name ∉ parameters → frame.bindings.get? name = caller.bindings.get? name
  bound : ∀ place name, parameters[place]? = some name →
    (∀ later, place < later → parameters[later]? ≠ some name) →
      frame.bindings.get? name = some (values.getD place .null)

theorem BindsParameters.cons {caller frame : Scope} {parameter : String} {parameters : List String}
    {value : Value} {values : List Value}
    (rest : BindsParameters (caller.setVariable parameter value) parameters values frame) :
    BindsParameters caller (parameter :: parameters) (value :: values) frame := by
  constructor
  · exact rest.functions
  · intro name absent
    rw [List.mem_cons, not_or] at absent
    rw [rest.others name absent.2, Scope.setVariable, Table.get_set_other _ _ _ _ absent.1]
  · intro place name here last
    cases place with
    | zero =>
        cases here
        have absent : parameter ∉ parameters := by
          intro member
          rcases List.getElem?_of_mem member with ⟨index, found⟩
          exact last (index + 1) (Nat.succ_pos index) found
        rw [rest.others parameter absent, Scope.setVariable, Table.get_set_self]
        rfl
    | succ place =>
        apply rest.bound place name here
        intro later behind
        exact last (later + 1) (Nat.succ_lt_succ behind)

theorem BindsParameters.no_value {caller frame : Scope} {parameters : List String}
    (binds : BindsParameters caller parameters [.null] frame) :
    BindsParameters caller parameters [] frame := by
  refine ⟨binds.functions, binds.others, fun place name here last => ?_⟩
  rw [binds.bound place name here last]
  cases place <;> rfl

namespace Interpreter

/-- Arguments are evaluated as far as there are parameters for them, and bound in order. -/
theorem bind_arguments_binds {line : Nat} {parameters : List String}
    {arguments : List (List String)} {caller frame final : Scope} {machine next : Machine}
    (bound : bindArguments line parameters arguments frame machine = (.ok final, next))
    (scope : machine.scope = caller) :
    ∃ values, EvaluatesEach caller line (arguments.take parameters.length) machine values next ∧
      BindsParameters frame parameters values final := by
  induction parameters generalizing arguments frame machine with
  | nil =>
      cases bound
      refine ⟨[], .nil _, rfl, fun _ _ => rfl, ?_⟩
      intro place name here
      cases here
  | cons parameter parameters ih =>
      cases arguments with
      | nil =>
          rcases ih bound scope with ⟨values, each, binds⟩
          rw [List.take_nil] at each
          cases each
          exact ⟨[], .nil _, binds.cons.no_value⟩
      | cons tokens arguments =>
          unfold bindArguments at bound
          split at bound
          · cases bound
          · next value middle evaluated =>
              have asks := evaluate_asks tokens line machine
              rw [evaluated] at asks
              rcases ih bound (asks.scope.trans scope) with ⟨values, each, binds⟩
              exact ⟨value :: values, .cons scope evaluated each, binds.cons⟩

/-- The first argument that fails is one with a parameter; those before it were evaluated. -/
theorem bind_arguments_fails {line : Nat} {parameters : List String}
    {arguments : List (List String)} {caller frame : Scope} {machine next : Machine} {fault : Fault}
    (bound : bindArguments line parameters arguments frame machine = (.error fault, next))
    (scope : machine.scope = caller) :
    ∃ before tokens after values middle,
      arguments.take parameters.length = before ++ tokens :: after ∧
      EvaluatesEach caller line before machine values middle ∧ middle.scope = caller ∧
      middle.evaluate tokens line = (.error fault, next) := by
  induction parameters generalizing arguments frame machine with
  | nil => cases bound
  | cons parameter parameters ih =>
      cases arguments with
      | nil =>
          rcases ih bound scope with ⟨before, tokens, after, values, middle, taken, -⟩
          rw [List.take_nil] at taken
          cases before <;> cases taken
      | cons tokens arguments =>
          unfold bindArguments at bound
          split at bound
          · next failed =>
              cases bound
              exact ⟨[], tokens, _, [], machine, rfl, .nil machine, scope, failed⟩
          · next value middle evaluated =>
              have asks := evaluate_asks tokens line machine
              rw [evaluated] at asks
              rcases ih bound (asks.scope.trans scope) with
                ⟨before, failing, after, values, last, taken, each, scopeThere, failed⟩
              refine ⟨tokens :: before, failing, after, value :: values, last, ?_,
                .cons scope evaluated each, scopeThere, failed⟩
              rw [List.length_cons, List.take_succ_cons, taken, List.cons_append]

theorem invoke_bound {function : Function} {arguments : List (List String)} {line : Nat}
    {machine bound : Machine} {frame : Scope}
    (binding : bindArguments line function.parameters arguments machine.scope machine =
      (.ok frame, bound)) (execute : Executor) :
    invoke execute function arguments line machine =
      (runBody execute function.body { bound with scope := frame }).map fun ending =>
        (.ok (), { ending.2 with scope := machine.scope }) := by
  rw [invoke, binding]
  dsimp only
  rw [bind_arguments_scope binding]
  cases runBody execute function.body { bound with scope := frame } <;> rfl

end Interpreter

open Interpreter

/-- A function that is declared is never declared anew. -/
theorem step_keeps_function {first later : Moment} (step : Step first later) {handle : Nat}
    {function : Function} (declared : first.heap.function? handle = some function) :
    later.heap.function? handle = some function := by
  cases step with
  | evaluate step =>
      have same := evaluation_functions (.single step)
      rw [Heap.function?, same]
      exact declared
  | declare other =>
      have made : handle < first.heap.functions.size :=
        (Array.getElem?_eq_some_iff.mp declared).1
      rw [Heap.function?, Heap.newFunction, Array.getElem?_push_lt made]
      rw [Heap.function?, Array.getElem?_eq_getElem made] at declared
      exact declared
  | assign | call | comeBack => exact declared

theorem Machine.Later.keeps_function {machine next : Machine} (later : machine.Later next)
    {handle : Nat} {function : Function}
    (declared : machine.heap.function? handle = some function) :
    next.heap.function? handle = some function := by
  rcases later [] [] with ⟨after, steps⟩
  have kept {moment : Moment} (steps : Steps (machine.moment [] []) moment) :
      moment.heap.function? handle = some function := by
    induction steps with
    | refl => exact declared
    | tail _ step ih => exact step_keeps_function step ih
  exact kept steps

section

variable {statement : Statement} {machine : Machine} {call : Call} {function : Function}
  (named : Command.ofName? statement.command = none) (called : statement.call? = some call)
  (declared : machine.function? call.name = some function)
include named called declared

theorem execute_call (fuel : Nat) :
    execute (fuel + 1) statement machine =
      runEntered statement.line (invoke (execute fuel) function call.arguments statement.line)
        machine :=
  execute_requested (.call named called declared)

theorem call_scope {fuel : Nat} {next : Machine} {result : Except Fault Flow}
    (ran : execute fuel statement machine = some (result, next)) : next.scope = machine.scope := by
  cases fuel with
  | zero => cases ran
  | succ fuel =>
      rw [execute_call named called declared] at ran
      rcases run_entered_cases ran with ⟨-, -, same⟩ | ⟨-, inner, final, inside, -, same⟩
      · rw [same]
        rfl
      · rw [same]
        rcases invoke_cases inside with ⟨fault, failed, -⟩ |
          ⟨frame, bound, flow, last, binding, -, -, left⟩
        · have scope := bind_arguments_scope failed
          exact scope
        · rw [left]
          have scope := bind_arguments_scope binding
          exact scope

/-- A call never changes its caller's bindings. After it the scope is the caller's again, and each
declared function is as it was. The call is refused by the depth guard; or an argument fails, those
before it being evaluated in the caller's scope; or the arguments that have parameters give values,
the body runs in the frame that binds the parameters to them, and the caller's scope is put back
whatever the body did. -/
theorem call_keeps_caller :
    (∀ fuel result next, execute fuel statement machine = some (result, next) →
      next.scope = machine.scope ∧
      ∀ handle found, machine.heap.function? handle = some found →
        next.heap.function? handle = some found) ∧
    ((machine.control.limit < machine.control.depth + 1 ∧
      ∀ fuel, execute (fuel + 1) statement machine =
        some (.error (.tooDeep statement.line machine.control.limit), machine.raised)) ∨
    (∃ before tokens after values middle fault next,
      call.arguments.take function.parameters.length = before ++ tokens :: after ∧
      EvaluatesEach machine.scope statement.line before machine.raised values middle ∧
      middle.scope = machine.scope ∧
      middle.evaluate tokens statement.line = (.error fault, next) ∧
      ∀ fuel, execute (fuel + 1) statement machine = some (.error fault, next.leave)) ∨
    (∃ values bound frame,
      EvaluatesEach machine.scope statement.line
        (call.arguments.take function.parameters.length) machine.raised values bound ∧
      BindsParameters machine.scope function.parameters values frame ∧
      ∀ fuel, execute (fuel + 1) statement machine =
        (runBody (execute fuel) function.body { bound with scope := frame }).map fun ending =>
          (.ok .next, { ending.2 with scope := machine.scope }.leave))) := by
  constructor
  · intro fuel result next ran
    refine ⟨call_scope named called declared ran, fun handle found known => ?_⟩
    exact (execute_goes_on fuel statement machine result next ran).keeps_function known
  · by_cases deep : machine.control.limit < machine.control.depth + 1
    · refine .inl ⟨deep, fun fuel => ?_⟩
      rw [execute_call named called declared, run_entered_beyond deep]
    · right
      have below := Nat.le_of_not_lt deep
      cases binding : bindArguments statement.line function.parameters call.arguments
          machine.raised.scope machine.raised with
      | mk result bound =>
          cases result with
          | error fault =>
              rcases bind_arguments_fails binding rfl with
                ⟨before, tokens, after, values, middle, taken, each, scope, failed⟩
              refine .inl ⟨before, tokens, after, values, middle, fault, bound, taken, each, scope,
                failed, fun fuel => ?_⟩
              rw [execute_call named called declared, run_entered_within below, invoke, binding]
              rfl
          | ok frame =>
              rcases bind_arguments_binds binding rfl with ⟨values, each, binds⟩
              refine .inr ⟨values, bound, frame, each, binds, fun fuel => ?_⟩
              rw [execute_call named called declared, run_entered_within below,
                invoke_bound binding, Option.map_map]
              rfl

end

/-- A call with a parameter named twice and an argument too many, which no expression could be. -/
theorem call_keeps_caller_surplus :
    let function : Function := ⟨"f", ["a", "a"], [⟨"var", ["x", "=", "a"], 1⟩]⟩
    let machine := (Machine.start 1 (Host.standalone .zero .zero .empty 0)).declare function
    ∃ next, execute 2 ⟨"f", ["1", "2", "?"], 1⟩ machine = some (.ok .next, next) ∧
      next.scope = machine.scope ∧ machine.scope.isBound "x" = false := by
  intro function machine
  let statement : Statement := ⟨"f", ["1", "2", "?"], 1⟩
  have named : Command.ofName? statement.command = none := by decide
  have called : statement.call? = some ⟨"f", [["1"], ["2"], ["?"]]⟩ := by decide +kernel
  have declared : machine.function? "f" = some function := by decide +kernel
  have kept := (call_keeps_caller named called declared).1
  have ends : ((execute 2 statement machine).map fun outcome => outcome.1.toOption) =
      some (some .next) := by decide +kernel
  rcases Option.map_eq_some_iff.mp ends with ⟨⟨result, next⟩, ran, done⟩
  have succeeded := ok_of_to_option done
  dsimp only at succeeded
  rw [succeeded] at ran
  exact ⟨next, ran, (kept 2 _ next ran).1, by decide +kernel⟩

end ScriptSandbox
