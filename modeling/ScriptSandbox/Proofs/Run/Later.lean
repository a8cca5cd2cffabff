import ScriptSandbox.Proofs.Expression.Moments
import ScriptSandbox.Proofs.Run.Cases

/-!
Everything that runs statements goes from one moment to a later one. A call sets the caller's scope
aside and takes it up again, so between its two ends the scopes of the callers are the same.
-/

namespace ScriptSandbox

open Moment

namespace Machine

/-- The second machine, in a call of the second callers, is come to by steps from the first. -/
def Leads (callers : List Scope) (machine : Machine) (others : List Scope) (next : Machine) : Prop :=
  ∀ handed, ∃ after, Steps (machine.moment callers handed) (next.moment others after)

/-- The second machine is come to by steps from the first in the same call. -/
def Later (machine next : Machine) : Prop :=
  ∀ callers, Leads callers machine callers next

theorem Leads.trans {first second third : List Scope} {machine middle next : Machine}
    (before : Leads first machine second middle) (after : Leads second middle third next) :
    Leads first machine third next := by
  intro handed
  rcases before handed with ⟨between, steps⟩
  rcases after between with ⟨final, more⟩
  exact ⟨final, steps.trans more⟩

theorem later_of_same {machine next : Machine} (scope : next.scope = machine.scope)
    (heap : next.heap = machine.heap) : machine.Later next := by
  intro callers handed
  refine ⟨handed, ?_⟩
  rw [moment, moment, scope, heap]

theorem Later.trans {machine middle next : Machine} (before : machine.Later middle)
    (after : middle.Later next) : machine.Later next :=
  fun callers => (before callers).trans (after callers)

theorem later_composes : Composes Later :=
  ⟨later_of_same, Later.trans⟩

theorem Hands.later {machine next : Machine} {result : Except Fault Value}
    (hands : machine.Hands result next) : machine.Later next := by
  intro callers handed
  rcases hands callers handed with ⟨after, evaluation, -⟩
  exact ⟨after, steps_of_evaluation evaluation⟩

theorem evaluate_later {tokens : List String} {line : Nat} {machine next : Machine}
    {result : Except Fault Value} (evaluated : machine.evaluate tokens line = (result, next)) :
    machine.Later next :=
  (evaluate_hands evaluated).later

/-- A value is evaluated and bound. -/
theorem assign_later {tokens : List String} {line : Nat} {machine next : Machine} {value : Value}
    (evaluated : machine.evaluate tokens line = (.ok value, next)) (name : String) :
    machine.Later (next.setVariable name value) := by
  intro callers handed
  rcases evaluate_hands evaluated callers handed with ⟨after, evaluation, given⟩
  have assigned := Step.assign (next.moment callers after) name (given value rfl)
  exact ⟨after, (steps_of_evaluation evaluation).tail assigned⟩

theorem declare_later (machine : Machine) (function : Function) :
    machine.Later (machine.declare function) :=
  fun callers handed => ⟨handed, .single (.declare (machine.moment callers handed) function)⟩

end Machine

open Machine

namespace Interpreter

/-- The arguments of a call are handed on, and its frame binds nothing else beside what the caller
has bound. -/
theorem bind_arguments_evaluation {line : Nat} {parameters : List String}
    {arguments : List (List String)} {frame : Scope} {machine next : Machine}
    {result : Except Fault Scope} {callers : List Scope} {handed : List Value}
    (bound : bindArguments line parameters arguments frame machine = (result, next))
    (held : ∀ name value, frame.bindings.get? name = some value →
      value ∈ handed ∨ machine.scope.bindings.get? name = some value) :
    ∃ after, Evaluation (machine.moment callers handed) (next.moment callers after) ∧
      ∀ final, result = .ok final → ∀ name value, final.bindings.get? name = some value →
        value ∈ after ∨ next.scope.bindings.get? name = some value := by
  induction parameters generalizing arguments frame machine handed with
  | nil =>
      cases bound
      refine ⟨handed, .refl, fun final same => ?_⟩
      cases same
      exact held
  | cons parameter parameters ih =>
      -- One more parameter is bound to a value that is at hand.
      have binding {value : Value} {more : List Value} (grows : handed ⊆ more)
          (given : value ∈ more) (name : String) (other : Value)
          (found : (frame.setVariable parameter value).bindings.get? name = some other) :
          other ∈ more ∨ machine.scope.bindings.get? name = some other := by
        by_cases same : name = parameter
        · rw [same, Scope.setVariable, Table.get_set_self] at found
          cases found
          exact .inl given
        · rw [Scope.setVariable, Table.get_set_other _ _ _ _ same] at found
          rcases held name other found with old | old
          · exact .inl (grows old)
          · exact .inr old
      cases arguments with
      | nil =>
          have step := EvaluationStep.scalar (machine.moment callers handed) .null rfl
          rcases ih bound (binding (evaluation_step_handed step) List.mem_cons_self) with ⟨after, steps, last⟩
          exact ⟨after, .head step steps, last⟩
      | cons tokens arguments =>
          unfold bindArguments at bound
          split at bound
          · next failed =>
              cases bound
              rcases evaluate_hands failed callers handed with ⟨after, steps, -⟩
              exact ⟨after, steps, of_error_eq_ok⟩
          · next value middle evaluated =>
              have asks := evaluate_asks tokens line machine
              rw [evaluated] at asks
              rcases evaluate_hands evaluated callers handed with ⟨between, steps, given⟩
              have held := binding (evaluation_handed steps) (given value rfl)
              rw [← asks.scope] at held
              rcases ih bound held with ⟨after, more, last⟩
              exact ⟨after, steps.trans more, last⟩

theorem bind_arguments_later {line : Nat} {parameters : List String}
    {arguments : List (List String)} {machine next : Machine} {result : Except Fault Scope}
    (bound : bindArguments line parameters arguments machine.scope machine = (result, next)) :
    machine.Later next := by
  intro callers handed
  rcases bind_arguments_evaluation bound fun name value found => .inr found with
    ⟨after, evaluation, -⟩
  exact ⟨after, steps_of_evaluation evaluation⟩

theorem call_leads {line : Nat} {parameters : List String} {arguments : List (List String)}
    {machine bound : Machine} {frame : Scope}
    (binding : bindArguments line parameters arguments machine.scope machine = (.ok frame, bound))
    (callers : List Scope) :
    Leads callers machine (bound.scope :: callers) { bound with scope := frame } := by
  intro handed
  rcases bind_arguments_evaluation binding fun name value found => .inr found with
    ⟨after, evaluation, held⟩
  have called := Step.call (bound.moment callers after) (held frame rfl)
  exact ⟨after, (steps_of_evaluation evaluation).tail called⟩

theorem return_leads (machine : Machine) (caller : Scope) (callers : List Scope) :
    Leads (caller :: callers) machine callers { machine with scope := caller } :=
  fun handed => ⟨handed, .single (.comeBack (machine.moment (caller :: callers) handed) rfl)⟩

/-- Something that only goes on to later moments. -/
def GoesOn {Result : Type} (step : Machine → Option (Result × Machine)) : Prop :=
  ∀ machine result next, step machine = some (result, next) → machine.Later next

theorem run_entered_goes_on {inside : Machine → Option (Except Fault Unit × Machine)}
    (goes : GoesOn inside) (line : Nat) : GoesOn (runEntered line inside) := by
  intro machine result next ran
  rcases run_entered_cases ran with ⟨-, -, same⟩ | ⟨-, inner, final, ranInside, -, same⟩
  · rw [same]
    exact later_of_same rfl rfl
  · rw [same]
    have entering : machine.Later machine.raised := later_of_same rfl rfl
    exact (entering.trans (goes _ _ _ ranInside)).trans (later_of_same rfl rfl)

section

variable {execute : Executor} (goes : ∀ statement, GoesOn (execute statement))
include goes

theorem run_body_later {body : List Statement} {machine next : Machine} {flow : Flow}
    (ran : runBody execute body machine = some (flow, next)) : machine.Later next :=
  run_body_keeps later_composes (fun statement _ => goes statement) ran

theorem run_statements_later {statements : List Statement} {machine next : Machine}
    (ran : runStatements execute statements machine = some next) : machine.Later next :=
  run_statements_keeps later_composes (fun statement _ => goes statement) ran

theorem run_program_later {source : String} {machine next : Machine}
    (ran : runProgram execute source machine = some next) : machine.Later next := by
  unfold runProgram at ran
  split at ran
  · cases ran
    exact later_of_same rfl rfl
  · exact run_statements_later goes ran

theorem run_passes_later {body : List Statement} {count passes : Number} {fuel : Nat}
    {machine next : Machine}
    (ran : runPasses execute body count fuel passes machine = some next) : machine.Later next :=
  run_passes_keeps later_composes (fun statement _ => goes statement) ran

theorem run_while_holds_later {condition : List String} {line : Nat} {body : List Statement}
    {fuel : Nat} {machine next : Machine} {result : Except Fault Unit}
    (ran : runWhileHolds execute condition line body fuel machine = some (result, next)) :
    machine.Later next := by
  fun_induction runWhileHolds execute condition line body fuel machine with
  | case1 =>
      cases ran
      exact later_of_same rfl rfl
  | case2 fuel machine unhalted fault middle failed =>
      cases ran
      exact evaluate_later failed
  | case3 | case4 => cases ran
  | case5 machine unhalted value middle evaluated _ fuel flow final ranBody ih =>
      exact ((evaluate_later evaluated).trans (run_body_later goes ranBody)).trans (ih ran)
  | case6 fuel machine unhalted value middle evaluated _ =>
      cases ran
      exact evaluate_later evaluated

theorem invoke_later {function : Function} {arguments : List (List String)} {line : Nat}
    {machine next : Machine} {result : Except Fault Unit}
    (ran : invoke execute function arguments line machine = some (result, next)) :
    machine.Later next := by
  rcases invoke_cases ran with ⟨fault, failed, -⟩ | ⟨frame, bound, flow, final, binding, body, -, same⟩
  · exact bind_arguments_later failed
  · rw [same]
    intro callers
    have inside := run_body_later goes body (bound.scope :: callers)
    exact ((call_leads binding callers).trans inside).trans (return_leads final bound.scope callers)

/-- What runs inside an entry goes on to later moments, whatever the entry is. -/
theorem inside_goes_on (activation : Activation) (fuel line : Nat) :
    GoesOn (activation.inside execute fuel line) := by
  intro machine result next ran
  cases activation with
  | ifBlock body =>
      rcases Option.map_eq_some_iff.mp ran with ⟨⟨flow, final⟩, ranBody, same⟩
      cases same
      exact run_body_later goes ranBody
  | loopBlock body count =>
      rcases Option.map_eq_some_iff.mp ran with ⟨final, passes, same⟩
      cases same
      exact run_passes_later goes passes
  | whileBlock body condition => exact run_while_holds_later goes ran
  | call function arguments => exact invoke_later goes ran

theorem run_nested_later {source : String} {machine next : Machine}
    (ran : runNested execute source machine = some next) : machine.Later next := by
  rcases run_nested_cases ran with ⟨final, program, same⟩
  have entering : machine.Later { machine with control := machine.control.setDepth 0 } :=
    later_of_same rfl rfl
  rw [same]
  exact (entering.trans (run_program_later goes program)).trans (later_of_same rfl rfl)

end

end Interpreter

theorem later_keeps (statement : Statement) : PlainCommand.Keeps statement Later :=
  ⟨later_composes, evaluate_later, assign_later, fun _ machine _ _ => machine.declare_later _⟩

theorem Statement.Requests.later {statement : Statement} {machine ready : Machine}
    {activation : Activation} (requests : statement.Requests machine activation ready) :
    machine.Later ready := by
  cases requests with
  | ifBlock _ head | loopBlock _ head | whileBlock _ head => exact evaluate_later head.evaluated
  | call => exact later_of_same rfl rfl

theorem Statement.Nests.later {statement : Statement} {machine ready : Machine} {source : String}
    (nests : statement.Nests machine source ready) : machine.Later ready := by
  rcases nests.evaluated with ⟨value, -, -, evaluated⟩
  exact evaluate_later evaluated

namespace Interpreter

theorem execute_goes_on (fuel : Nat) (statement : Statement) :
    GoesOn (execute fuel statement) := by
  induction fuel generalizing statement with
  | zero =>
      intro machine result next ran
      cases ran
  | succ fuel ih =>
      intro machine result next ran
      rcases execute_cases statement machine with ⟨_, _, done, always⟩ |
        ⟨activation, ready, requests⟩ | ⟨source, ready, nests⟩
      · cases (always fuel).symm.trans ran
        exact done.keeps (later_keeps statement)
      · rw [execute_requested requests] at ran
        apply requests.later.trans
        exact run_entered_goes_on (inside_goes_on ih activation fuel statement.line) statement.line
          ready result next ran
      · rw [execute_nested nests] at ran
        rcases Option.map_eq_some_iff.mp ran with ⟨final, nested, same⟩
        cases same
        exact nests.later.trans (run_nested_later ih nested)

end Interpreter

end ScriptSandbox
