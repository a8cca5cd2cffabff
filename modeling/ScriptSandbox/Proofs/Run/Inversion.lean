import ScriptSandbox.Run

/-!
What the parts of the interpreter can do, read backwards from their results. Each statement lists
every way to a result together with the condition of that way.
-/

namespace ScriptSandbox

def Machine.raised (machine : Machine) : Machine :=
  { machine with control := machine.control.setDepth (machine.control.depth + 1) }

namespace Interpreter

/-- Entering a block raises the depth count. Beyond the ceiling nothing more happens; below it the
count is lowered again after what ran inside. -/
theorem with_depth_cases {Result : Type} {line : Nat}
    {inside : Machine → Option (Result × Machine)} {machine next : Machine}
    {result : Except Fault Result} (ran : withDepth line inside machine = some (result, next)) :
    (machine.control.limit < machine.control.depth + 1 ∧
      result = .error (.tooDeep line machine.control.limit) ∧ next = machine.raised) ∨
    (machine.control.depth + 1 ≤ machine.control.limit ∧
      ∃ inner final, inside machine.raised = some (inner, final) ∧ result = .ok inner ∧
        next = final.leave) := by
  by_cases deep : machine.control.limit < machine.control.depth + 1
  · left
    simp only [withDepth, Machine.enter, Control.enter, if_pos deep, Option.some.injEq,
      Prod.mk.injEq] at ran
    exact ⟨deep, ran.1.symm, ran.2.symm⟩
  · right
    have entered : machine.enter line = (.ok (), machine.raised) := by
      simp only [Machine.enter, Control.enter, if_neg deep]
      rfl
    simp only [withDepth, entered] at ran
    split at ran
    · cases ran
    · next inner final ranInside =>
        simp only [Option.some.injEq, Prod.mk.injEq] at ran
        exact ⟨Nat.le_of_not_lt deep, inner, final, ranInside, ran.1.symm, ran.2.symm⟩

/-- How a body goes on after an entered block with the given result. -/
def flowAfter : Except Fault Unit → Except Fault Flow
  | .ok () => .ok .next
  | .error fault => .error fault

theorem run_entered_cases {line : Nat} {inside : Machine → Option (Except Fault Unit × Machine)}
    {machine next : Machine} {result : Except Fault Flow}
    (ran : runEntered line inside machine = some (result, next)) :
    (machine.control.limit < machine.control.depth + 1 ∧
      result = .error (.tooDeep line machine.control.limit) ∧ next = machine.raised) ∨
    (machine.control.depth + 1 ≤ machine.control.limit ∧
      ∃ inner final, inside machine.raised = some (inner, final) ∧ result = flowAfter inner ∧
        next = final.leave) := by
  unfold runEntered at ran
  split at ran
  · cases ran
  · next fault after entered =>
      cases ran
      rcases with_depth_cases entered with ⟨deep, failed, raised⟩ | ⟨-, _, _, -, same, -⟩
      · cases failed
        exact .inl ⟨deep, rfl, raised⟩
      · cases same
  · next fault after entered =>
      cases ran
      rcases with_depth_cases entered with ⟨-, failed, -⟩ | ⟨below, inner, final, inside, same, left⟩
      · cases failed
      · cases same
        exact .inr ⟨below, .error fault, final, inside, rfl, left⟩
  · next after entered =>
      cases ran
      rcases with_depth_cases entered with ⟨-, failed, -⟩ | ⟨below, inner, final, inside, same, left⟩
      · cases failed
      · cases same
        exact .inr ⟨below, .ok (), final, inside, rfl, left⟩

theorem with_head_cases {statement : Statement} {incomplete unopened : Malformed}
    {rest : Nat → Value → Machine → Option Outcome} {machine next : Machine}
    {result : Except Fault Flow}
    (ran : withHead statement incomplete unopened rest machine = some (result, next)) :
    (statement.arguments.length < 3 ∧ result = .error (.malformed statement.line incomplete) ∧
      next = machine) ∨
    (3 ≤ statement.arguments.length ∧ statement.open? = none ∧
      result = .error (.malformed statement.line unopened) ∧ next = machine) ∨
    (3 ≤ statement.arguments.length ∧ ∃ opening fault, statement.open? = some opening ∧
      machine.evaluate (statement.arguments.take opening) statement.line = (.error fault, next) ∧
      result = .error fault) ∨
    (3 ≤ statement.arguments.length ∧ ∃ opening value middle, statement.open? = some opening ∧
      machine.evaluate (statement.arguments.take opening) statement.line = (.ok value, middle) ∧
      rest opening value middle = some (result, next)) := by
  unfold withHead at ran
  split at ran
  · next few =>
      cases ran
      exact .inl ⟨few, rfl, rfl⟩
  · next many =>
      have enough := Nat.le_of_not_lt many
      split at ran
      · next unmarked =>
          cases ran
          exact .inr (.inl ⟨enough, unmarked, rfl, rfl⟩)
      · next opening marked =>
          split at ran
          · next fault middle failed =>
              cases ran
              exact .inr (.inr (.inl ⟨enough, opening, fault, marked, failed, rfl⟩))
          · next value middle evaluated =>
              exact .inr (.inr (.inr ⟨enough, opening, value, middle, marked, evaluated, ran⟩))

theorem run_block_cases {statement : Statement} {opening : Nat}
    {inside : List Statement → Machine → Option (Except Fault Unit × Machine)}
    {machine next : Machine} {result : Except Fault Flow}
    (ran : runBlock statement opening inside machine = some (result, next)) :
    (∃ fault, statement.bodyStatements opening = .error fault ∧ result = .error fault ∧
      next = machine) ∨
    (∃ body, statement.bodyStatements opening = .ok body ∧
      runEntered statement.line (inside body) machine = some (result, next)) := by
  unfold runBlock at ran
  split at ran
  · next fault unread =>
      cases ran
      exact .inl ⟨fault, unread, rfl, rfl⟩
  · next body read => exact .inr ⟨body, read, ran⟩

/-- A nested program runs with a depth count of its own, and the outer count is back afterwards. -/
theorem run_nested_cases {execute : Executor} {source : String} {machine next : Machine}
    (ran : runNested execute source machine = some next) :
    ∃ final, runProgram execute source
        { machine with control := machine.control.setDepth 0 } = some final ∧
      next = { final with control := final.control.setDepth machine.control.depth } := by
  unfold runNested at ran
  dsimp only at ran
  split at ran
  · cases ran
  · next final program =>
      cases ran
      exact ⟨final, program, rfl⟩

theorem run_call_cases {execute : Executor} {statement : Statement} {machine next : Machine}
    {result : Except Fault Flow} (ran : runCall execute statement machine = some (result, next)) :
    (result = .error (.misuse statement.line (.unknownCommand statement.command)) ∧
      next = machine ∧ ((statement.call? = none) ∨
        ∃ call, statement.call? = some call ∧ machine.function? call.name = none)) ∨
    (∃ call function, statement.call? = some call ∧
      machine.function? call.name = some function ∧
      runEntered statement.line (invoke execute function call.arguments statement.line) machine =
        some (result, next)) := by
  unfold runCall at ran
  dsimp only at ran
  split at ran
  · next unnamed =>
      cases ran
      exact .inl ⟨rfl, rfl, .inl unnamed⟩
  · next call named =>
      split at ran
      · next undeclared =>
          cases ran
          exact .inl ⟨rfl, rfl, .inr ⟨call, named, undeclared⟩⟩
      · next function declared => exact .inr ⟨call, function, named, declared, ran⟩

/-- The body of a function runs in the frame of its parameters, and the caller's scope is back
afterwards. -/
theorem invoke_cases {execute : Executor} {function : Function} {arguments : List (List String)}
    {line : Nat} {machine next : Machine} {result : Except Fault Unit}
    (ran : invoke execute function arguments line machine = some (result, next)) :
    (∃ fault, bindArguments line function.parameters arguments machine.scope machine =
      (.error fault, next) ∧ result = .error fault) ∨
    (∃ frame bound flow final,
      bindArguments line function.parameters arguments machine.scope machine = (.ok frame, bound) ∧
      runBody execute function.body { bound with scope := frame } = some (flow, final) ∧
      result = .ok () ∧ next = { final with scope := bound.scope }) := by
  unfold invoke at ran
  split at ran
  · next fault bound failed =>
      cases ran
      exact .inl ⟨fault, failed, rfl⟩
  · next frame bound succeeded =>
      split at ran
      · cases ran
      · next flow final body =>
          cases ran
          exact .inr ⟨frame, bound, flow, final, succeeded, body, rfl, rfl⟩

end Interpreter

theorem run_cases {fuel limit : Nat} {source : String} {host final : Host} {report : Report}
    (ended : run fuel limit source host = some (report, final)) :
    ∃ machine, Interpreter.runProgram (Interpreter.execute fuel) source
        (Machine.start limit host) = some machine ∧
      report = ⟨machine.control.exitCode, machine.elapsed.1⟩ ∧
      final = machine.host.readClock.2 := by
  unfold run at ended
  split at ended
  · cases ended
  · next machine ran =>
      cases ended
      exact ⟨machine, ran, rfl, rfl⟩

end ScriptSandbox
