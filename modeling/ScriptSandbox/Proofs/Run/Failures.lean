import ScriptSandbox.Proofs.Expression.Effects
import ScriptSandbox.Proofs.Run.Depth
import ScriptSandbox.Proofs.Run.Tame

/-!
A statement that fails has not half executed. Each fault comes up before the statement binds,
declares, writes or saves anything, and before a body starts. What it leaves behind are the changes
that its own expressions made to arrays, and a raised depth count where the ceiling refused an entry.
Two commands are apart: `while` evaluates its condition again between passes, and a drawing shows its
colour before its coordinates are known.
-/

namespace ScriptSandbox

namespace Machine

/-- The second machine has the bindings, the declared functions, the halt payload, the output, the
drawings and the store of the first. -/
structure Untouched (before after : Machine) : Prop where
  scope : after.scope = before.scope
  functions : after.heap.functions = before.heap.functions
  payload : after.control.payload = before.control.payload
  output : after.host.outputLines = before.host.outputLines
  drawings : after.host.drawings = before.host.drawings
  store : after.host.store = before.host.store

theorem untouched_refl (machine : Machine) : Untouched machine machine := by
  constructor <;> rfl

theorem Untouched.trans {first second third : Machine} (before : Untouched first second)
    (after : Untouched second third) : Untouched first third where
  scope := after.scope.trans before.scope
  functions := after.functions.trans before.functions
  payload := after.payload.trans before.payload
  output := after.output.trans before.output
  drawings := after.drawings.trans before.drawings
  store := after.store.trans before.store

/-- Counting an entry or its end touches the depth count only. -/
theorem Untouched.count {before after : Machine} (untouched : Untouched before after) (depth : Nat) :
    Untouched before { after with control := after.control.setDepth depth } where
  scope := untouched.scope
  functions := untouched.functions
  payload := untouched.payload
  output := untouched.output
  drawings := untouched.drawings
  store := untouched.store

theorem raised_untouched (machine : Machine) : Untouched machine machine.raised :=
  (untouched_refl machine).count _

theorem evaluate_untouched {tokens : List String} {line : Nat} {machine next : Machine}
    {result : Except Fault Value} (evaluated : machine.evaluate tokens line = (result, next)) :
    Untouched machine next := by
  have asks := evaluate_asks tokens line machine
  have confined := evaluate_with_confined answer_all_loads tokens line machine
  have kept := evaluate_with_scope_store answer_all_loads tokens line machine
  have frame : Frame (Reach machine.scope tokens) machine (machine.evaluate tokens line).2 :=
    asks.frame kept.2 confined
  rw [evaluated] at frame
  constructor
  · exact frame.scope
  · exact evaluate_functions evaluated
  · rw [frame.control]
  · exact frame.output
  · exact frame.drawings
  · exact frame.store

/-- A save that the store refuses is asked for and changes nothing. -/
theorem refused_save_untouched {machine : Machine} {key : String} {value : Json} {cause : StoreFault}
    (refused : (machine.host.save key value).1 = .error cause) :
    Untouched machine { machine with host := (machine.host.save key value).2 } := by
  have asked : (machine.host.save key value).2 = machine.host.record (.save key) := by
    unfold Host.save at refused ⊢
    split at refused
    · rfl
    · cases refused
  rw [asked]
  constructor
  · rfl
  · rfl
  · rfl
  · simp [Host.outputLines, Host.record, Event.line?]
  · simp [Host.drawings, Host.record, Event.isDrawing]
  · rfl

end Machine

namespace PlainCommand

open Machine

variable {statement : Statement} {machine next : Machine} {fault : Fault}

theorem run_log_fails (failed : runLog statement machine = (.error fault, next)) :
    Untouched machine next := by
  unfold runLog at failed
  split at failed
  · cases failed
    exact untouched_refl machine
  · split at failed
    · next unevaluated =>
        cases failed
        exact evaluate_untouched unevaluated
    · cases failed

theorem run_assign_fails (failed : runAssign statement machine = (.error fault, next)) :
    Untouched machine next := by
  unfold runAssign at failed
  split at failed
  · split at failed
    · split at failed
      · next unevaluated =>
          cases failed
          exact evaluate_untouched unevaluated
      · cases failed
    · cases failed
      exact untouched_refl machine
  · cases failed
    exact untouched_refl machine

theorem run_save_fails (failed : runSave statement machine = (.error fault, next)) :
    Untouched machine next := by
  unfold runSave at failed
  split at failed
  · split at failed
    · next unevaluated =>
        cases failed
        exact evaluate_untouched unevaluated
    · next keyed =>
        have keyUntouched := evaluate_untouched keyed
        dsimp only at failed
        split at failed
        · next unevaluated =>
            cases failed
            exact keyUntouched.trans (evaluate_untouched unevaluated)
        · next valued =>
            have untouched := keyUntouched.trans (evaluate_untouched valued)
            split at failed
            · next refused =>
                cases failed
                exact untouched.trans (refused_save_untouched refused)
            · cases failed
  · cases failed
    exact untouched_refl machine

theorem run_declare_fails (failed : runDeclare statement machine = (.error fault, next)) :
    Untouched machine next := by
  unfold runDeclare at failed
  split at failed
  · cases failed
    exact untouched_refl machine
  · dsimp only at failed
    split at failed
    · cases failed
      exact untouched_refl machine
    · split at failed
      · cases failed
        exact untouched_refl machine
      · split at failed
        · cases failed
          exact untouched_refl machine
        · cases failed

/-- A plain command that fails leaves the machine untouched, but for a drawing. -/
theorem run_fails {command : PlainCommand} (shows : command ≠ .draw)
    (failed : command.run statement machine = (.error fault, next)) : Untouched machine next := by
  cases command with
  | assign => exact run_assign_fails failed
  | declare => exact run_declare_fails failed
  | log => exact run_log_fails failed
  | save => exact run_save_fails failed
  | draw => exact absurd rfl shows
  | leaveBody | comment | exit => cases failed

end PlainCommand

open Machine

theorem Statement.Done.untouched {statement : Statement} {machine next : Machine} {fault : Fault}
    (notDraw : statement.command ≠ "rend") (done : statement.Done machine (.error fault) next) :
    Untouched machine next := by
  cases done with
  | plain named ran =>
      apply PlainCommand.run_fails _ ran
      rintro rfl
      exact notDraw (Command.eq_word_of_name named)
  | unchanged => exact untouched_refl machine
  | evaluated _ evaluated => exact evaluate_untouched evaluated

theorem Statement.Requests.untouched {statement : Statement} {machine ready : Machine}
    {activation : Activation} (requests : statement.Requests machine activation ready) :
    Untouched machine ready := by
  cases requests with
  | ifBlock _ head | loopBlock _ head | whileBlock _ head => exact evaluate_untouched head.evaluated
  | call => exact untouched_refl machine

namespace Interpreter

theorem bind_arguments_untouched {line : Nat} {parameters : List String}
    {arguments : List (List String)} {frame : Scope} {machine next : Machine}
    {result : Except Fault Scope}
    (bound : bindArguments line parameters arguments frame machine = (result, next)) :
    Untouched machine next := by
  induction parameters generalizing arguments frame machine with
  | nil =>
      cases bound
      exact untouched_refl _
  | cons parameter parameters ih =>
      cases arguments with
      | nil => exact ih bound
      | cons tokens arguments =>
          unfold bindArguments at bound
          split at bound
          · next failed =>
              cases bound
              exact evaluate_untouched failed
          · next evaluated => exact (evaluate_untouched evaluated).trans (ih bound)

/-- Of all that runs inside an entry, only a `while` and the binding of arguments return a fault: a
fault in a body is reported there. -/
theorem inside_fails {execute : Executor} {activation : Activation} {fuel line : Nat}
    {entered next : Machine} {fault : Fault}
    (failed : activation.inside execute fuel line entered = some (.error fault, next)) :
    (∃ body condition, activation = .whileBlock body condition) ∨
      ∃ function arguments, activation = .call function arguments ∧
        bindArguments line function.parameters arguments entered.scope entered =
          (.error fault, next) := by
  cases activation with
  | ifBlock body =>
      rcases Option.map_eq_some_iff.mp failed with ⟨ending, -, same⟩
      cases same
  | loopBlock body count =>
      rcases Option.map_eq_some_iff.mp failed with ⟨final, -, same⟩
      cases same
  | whileBlock body condition => exact .inl ⟨body, condition, rfl⟩
  | call function arguments =>
      rcases invoke_cases failed with ⟨raised, unbound, same⟩ | ⟨_, _, _, _, -, -, same, -⟩
      · cases same
        exact .inr ⟨function, arguments, rfl, unbound⟩
      · cases same

/-- A statement that fails is done at once, or asks for an entry and fails there. -/
theorem execute_fails_cases {fuel : Nat} {statement : Statement} {machine next : Machine}
    {fault : Fault} (ran : execute (fuel + 1) statement machine = some (.error fault, next)) :
    (statement.Done machine (.error fault) next ∧
      ∀ activation ready, ¬statement.Requests machine activation ready) ∨
    ∃ activation ready, statement.Requests machine activation ready ∧
      runEntered statement.line (activation.inside (execute fuel) fuel statement.line) ready =
        some (.error fault, next) := by
  by_cases asks : ∃ activation ready, statement.Requests machine activation ready
  · rcases asks with ⟨activation, ready, requests⟩
    rw [execute_requested requests] at ran
    exact .inr ⟨activation, ready, requests, ran⟩
  · have idle : ∀ activation ready, ¬statement.Requests machine activation ready :=
      fun activation ready requests => asks ⟨activation, ready, requests⟩
    rcases execute_cases statement machine with ⟨result, after, done, always⟩ | requests |
      ⟨source, ready, nests⟩
    · cases (always fuel).symm.trans ran
      exact .inl ⟨done, idle⟩
    · exact absurd requests asks
    · rw [execute_nested nests] at ran
      rcases Option.map_eq_some_iff.mp ran with ⟨final, -, same⟩
      cases same

/-- An entry that fails was refused by the ceiling, with the count raised, or is a call with an
argument that fails. -/
theorem entry_fails {fuel : Nat} {statement : Statement} {machine ready next : Machine}
    {activation : Activation} {fault : Fault} (notWhile : statement.command ≠ "while")
    (requests : statement.Requests machine activation ready)
    (ran : runEntered statement.line (activation.inside (execute fuel) fuel statement.line) ready =
      some (.error fault, next)) :
    Untouched machine next ∧
      next.control.depth = machine.control.depth + if fault.isLimit then 1 else 0 := by
  have before := requests.untouched
  have level : ready.control.depth = machine.control.depth := by rw [requests.control]
  rcases run_entered_cases ran with ⟨-, refused, rfl⟩ | ⟨-, inner, final, inside, failed, rfl⟩
  · cases refused
    constructor
    · exact before.count _
    · rw [raised, Control.setDepth, level]
      rfl
  · cases inner with
    | ok done => cases failed
    | error cause =>
        cases failed
        rcases inside_fails inside with ⟨body, condition, rfl⟩ | ⟨function, arguments, rfl, unbound⟩
        · cases requests with
          | whileBlock named => exact absurd (Command.eq_word_of_name named) notWhile
        · have settled := bind_arguments_settles unbound
          have bound := bind_arguments_untouched unbound
          constructor
          · exact (before.trans (ready.raised_untouched.trans bound)).count _
          · rw [settled.unlimited.fault, leave, Control.leave, settled.level.depth, raised,
              Control.setDepth, level]
            rfl

end Interpreter

open Interpreter

/-- A statement that fails, and is neither a `while` nor a drawing, has changed no binding, no
declared function, no halt payload, no output, no drawing and no stored entry. The depth count is one
higher when the ceiling refused an entry, and as it was with any other fault. -/
theorem failed_statement_untouched {fuel : Nat} {statement : Statement} {machine next : Machine}
    {fault : Fault} (notWhile : statement.command ≠ "while") (notDraw : statement.command ≠ "rend")
    (ran : execute fuel statement machine = some (.error fault, next)) :
    Untouched machine next ∧
      next.control.depth = machine.control.depth + if fault.isLimit then 1 else 0 := by
  cases fuel with
  | zero => cases ran
  | succ fuel =>
      rcases execute_fails_cases ran with ⟨done, idle⟩ | ⟨activation, ready, requests, entered⟩
      · have settled := execute_idle ran idle
        constructor
        · exact done.untouched notDraw
        · rw [settled.2.fault, settled.1]
          rfl
      · exact entry_fails notWhile requests entered

/-- A call whose first argument pushes to an array before the second one fails, and a loop under a
ceiling that is reached. -/
theorem failed_statement_untouched_call :
    let function : Function := ⟨"f", ["a", "b"], [⟨"exit", ["3"], 1⟩]⟩
    let machine : Machine :=
      { Machine.start 1 (Host.standalone .zero .zero .empty 0) with
        scope := ⟨[("xs", .array 0)], []⟩
        heap := ⟨#[#[]], #[], #[]⟩ }.declare function
    let call : Statement := ⟨"f(ref:xs", ["push", "7,", "?)"], 3⟩
    let loop : Statement := ⟨"loop", ["2", "\x7b", "exit 3", "\x7d"], 4⟩
    (∃ fault next, execute 2 call machine = some (.error fault, next) ∧
      next.heap.items 0 ≠ machine.heap.items 0 ∧ Untouched machine next ∧
      next.control.depth = 0) ∧
    ∃ fault next, execute 2 loop machine.raised = some (.error fault, next) ∧
      Untouched machine.raised next ∧ next.control.depth = 2 := by
  intro function machine call loop
  constructor
  · have ends : (execute 2 call machine).map (fun outcome =>
        (outcome.1.toOption, outcome.2.heap.items 0, outcome.2.control.depth)) =
          some (none, #[.number (.ofNat 7)], 0) := by
      decide +kernel
    rcases Option.map_eq_some_iff.mp ends with ⟨⟨result, next⟩, ran, left⟩
    simp only [Prod.mk.injEq] at left
    obtain ⟨failed, items, depth⟩ := left
    cases result with
    | ok flow => cases failed
    | error fault =>
        have untouched := failed_statement_untouched (by decide) (by decide) ran
        exact ⟨fault, next, ran, by rw [items]; decide +kernel, untouched.1, depth⟩
  · have ends : (execute 2 loop machine.raised).map (fun outcome =>
        (outcome.1.toOption, outcome.2.control.depth)) = some (none, 2) := by
      decide +kernel
    rcases Option.map_eq_some_iff.mp ends with ⟨⟨result, next⟩, ran, left⟩
    simp only [Prod.mk.injEq] at left
    obtain ⟨failed, depth⟩ := left
    cases result with
    | ok flow => cases failed
    | error fault =>
        have untouched := failed_statement_untouched (by decide) (by decide) ran
        exact ⟨fault, next, ran, untouched.1, depth⟩

end ScriptSandbox
