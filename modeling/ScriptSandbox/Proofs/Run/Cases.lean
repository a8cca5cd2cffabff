import ScriptSandbox.Proofs.Run.Balance

/-!
The three things a statement can do: it is done at once, it asks for an entry, or it runs a program
of its own. Whatever runs other statements is the inside of an entry or a nested program, and keeps to
what each of these statements keeps to.
-/

namespace ScriptSandbox

namespace Command

/-- The word that a command is called by. -/
def word : Command → String
  | .plain .assign => "var"
  | .plain .leaveBody => "break"
  | .plain .comment => "#"
  | .plain .declare => "func"
  | .plain .draw => "rend"
  | .plain .exit => "exit"
  | .plain .log => "log"
  | .plain .save => "fnl:idbSet"
  | .ifBlock => "if"
  | .loopBlock => "loop"
  | .whileBlock => "while"
  | .nested => "eval"

theorem eq_word_of_name {name : String} {command : Command} (named : ofName? name = some command) :
    name = command.word := by
  unfold ofName? at named
  split at named <;> cases named <;> rfl

end Command

/-- What a statement comes to that runs no other one: a plain command, or at most one expression. -/
inductive Statement.Done (statement : Statement) (machine : Machine) :
    Except Fault Flow → Machine → Prop
  | plain {command : PlainCommand} {result : Except Fault Flow} {next : Machine}
      (named : Command.ofName? statement.command = some (.plain command))
      (ran : command.run statement machine = (result, next)) : Done statement machine result next
  | unchanged (result : Except Fault Flow) : Done statement machine result machine
  | evaluated {tokens : List String} {found : Except Fault Value} {next : Machine}
      (result : Except Fault Flow)
      (evaluated : machine.evaluate tokens statement.line = (found, next)) :
      Done statement machine result next

/-- A relation between machines that looks at their scopes and heaps only and goes from step to
step. -/
structure Machine.Composes (related : Machine → Machine → Prop) : Prop where
  same : ∀ {machine next}, next.scope = machine.scope → next.heap = machine.heap →
    related machine next
  trans : ∀ {machine middle next}, related machine middle → related middle next →
    related machine next

/-- A relation between machines that every plain command keeps to: it allows for what an expression
does, for a binding to its value, and for the declaration of a function with the statement's body. -/
structure PlainCommand.Keeps (statement : Statement) (related : Machine → Machine → Prop) : Prop
    extends Machine.Composes related where
  evaluate : ∀ {tokens line machine next result},
    Machine.evaluate tokens line machine = (result, next) → related machine next
  assign : ∀ {tokens line machine next value},
    Machine.evaluate tokens line machine = (.ok value, next) → ∀ name,
      related machine (next.setVariable name value)
  declare : ∀ {opening body}, statement.bodyStatements opening = .ok body →
    ∀ machine name parameters, related machine (Machine.declare machine ⟨name, parameters, body⟩)

namespace PlainCommand

section

variable {statement : Statement} {related : Machine → Machine → Prop}
  (keeps : Keeps statement related) (machine : Machine)
include keeps

theorem run_log_keeps : related machine (runLog statement machine).2 := by
  unfold runLog
  split
  · exact keeps.same rfl rfl
  · split
    · next failed => exact keeps.evaluate failed
    · next found => exact keeps.trans (keeps.evaluate found) (keeps.same rfl rfl)

theorem run_assign_keeps : related machine (runAssign statement machine).2 := by
  unfold runAssign
  split
  · split
    · split
      · next failed => exact keeps.evaluate failed
      · next found => exact keeps.assign found _
    · exact keeps.same rfl rfl
  · exact keeps.same rfl rfl

theorem run_save_keeps : related machine (runSave statement machine).2 := by
  unfold runSave
  split
  · split
    · next failed => exact keeps.evaluate failed
    · next foundKey =>
        apply keeps.trans (keeps.evaluate foundKey)
        dsimp only
        split
        · next failed => exact keeps.evaluate failed
        · next found =>
            apply keeps.trans (keeps.evaluate found)
            split <;> exact keeps.same rfl rfl
  · exact keeps.same rfl rfl

theorem run_declare_keeps : related machine (runDeclare statement machine).2 := by
  unfold runDeclare
  split
  · exact keeps.same rfl rfl
  · dsimp only
    split
    · exact keeps.same rfl rfl
    · split
      · exact keeps.same rfl rfl
      · split
        · exact keeps.same rfl rfl
        · next read => exact keeps.declare read machine _ _

theorem coordinates_keeps (line : Nat) (texts : List (List Char)) :
    related machine (coordinates line texts machine).2 := by
  induction texts generalizing machine with
  | nil => exact keeps.same rfl rfl
  | cons text rest ih =>
      unfold coordinates
      split
      · next failed => exact keeps.evaluate failed
      · next value next found =>
          have others := ih next
          dsimp only
          split
          · next failed =>
              rw [failed] at others
              exact keeps.trans (keeps.evaluate found) others
          · next read =>
              rw [read] at others
              exact keeps.trans (keeps.evaluate found) others

theorem run_draw_keeps : related machine (runDraw statement machine).2 := by
  unfold runDraw
  dsimp only
  split
  · exact keeps.same rfl rfl
  · split
    · next color x y width height _ _ =>
        have colored : related machine
            (machine.record (.fillColor (String.ofList (unquoted color)))) := keeps.same rfl rfl
        have read := coordinates_keeps keeps
          (machine.record (.fillColor (String.ofList (unquoted color)))) statement.line
          [x, y, width, height]
        split
        · next found =>
            rw [found] at read
            exact keeps.trans colored read
        · next found =>
            rw [found] at read
            exact keeps.trans (keeps.trans colored read) (keeps.same rfl rfl)
        · next found =>
            rw [found] at read
            exact keeps.trans colored read
    · exact keeps.same rfl rfl

theorem run_keeps (command : PlainCommand) : related machine (command.run statement machine).2 := by
  cases command with
  | assign => exact run_assign_keeps keeps machine
  | declare => exact run_declare_keeps keeps machine
  | draw => exact run_draw_keeps keeps machine
  | log => exact run_log_keeps keeps machine
  | save => exact run_save_keeps keeps machine
  | leaveBody | comment | exit => exact keeps.same rfl rfl

end

end PlainCommand

theorem Statement.Done.keeps {statement : Statement} {related : Machine → Machine → Prop}
    (keeps : PlainCommand.Keeps statement related) {machine next : Machine}
    {result : Except Fault Flow} (done : statement.Done machine result next) :
    related machine next := by
  cases done with
  | @plain command _ _ named ran =>
      have kept := PlainCommand.run_keeps keeps machine command
      rw [ran] at kept
      exact kept
  | unchanged result => exact keeps.same rfl rfl
  | evaluated result evaluated => exact keeps.evaluate evaluated

namespace Interpreter

theorem run_entered_beyond {line : Nat} {machine : Machine}
    (deep : machine.control.limit < machine.control.depth + 1)
    (inside : Machine → Option (Except Fault Unit × Machine)) :
    runEntered line inside machine =
      some (.error (.tooDeep line machine.control.limit), machine.raised) := by
  rw [runEntered, withDepth, machine.enter_beyond line deep]

theorem run_entered_within {line : Nat} {machine : Machine}
    (below : machine.control.depth + 1 ≤ machine.control.limit)
    (inside : Machine → Option (Except Fault Unit × Machine)) :
    runEntered line inside machine =
      (inside machine.raised).map fun ending => (flowAfter ending.1, ending.2.leave) := by
  rw [runEntered, withDepth, machine.enter_below line below]
  dsimp only
  cases inside machine.raised with
  | none => rfl
  | some ending =>
      cases ending with
      | mk result final => cases result <;> rfl

section

variable {execute : Executor} {related : Machine → Machine → Prop}
  (composes : Machine.Composes related)
include composes

/-- What each statement of a body keeps to, the body keeps to. -/
theorem run_body_keeps {body : List Statement} {machine next : Machine} {flow : Flow}
    (each : ∀ statement ∈ body, ∀ machine result next,
      execute statement machine = some (result, next) → related machine next)
    (ran : runBody execute body machine = some (flow, next)) : related machine next := by
  fun_induction runBody execute body machine with
  | case1 | case2 =>
      cases ran
      exact composes.same rfl rfl
  | case3 => cases ran
  | case4 statement rest machine unhalted middle executed ih =>
      have others := ih (fun other member => each other (List.mem_cons_of_mem _ member)) ran
      exact composes.trans (each statement List.mem_cons_self machine _ middle executed) others
  | case5 statement rest machine unhalted middle executed =>
      cases ran
      exact each statement List.mem_cons_self machine _ _ executed
  | case6 statement rest machine unhalted fault middle executed =>
      cases ran
      exact composes.trans (each statement List.mem_cons_self machine _ middle executed)
        (composes.same rfl rfl)

theorem run_statements_keeps {statements : List Statement} {machine next : Machine}
    (each : ∀ statement ∈ statements, ∀ machine result next,
      execute statement machine = some (result, next) → related machine next)
    (ran : runStatements execute statements machine = some next) : related machine next := by
  fun_induction runStatements execute statements machine with
  | case1 | case2 =>
      cases ran
      exact composes.same rfl rfl
  | case3 => cases ran
  | case4 statement rest machine unhalted flow middle executed ih =>
      have others := ih (fun other member => each other (List.mem_cons_of_mem _ member)) ran
      exact composes.trans (each statement List.mem_cons_self machine _ middle executed) others
  | case5 statement rest machine unhalted fault middle executed ih =>
      have others := ih (fun other member => each other (List.mem_cons_of_mem _ member)) ran
      have failed : related middle (middle.fail fault) := composes.same rfl rfl
      have first := each statement List.mem_cons_self machine _ middle executed
      exact composes.trans (composes.trans first failed) others

theorem run_passes_keeps {body : List Statement} {count passes : Number} {fuel : Nat}
    {machine next : Machine}
    (each : ∀ statement ∈ body, ∀ machine result next,
      execute statement machine = some (result, next) → related machine next)
    (ran : runPasses execute body count fuel passes machine = some next) : related machine next := by
  fun_induction runPasses execute body count fuel passes machine with
  | case1 | case2 => cases ran
  | case3 passes machine _ fuel flow middle ranBody ih =>
      exact composes.trans (run_body_keeps composes each ranBody) (ih ran)
  | case4 =>
      cases ran
      exact composes.same rfl rfl

theorem loop_pass_keeps {body : List Statement} {count passes : Number} {machine start : Machine}
    (each : ∀ statement ∈ body, ∀ machine result next,
      execute statement machine = some (result, next) → related machine next)
    (pass : LoopPass execute body count passes machine start) : related machine start := by
  induction pass with
  | here => exact composes.same rfl rfl
  | later _ _ ran _ ih => exact composes.trans (run_body_keeps composes each ran) ih

end

/-- A statement with a block is done at once, unless its head evaluates, what it evaluates to asks
for the block, and the block can be read. -/
theorem block_cases (statement : Statement) (machine : Machine) (incomplete unopened : Malformed)
    (asks : Value → Machine → Bool) :
    (∃ opening value ready body, statement.HasHead machine opening value ready ∧
      asks value ready = true ∧ statement.bodyStatements opening = .ok body) ∨
    (∃ result next, statement.Done machine result next ∧
      ∀ inside : Nat → Value → Machine → List Statement → Machine →
          Option (Except Fault Unit × Machine),
        withHead statement incomplete unopened (fun opening value ready =>
          if asks value ready then runBlock statement opening (inside opening value ready) ready
          else some (.ok .next, ready)) machine = some (result, next)) := by
  by_cases few : statement.arguments.length < 3
  · refine .inr ⟨_, _, .unchanged (.error (.malformed statement.line incomplete)), fun inside => ?_⟩
    rw [withHead, if_pos few]
  · cases opens : statement.open? with
    | none =>
        refine .inr ⟨_, _, .unchanged (.error (.malformed statement.line unopened)), fun inside => ?_⟩
        rw [withHead, if_neg few, opens]
    | some opening =>
        cases evaluated : machine.evaluate (statement.arguments.take opening) statement.line with
        | mk found ready =>
            cases found with
            | error fault =>
                refine .inr ⟨_, _, .evaluated (.error fault) evaluated, fun inside => ?_⟩
                simp only [withHead, if_neg few, opens, evaluated]
            | ok value =>
                have head : statement.HasHead machine opening value ready :=
                  ⟨Nat.le_of_not_lt few, opens, evaluated⟩
                by_cases goes : asks value ready = true
                · cases read : statement.bodyStatements opening with
                  | ok body => exact .inl ⟨opening, value, ready, body, head, goes, read⟩
                  | error fault =>
                      refine .inr ⟨_, _, .evaluated (.error fault) evaluated, fun inside => ?_⟩
                      rw [with_head_of_has_head head, if_pos goes, runBlock, read]
                · refine .inr ⟨_, _, .evaluated (.ok .next) evaluated, fun inside => ?_⟩
                  rw [with_head_of_has_head head, if_neg goes]

theorem eval_cases {statement : Statement} (machine : Machine)
    (named : Command.ofName? statement.command = some .nested) :
    (∃ source ready, statement.Nests machine source ready) ∨
    (∃ result next, statement.Done machine result next ∧
      ∀ execute, runEval execute statement machine = some (result, next)) := by
  by_cases given : statement.arguments = []
  · refine .inr ⟨_, _, .unchanged (.error (.misuse statement.line .nothingToEvaluate)), ?_⟩
    intro execute
    rw [runEval, if_pos (List.isEmpty_iff.mpr given)]
  · have some : ¬statement.arguments.isEmpty = true := fun none => given (List.isEmpty_iff.mp none)
    cases evaluated : machine.evaluate statement.arguments statement.line with
    | mk found next =>
        cases found with
        | error fault =>
            refine .inr ⟨_, _, .evaluated (.error fault) evaluated, fun execute => ?_⟩
            simp only [runEval, if_neg some, evaluated]
        | ok value =>
            by_cases nothing : value = .null
            · refine .inr ⟨_, _, .evaluated (.ok .next) evaluated, fun execute => ?_⟩
              simp only [runEval, if_neg some, evaluated, nothing]
            · exact .inl ⟨_, next, named, given, value, nothing, rfl, evaluated⟩

theorem call_cases {statement : Statement} (machine : Machine)
    (named : Command.ofName? statement.command = none) :
    (∃ activation ready, statement.Requests machine activation ready) ∨
    (∃ fault, ∀ execute, runCall execute statement machine = some (.error fault, machine)) := by
  cases called : statement.call? with
  | none =>
      refine .inr ⟨.misuse statement.line (.unknownCommand statement.command), fun execute => ?_⟩
      simp only [runCall, called]
  | some call =>
      cases declared : machine.function? call.name with
      | none =>
          refine .inr ⟨.misuse statement.line (.unknownCommand statement.command), fun execute => ?_⟩
          simp only [runCall, called, declared]
      | some function => exact .inl ⟨_, _, .call named called declared⟩

/-- A statement is done at once, asks for an entry, or runs a program of its own. -/
theorem execute_cases (statement : Statement) (machine : Machine) :
    (∃ result next, statement.Done machine result next ∧
      ∀ fuel, execute (fuel + 1) statement machine = some (result, next)) ∨
    (∃ activation ready, statement.Requests machine activation ready) ∨
    (∃ source ready, statement.Nests machine source ready) := by
  cases named : Command.ofName? statement.command with
  | none =>
      rcases call_cases machine named with requests | ⟨fault, failed⟩
      · exact .inr (.inl requests)
      · refine .inl ⟨.error fault, machine, .unchanged _, fun fuel => ?_⟩
        simp only [execute, named]
        exact failed (execute fuel)
  | some command =>
      cases command with
      | plain command =>
          refine .inl ⟨(command.run statement machine).1, _, .plain named rfl, fun fuel => ?_⟩
          simp only [execute, named]
          rfl
      | ifBlock =>
          rcases block_cases statement machine .incompleteIf .unopenedIf fun value _ => value.isTruthy
            with ⟨opening, value, ready, body, head, holds, read⟩ | ⟨result, next, done, ran⟩
          · exact .inr (.inl ⟨_, _, .ifBlock named head holds read⟩)
          · refine .inl ⟨result, next, done, fun fuel => ?_⟩
            simp only [execute, named]
            exact ran fun _ _ _ => runOnce (execute fuel)
      | loopBlock =>
          rcases block_cases statement machine .incompleteLoop .unopenedLoop fun value ready =>
              !(Number.ofTextStart (ready.heap.textOf value)).atMost .zero
            with ⟨opening, value, ready, body, head, counts, read⟩ | ⟨result, next, done, ran⟩
          · have positive := (Bool.not_eq_true' _).mp counts
            exact .inr (.inl ⟨_, _, .loopBlock named head rfl positive read⟩)
          · refine .inl ⟨result, next, done, fun fuel => ?_⟩
            simp only [execute, named]
            rw [← ran fun _ value ready body entered =>
              (runPasses (execute fuel) body (Number.ofTextStart (ready.heap.textOf value)) fuel .zero
                entered).map fun final => (.ok (), final)]
            unfold runLoop
            congr 1
            funext opening value ready
            dsimp only
            cases (Number.ofTextStart (ready.heap.textOf value)).atMost .zero <;> rfl
      | whileBlock =>
          rcases block_cases statement machine .incompleteLoop .unopenedLoop fun value _ =>
              value.isTruthy
            with ⟨opening, value, ready, body, head, holds, read⟩ | ⟨result, next, done, ran⟩
          · exact .inr (.inl ⟨_, _, .whileBlock named head holds read⟩)
          · refine .inl ⟨result, next, done, fun fuel => ?_⟩
            simp only [execute, named]
            exact ran fun opening _ _ body => runWhileHolds (execute fuel)
              (statement.arguments.take opening) statement.line body fuel
      | nested =>
          rcases eval_cases machine named with nests | ⟨result, next, done, ran⟩
          · exact .inr (.inr nests)
          · refine .inl ⟨result, next, done, fun fuel => ?_⟩
            simp only [execute, named]
            exact ran (execute fuel)

end Interpreter

end ScriptSandbox
