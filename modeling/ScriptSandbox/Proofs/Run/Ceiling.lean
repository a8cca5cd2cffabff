import ScriptSandbox.Host.Standalone
import ScriptSandbox.Proofs.Expression.Control
import ScriptSandbox.Proofs.Run.Balance
import ScriptSandbox.Proofs.Run.Halting

/-!
A higher ceiling changes no run that did not reach the lower one. The two runs are in step: their
machines differ in the ceiling alone, for as long as no fault of the ceiling is raised.
-/

namespace ScriptSandbox

namespace Machine

/-- The same machine under another ceiling. -/
def withLimit (machine : Machine) (limit : Nat) : Machine :=
  machine.withControl { machine.control with limit }

/-- The step does the same under any ceiling. -/
def IgnoresLimit {Result : Type} (step : Machine → Result × Machine) : Prop :=
  ∀ machine limit, step (machine.withLimit limit) =
    ((step machine).1, (step machine).2.withLimit limit)

theorem evaluate_ignores_limit (tokens : List String) (line : Nat) :
    IgnoresLimit (evaluate tokens line) := by
  intro machine limit
  rw [withLimit, evaluate_with_control, withLimit,
    (evaluate_asks tokens line machine).control]

theorem limit_le_of_level {machine next : Machine} {limit : Nat} (level : Level machine next)
    (lower : machine.control.limit ≤ limit) : next.control.limit ≤ limit := by
  rw [level.limit]
  exact lower

theorem limit_le_of_reaches {machine next : Machine} {limit : Nat} (reaches : Reaches machine next)
    (lower : machine.control.limit ≤ limit) : next.control.limit ≤ limit := by
  rw [reaches_limit reaches]
  exact lower

/-- A fault of the ceiling was reported and halted the run. -/
def HaltedByLimit (machine : Machine) : Prop :=
  machine.isHalted = true ∧ ∃ (fault : Fault) (earlier : List Event), fault.isLimit = true ∧
    machine.host.events.toList = earlier ++ [.error fault.message, .halt Control.errorPayload]

theorem not_halted_by_limit_of_running {machine : Machine} (running : machine.isHalted = false) :
    ¬machine.HaltedByLimit := by
  rintro ⟨halted, -⟩
  rw [running] at halted
  cases halted

theorem fail_halted_by_limit {fault : Fault} (limit : fault.isLimit = true) (machine : Machine) :
    (machine.fail fault).HaltedByLimit :=
  ⟨rfl, fault, machine.host.events.toList, limit, by
    simp [fail, halt, record, Host.record]⟩

theorem unlimited_of_fail {Result : Type} {fault : Fault} {machine : Machine}
    (unreached : ¬(machine.fail fault).HaltedByLimit) :
    Unlimited (.error fault : Except Fault Result) :=
  unlimited_error (eq_false_of_ne_true fun limit => unreached (fail_halted_by_limit limit machine))

/-- What stays as it is once it has halted was not halted by the ceiling before either. -/
theorem not_halted_by_limit_before {machine next : Machine}
    (stays : machine.isHalted = true → next = machine) (unreached : ¬next.HaltedByLimit) :
    ¬machine.HaltedByLimit := by
  intro reached
  rw [stays reached.1] at unreached
  exact unreached reached

end Machine

namespace PlainCommand

open Machine

theorem run_log_ignores_limit (statement : Statement) : IgnoresLimit (runLog statement) := by
  intro machine limit
  unfold runLog
  split
  · rfl
  · rw [evaluate_ignores_limit]
    obtain ⟨result, next⟩ := machine.evaluate statement.arguments statement.line
    cases result <;> rfl

theorem run_assign_ignores_limit (statement : Statement) : IgnoresLimit (runAssign statement) := by
  intro machine limit
  unfold runAssign
  split
  · next first more _ =>
      split
      · rw [evaluate_ignores_limit]
        obtain ⟨result, next⟩ := machine.evaluate (first :: more) statement.line
        cases result <;> rfl
      · rfl
  · rfl

theorem run_save_ignores_limit (statement : Statement) : IgnoresLimit (runSave statement) := by
  intro machine limit
  unfold runSave
  split
  · next keyToken valueToken _ _ =>
      rw [evaluate_ignores_limit]
      obtain ⟨result, next⟩ := machine.evaluate [keyToken] statement.line
      cases result with
      | error fault => rfl
      | ok key =>
          dsimp only
          rw [evaluate_ignores_limit]
          obtain ⟨result, final⟩ := next.evaluate [valueToken] statement.line
          cases result with
          | error fault => rfl
          | ok value =>
              dsimp only [withLimit, withControl]
              split <;> rfl
  · rfl

theorem run_declare_ignores_limit (statement : Statement) :
    IgnoresLimit (runDeclare statement) := by
  intro machine limit
  unfold runDeclare
  split
  · rfl
  · dsimp only
    split
    · rfl
    · split
      · rfl
      · split <;> rfl

theorem coordinates_ignores_limit (line : Nat) (texts : List (List Char)) :
    IgnoresLimit (coordinates line texts) := by
  intro machine limit
  induction texts generalizing machine with
  | nil => rfl
  | cons text rest ih =>
      unfold coordinates
      rw [evaluate_ignores_limit]
      obtain ⟨result, next⟩ := machine.evaluate ((Statement.words text).map String.ofList) line
      cases result with
      | error fault => rfl
      | ok value =>
          dsimp only
          rw [ih next]
          obtain ⟨result, final⟩ := coordinates line rest next
          cases result <;> rfl

theorem run_draw_ignores_limit (statement : Statement) : IgnoresLimit (runDraw statement) := by
  intro machine limit
  unfold runDraw
  dsimp only
  split
  · rfl
  · split
    · next color x y width height _ _ =>
        have colored : (machine.withLimit limit).record (.fillColor (String.ofList (unquoted color))) =
          (machine.record (.fillColor (String.ofList (unquoted color)))).withLimit limit := rfl
        rw [colored, coordinates_ignores_limit]
        obtain ⟨result, next⟩ := coordinates statement.line [x, y, width, height]
          (machine.record (.fillColor (String.ofList (unquoted color))))
        match result with
        | .error fault => rfl
        | .ok [left, top, across, down] => rfl
        | .ok [] | .ok [_] | .ok [_, _] | .ok [_, _, _] | .ok (_ :: _ :: _ :: _ :: _ :: _) => rfl
    · rfl

theorem run_ignores_limit (command : PlainCommand) (statement : Statement) :
    IgnoresLimit (command.run statement) := by
  cases command with
  | assign => exact run_assign_ignores_limit statement
  | leaveBody => exact fun _ _ => rfl
  | comment => exact fun _ _ => rfl
  | declare => exact run_declare_ignores_limit statement
  | draw => exact run_draw_ignores_limit statement
  | exit => exact fun _ _ => rfl
  | log => exact run_log_ignores_limit statement
  | save => exact run_save_ignores_limit statement

end PlainCommand

namespace Interpreter

open Machine

/-- Started on a running machine, the step does the same under a higher ceiling, unless it fails for
its own ceiling or is halted by it. -/
def Rises {Result : Type} (limit : Nat)
    (step : Machine → Option (Except Fault Result × Machine)) : Prop :=
  ∀ machine result next, machine.isHalted = false → machine.control.limit ≤ limit →
    step machine = some (result, next) → Unlimited result → ¬next.HaltedByLimit →
      step (machine.withLimit limit) = some (result, next.withLimit limit)

theorem run_entered_below {line : Nat} {inside : Machine → Option (Except Fault Unit × Machine)}
    {machine final : Machine} {inner : Except Fault Unit}
    (below : machine.control.depth + 1 ≤ machine.control.limit)
    (ran : inside machine.raised = some (inner, final)) :
    runEntered line inside machine = some (flowAfter inner, final.leave) := by
  rw [runEntered, withDepth, enter_below line below]
  dsimp only
  rw [ran]
  cases inner <;> rfl

theorem run_entered_rises {limit : Nat}
    {inside : Machine → Option (Except Fault Unit × Machine)} (rises : Rises limit inside)
    (line : Nat) : Rises limit (runEntered line inside) := by
  intro machine result next running lower ran unlimited unreached
  rcases run_entered_cases ran with ⟨-, rfl, rfl⟩ | ⟨below, inner, final, ranInside, rfl, rfl⟩
  · cases unlimited.fault
  · have innerUnlimited : Unlimited inner := by
      cases inner with
      | ok done => exact unlimited_ok done
      | error fault => exact unlimited_error unlimited.fault
    have higher := rises machine.raised inner final running lower ranInside innerUnlimited unreached
    have allowed : (machine.withLimit limit).control.depth + 1 ≤ (machine.withLimit limit).control.limit :=
      Nat.le_trans below lower
    exact run_entered_below allowed higher

theorem with_head_rises {limit : Nat} {rest : Nat → Value → Machine → Option Outcome}
    (rises : ∀ opening value, Rises limit (rest opening value)) (statement : Statement)
    (incomplete unopened : Malformed) : Rises limit (withHead statement incomplete unopened rest) := by
  intro machine result next running lower ran unlimited unreached
  unfold withHead at ran ⊢
  split at ran
  · next few =>
      cases ran
      rw [if_pos few]
  · next enough =>
      rw [if_neg enough]
      split at ran
      · next unmarked =>
          cases ran
          rfl
      · next opening marked =>
          rw [evaluate_ignores_limit]
          split at ran
          · next failed =>
              cases ran
              rw [failed]
          · next value middle evaluated =>
              rw [evaluated]
              obtain ⟨-, still⟩ := evaluate_reaches running evaluated
              have lowerStill := limit_le_of_level (evaluate_level evaluated) lower
              exact rises opening value middle result next still lowerStill ran unlimited unreached

theorem run_block_rises {limit : Nat}
    {inside : List Statement → Machine → Option (Except Fault Unit × Machine)}
    (rises : ∀ body, Rises limit (inside body)) (statement : Statement) (opening : Nat) :
    Rises limit (runBlock statement opening inside) := by
  intro machine result next running lower ran unlimited unreached
  unfold runBlock at ran ⊢
  split at ran
  · cases ran
    rfl
  · next body read =>
      exact run_entered_rises (rises body) statement.line machine result next running lower ran
        unlimited unreached

theorem done_rises (limit : Nat) : Rises limit fun machine => some (.ok Flow.next, machine) := by
  intro machine result next _ _ ran _ _
  cases ran
  rfl

theorem bind_arguments_ignores_limit (line : Nat) (parameters : List String)
    (arguments : List (List String)) (frame : Scope) :
    IgnoresLimit (bindArguments line parameters arguments frame) := by
  intro machine limit
  induction parameters generalizing arguments frame machine with
  | nil => rfl
  | cons parameter parameters ih =>
      cases arguments with
      | nil => exact ih [] _ machine
      | cons tokens arguments =>
          unfold bindArguments
          rw [evaluate_ignores_limit]
          obtain ⟨result, next⟩ := machine.evaluate tokens line
          cases result with
          | error fault => rfl
          | ok value => exact ih arguments _ next

section

variable {execute : Executor} {limit : Nat}
  (acts : ∀ statement, ActsWhileRunning (execute statement))
  (rises : ∀ statement, Rises limit (execute statement))
include acts rises

theorem run_body_rises {body : List Statement} {machine next : Machine} {flow : Flow}
    (lower : machine.control.limit ≤ limit) (ran : runBody execute body machine = some (flow, next))
    (unreached : ¬next.HaltedByLimit) :
    runBody execute body (machine.withLimit limit) = some (flow, next.withLimit limit) := by
  have halted (machine : Machine) : (machine.withLimit limit).isHalted = machine.isHalted := rfl
  fun_induction runBody execute body machine with
  | case1 =>
      cases ran
      rfl
  | case2 statement rest machine stopped =>
      cases ran
      rw [runBody, halted, if_pos stopped]
  | case3 => cases ran
  | case4 statement rest machine unhalted middle executed ih =>
      have running := eq_false_of_ne_true unhalted
      have carried := acts statement machine _ middle running executed
      have middleUnreached :=
        not_halted_by_limit_before (fun stopped => run_body_halted stopped ran) unreached
      have higher := rises statement machine _ middle running lower executed (unlimited_ok _)
        middleUnreached
      have lowerStill := limit_le_of_reaches carried.reaches lower
      rw [runBody, halted, if_neg unhalted, higher]
      exact ih lowerStill ran
  | case5 statement rest machine unhalted middle executed =>
      cases ran
      have running := eq_false_of_ne_true unhalted
      have higher := rises statement machine _ _ running lower executed (unlimited_ok _) unreached
      rw [runBody, halted, if_neg unhalted, higher]
  | case6 statement rest machine unhalted fault middle executed =>
      cases ran
      have running := eq_false_of_ne_true unhalted
      have carried := acts statement machine _ middle running executed
      have going := not_halted_by_limit_of_running (carried.running fault rfl)
      have higher := rises statement machine _ middle running lower executed
        (unlimited_of_fail unreached) going
      rw [runBody, halted, if_neg unhalted, higher]
      rfl

theorem run_once_rises (body : List Statement) : Rises limit (runOnce execute body) := by
  intro machine result next _ lower ran _ unreached
  obtain ⟨⟨flow, final⟩, ranBody, same⟩ := Option.map_eq_some_iff.mp ran
  cases same
  rw [runOnce, run_body_rises acts rises lower ranBody unreached]
  rfl

theorem run_passes_rises {body : List Statement} {count passes : Number} {fuel : Nat}
    {machine next : Machine} (lower : machine.control.limit ≤ limit)
    (ran : runPasses execute body count fuel passes machine = some next)
    (unreached : ¬next.HaltedByLimit) :
    runPasses execute body count fuel passes (machine.withLimit limit) =
      some (next.withLimit limit) := by
  have halted (machine : Machine) : (machine.withLimit limit).isHalted = machine.isHalted := rfl
  fun_induction runPasses execute body count fuel passes machine with
  | case1 | case2 => cases ran
  | case3 passes machine goes fuel flow middle ranBody ih =>
      have middleUnreached :=
        not_halted_by_limit_before (fun stopped => run_passes_halted stopped ran) unreached
      have lowerStill := limit_le_of_reaches (run_body_reaches acts ranBody) lower
      rw [runPasses, halted, if_pos goes, run_body_rises acts rises lower ranBody middleUnreached]
      exact ih lowerStill ran
  | case4 fuel passes machine stops =>
      cases ran
      unfold runPasses
      exact if_neg stops

theorem run_while_holds_rises {condition : List String} {line : Nat} {body : List Statement}
    {fuel : Nat} {machine next : Machine} {result : Except Fault Unit}
    (lower : machine.control.limit ≤ limit)
    (ran : runWhileHolds execute condition line body fuel machine = some (result, next))
    (unreached : ¬next.HaltedByLimit) :
    runWhileHolds execute condition line body fuel (machine.withLimit limit) =
      some (result, next.withLimit limit) := by
  have halted (machine : Machine) : (machine.withLimit limit).isHalted = machine.isHalted := rfl
  fun_induction runWhileHolds execute condition line body fuel machine with
  | case1 fuel machine stopped =>
      cases ran
      rw [runWhileHolds, halted, if_pos stopped]
  | case2 fuel machine unhalted fault middle failed =>
      cases ran
      rw [runWhileHolds, halted, if_neg unhalted, evaluate_ignores_limit, failed]
  | case3 | case4 => cases ran
  | case5 machine unhalted value middle evaluated holds fuel flow final ranBody ih =>
      have finalUnreached :=
        not_halted_by_limit_before (fun stopped => run_while_holds_halted stopped ran) unreached
      have lowerStill := limit_le_of_level (evaluate_level evaluated) lower
      have lowerThen := limit_le_of_reaches (run_body_reaches acts ranBody) lowerStill
      rw [runWhileHolds, halted, if_neg unhalted, evaluate_ignores_limit, evaluated]
      dsimp only
      rw [if_pos holds, run_body_rises acts rises lowerStill ranBody finalUnreached]
      exact ih lowerThen ran
  | case6 fuel machine unhalted value middle evaluated fails =>
      cases ran
      rw [runWhileHolds, halted, if_neg unhalted, evaluate_ignores_limit, evaluated]
      dsimp only
      rw [if_neg fails]

theorem run_if_rises (statement : Statement) : Rises limit (runIf execute statement) := by
  apply with_head_rises
  intro opening condition
  by_cases holds : condition.isTruthy = true
  · simp only [holds, if_true]
    exact run_block_rises (run_once_rises acts rises) statement opening
  · simp only [holds]
    exact done_rises limit

theorem run_loop_rises (fuel : Nat) (statement : Statement) :
    Rises limit (runLoop execute fuel statement) := by
  apply with_head_rises
  intro opening value machine result next running lower ran unlimited unreached
  dsimp only at ran ⊢
  split at ran
  · next few =>
      cases ran
      exact if_pos few
  · next some =>
      refine (if_neg some).trans ?_
      refine run_block_rises ?_ statement opening machine result next running lower ran unlimited
        unreached
      intro body entered inner final _ lowerStill ranPasses _ finalUnreached
      obtain ⟨last, passes, same⟩ := Option.map_eq_some_iff.mp ranPasses
      cases same
      dsimp only
      rw [run_passes_rises acts rises lowerStill passes finalUnreached]
      rfl

theorem run_while_rises (fuel : Nat) (statement : Statement) :
    Rises limit (runWhile execute fuel statement) := by
  apply with_head_rises
  intro opening condition
  by_cases holds : condition.isTruthy = true
  · simp only [holds, if_true]
    refine run_block_rises ?_ statement opening
    intro body entered inner final _ lower ranPasses _ unreached
    exact run_while_holds_rises acts rises lower ranPasses unreached
  · simp only [holds]
    exact done_rises limit

theorem invoke_rises (function : Function) (arguments : List (List String)) (line : Nat) :
    Rises limit (invoke execute function arguments line) := by
  intro machine result next running lower ran _ unreached
  have sameScope : (machine.withLimit limit).scope = machine.scope := rfl
  rcases invoke_cases ran with ⟨fault, failed, rfl⟩ |
    ⟨frame, bound, flow, final, binding, ranBody, rfl, rfl⟩
  · rw [invoke, sameScope, bind_arguments_ignores_limit, failed]
  · have lowerStill : ({ bound with scope := frame } : Machine).control.limit ≤ limit :=
      limit_le_of_level ((bind_arguments_settles binding).level.keep rfl) lower
    have higher : runBody execute function.body { bound.withLimit limit with scope := frame } =
        some (flow, final.withLimit limit) := run_body_rises acts rises lowerStill ranBody unreached
    rw [invoke, sameScope, bind_arguments_ignores_limit, binding]
    dsimp only
    rw [higher]
    rfl

theorem run_call_rises (statement : Statement) : Rises limit (runCall execute statement) := by
  intro machine result next running lower ran unlimited unreached
  have declaredSame (name : String) :
      (machine.withLimit limit).function? name = machine.function? name := rfl
  unfold runCall at ran ⊢
  dsimp only at ran ⊢
  split at ran
  · cases ran
    rfl
  · next call named =>
      rw [declaredSame]
      split at ran
      · cases ran
        rfl
      · next function declared =>
          exact run_entered_rises (invoke_rises acts rises function call.arguments statement.line)
            statement.line machine result next running lower ran unlimited unreached

theorem run_statements_rises {statements : List Statement} {machine next : Machine}
    (lower : machine.control.limit ≤ limit)
    (ran : runStatements execute statements machine = some next) (unreached : ¬next.HaltedByLimit) :
    runStatements execute statements (machine.withLimit limit) = some (next.withLimit limit) := by
  have halted (machine : Machine) : (machine.withLimit limit).isHalted = machine.isHalted := rfl
  fun_induction runStatements execute statements machine with
  | case1 =>
      cases ran
      rfl
  | case2 statement rest machine stopped =>
      cases ran
      rw [runStatements, halted, if_pos stopped]
  | case3 => cases ran
  | case4 statement rest machine unhalted flow middle executed ih =>
      have running := eq_false_of_ne_true unhalted
      have carried := acts statement machine _ middle running executed
      have middleUnreached :=
        not_halted_by_limit_before (fun stopped => run_statements_halted stopped ran) unreached
      have higher := rises statement machine _ middle running lower executed (unlimited_ok _)
        middleUnreached
      have lowerStill := limit_le_of_reaches carried.reaches lower
      rw [runStatements, halted, if_neg unhalted, higher]
      exact ih lowerStill ran
  | case5 statement rest machine unhalted fault middle executed ih =>
      have running := eq_false_of_ne_true unhalted
      have carried := acts statement machine _ middle running executed
      have same : next = middle.fail fault := run_statements_halted rfl ran
      subst same
      have going := not_halted_by_limit_of_running (carried.running fault rfl)
      have higher := rises statement machine _ middle running lower executed
        (unlimited_of_fail unreached) going
      have lowerStill := limit_le_of_reaches carried.reaches lower
      rw [runStatements, halted, if_neg unhalted, higher]
      exact ih lowerStill ran

theorem run_program_rises {source : String} {machine next : Machine}
    (lower : machine.control.limit ≤ limit)
    (ran : runProgram execute source machine = some next) (unreached : ¬next.HaltedByLimit) :
    runProgram execute source (machine.withLimit limit) = some (next.withLimit limit) := by
  unfold runProgram at ran ⊢
  split at ran
  · cases ran
    rfl
  · exact run_statements_rises acts rises lower ran unreached

theorem run_nested_rises {source : String} {machine next : Machine}
    (lower : machine.control.limit ≤ limit)
    (ran : runNested execute source machine = some next) (unreached : ¬next.HaltedByLimit) :
    runNested execute source (machine.withLimit limit) = some (next.withLimit limit) := by
  obtain ⟨final, program, rfl⟩ := run_nested_cases ran
  have finalUnreached : ¬final.HaltedByLimit := unreached
  have lowerStill :
      ({ machine with control := machine.control.setDepth 0 } : Machine).control.limit ≤ limit := lower
  have higher := run_program_rises acts rises lowerStill program finalUnreached
  rw [runNested]
  dsimp only [withLimit, withControl, Control.setDepth] at higher ⊢
  rw [higher]

theorem run_eval_rises (statement : Statement) : Rises limit (runEval execute statement) := by
  intro machine result next running lower ran unlimited unreached
  unfold runEval at ran ⊢
  split at ran
  · next empty =>
      cases ran
      rw [if_pos empty]
  · next given =>
      rw [if_neg given, evaluate_ignores_limit]
      split at ran
      · next failed =>
          cases ran
          rw [failed]
      · next evaluated =>
          cases ran
          rw [evaluated]
      · next value middle present evaluated =>
          dsimp only at ran
          split at ran
          · cases ran
          · next final nested =>
              cases ran
              have lowerStill := limit_le_of_level (evaluate_level evaluated) lower
              have higher := run_nested_rises acts rises lowerStill nested unreached
              have sameHeap : (middle.withLimit limit).heap = middle.heap := rfl
              rw [evaluated]
              split
              · next failed => cases failed
              · next none => cases none; exact absurd rfl present
              · next same =>
                  cases same
                  dsimp only
                  rw [sameHeap, higher]

end

/-- No nesting of statements notices a higher ceiling before it reaches its own. -/
theorem execute_rises (limit fuel : Nat) (statement : Statement) :
    Rises limit (execute fuel statement) := by
  induction fuel generalizing statement with
  | zero =>
      intro machine result next _ _ ran
      cases ran
  | succ fuel ih =>
      have acts := execute_acts fuel
      intro machine result next running lower ran unlimited unreached
      unfold execute at ran ⊢
      split at ran
      · next command _ =>
          rw [command.run_ignores_limit statement machine limit, Option.some.inj ran]
      · exact run_if_rises acts ih statement machine result next running lower ran unlimited unreached
      · exact run_loop_rises acts ih fuel statement machine result next running lower ran unlimited
          unreached
      · exact run_while_rises acts ih fuel statement machine result next running lower ran unlimited
          unreached
      · exact run_eval_rises acts ih statement machine result next running lower ran unlimited
          unreached
      · exact run_call_rises acts ih statement machine result next running lower ran unlimited
          unreached

end Interpreter

/-- Of what a run wrote, one line says that its ceiling was reached. -/
def ReportsLimit (host final : Host) : Prop :=
  ∃ fault : Fault, fault.isLimit = true ∧
    (true, fault.message) ∈ final.outputLines.drop host.outputLines.length

namespace Machine

/-- What halted a run for its ceiling is the one fault it reports: no other event of a run comes
right before a halt but those of the program, and these report nothing. -/
theorem Ends.failed_of_limit {limit : Nat} {host : Host} {machine : Machine} {ending : Ending}
    (ends : Ends (start limit host) machine ending) (reached : machine.HaltedByLimit) :
    ∃ fault : Fault, fault.isLimit = true ∧ ending = .failed fault.message := by
  obtain ⟨halted, fault, earlier, isLimit, reported⟩ := reached
  obtain ⟨quiet, events, silent⟩ := ends.events
  have started : (start limit host).host.events.toList = host.events.toList ++ [.readClock] := by
    simp [start, Host.readClock, Host.record]
  rw [events, started] at reported
  cases ending with
  | finished =>
      have unset : machine.control.payload = none := ends.payload
      rw [isHalted, Control.isHalted, unset] at halted
      cases halted
  | exited payload =>
      have whole : (host.events.toList ++ .readClock :: quiet) ++ [.halt payload] =
          (earlier ++ [.error fault.message]) ++ [.halt Control.errorPayload] := by
        simpa [Ending.events] using reported
      have before := (List.append_inj' whole rfl).1
      have last : Event.error fault.message ∈ Event.readClock :: quiet := by
        have ends := congrArg List.getLast? before
        rw [List.getLast?_append, List.getLast?_concat, List.getLast?_cons, Option.some_or,
          ← List.getLast?_cons] at ends
        exact List.mem_of_getLast? ends
      rcases List.mem_cons.mp last with same | member
      · cases same
      · cases silent _ member
  | failed message =>
      have whole : (host.events.toList ++ .readClock :: quiet) ++
            [.error message, .halt Control.errorPayload] =
          earlier ++ [.error fault.message, .halt Control.errorPayload] := by
        simpa [Ending.events] using reported
      have same := (List.append_inj' whole rfl).2
      simp only [List.cons.injEq, Event.error.injEq] at same
      exact ⟨fault, isLimit, by rw [same.1]⟩

/-- A run that was halted for its ceiling says so. -/
theorem reports_limit {limit : Nat} {host : Host} {machine : Machine} {ending : Ending}
    (ends : Ends (start limit host) machine ending) (reached : machine.HaltedByLimit) :
    ReportsLimit host machine.host.readClock.2 := by
  obtain ⟨fault, isLimit, rfl⟩ := ends.failed_of_limit reached
  obtain ⟨quiet, events, -⟩ := ends.events
  have trace : machine.host.readClock.2.events.toList = host.events.toList ++ ([.readClock] ++ quiet ++
      (Ending.failed fault.message).events ++ [.readClock]) := by
    simp [Host.readClock, Host.record, events, start]
  have unwritten : [Event.readClock].filterMap Event.line? = [] := rfl
  have lines : machine.host.readClock.2.outputLines =
      host.outputLines ++ (quiet.filterMap Event.line? ++ [(true, fault.message)]) := by
    simp only [Host.outputLines, trace, List.filterMap_append, unwritten, Ending.filter_map_lines,
      Ending.lines, List.nil_append, List.append_nil]
  refine ⟨fault, isLimit, ?_⟩
  rw [lines, List.drop_left]
  exact List.mem_append_right _ (List.mem_singleton.mpr rfl)

end Machine

/-- A run that never reported reaching its ceiling does and leaves the same under any higher one:
the same report, and the same host with its trace, its output and its store. -/
theorem run_of_higher_limit {fuel limit higher : Nat} {source : String} {host final : Host}
    {report : Report} (raised : limit ≤ higher)
    (ended : run fuel limit source host = some (report, final))
    (unreached : ¬ReportsLimit host final) :
    run fuel higher source host = some (report, final) := by
  obtain ⟨machine, ran, rfl, rfl⟩ := run_cases ended
  have acts := Interpreter.execute_acts fuel
  obtain ⟨ending, ends⟩ :=
    Machine.reaches_ends rfl (Interpreter.run_program_reaches acts rfl ran)
  have unhalted : ¬machine.HaltedByLimit := fun reached => unreached (Machine.reports_limit ends reached)
  have started : (Machine.start limit host).withLimit higher = Machine.start higher host := rfl
  have program := Interpreter.run_program_rises acts (Interpreter.execute_rises higher fuel)
    raised ran unhalted
  rw [started] at program
  rw [run, program]
  rfl

/-- A loop inside a call just fits, and the nested program counts from zero. -/
theorem run_of_higher_limit_full :
    ∃ report final, run 30 2
        "func f(n) \x7b loop 2 \x7b log n; eval \"if n \x7b fnl:idbSet n n \x7d\" \x7d \x7d; f(7)"
        (Host.standalone .zero .zero .empty 0) = some (report, final) ∧
      ¬ReportsLimit (Host.standalone .zero .zero .empty 0) final ∧
      run 30 9
        "func f(n) \x7b loop 2 \x7b log n; eval \"if n \x7b fnl:idbSet n n \x7d\" \x7d \x7d; f(7)"
        (Host.standalone .zero .zero .empty 0) = some (report, final) := by
  have written : (run 30 2
      "func f(n) \x7b loop 2 \x7b log n; eval \"if n \x7b fnl:idbSet n n \x7d\" \x7d \x7d; f(7)"
      (Host.standalone .zero .zero .empty 0)).map (fun ended => ended.2.outputLines) =
        some [(false, "7"), (false, "7")] := by decide +kernel
  obtain ⟨⟨report, final⟩, ended, lines⟩ := Option.map_eq_some_iff.mp written
  have unreached : ¬ReportsLimit (Host.standalone .zero .zero .empty 0) final := by
    rintro ⟨fault, -, reported⟩
    rw [show final.outputLines = [(false, "7"), (false, "7")] from lines] at reported
    simp [Host.outputLines, Host.standalone] at reported
  exact ⟨report, final, ended, unreached, run_of_higher_limit (by decide) ended unreached⟩

end ScriptSandbox
