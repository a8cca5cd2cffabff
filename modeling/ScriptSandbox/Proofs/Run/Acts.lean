import Mathlib.Logic.Relation
import ScriptSandbox.Proofs.Expression.Frame
import ScriptSandbox.Proofs.Run.Inversion

/-!
A run as a sequence of acts on its machine. Every act that can be noticed outside the machine needs
a machine that has not halted; what may still happen to a halted one is the bookkeeping of the depth
count and of the scope in force. No statement returns a fault once the run has halted.
-/

namespace ScriptSandbox

/-- Whether an event shows something to whoever watches the run. -/
def Event.isShown : Event → Bool
  | .log _ | .fillColor _ | .fillRect .. => true
  | _ => false

namespace Machine

theorem events_of_records (events : List Event) (machine : Machine) :
    (events.foldl record machine).host.events.toList = machine.host.events.toList ++ events := by
  induction events generalizing machine with
  | nil => rw [List.foldl_nil, List.append_nil]
  | cons event rest ih =>
      rw [List.foldl_cons, ih, record, Host.record, Array.toList_push, List.append_assoc,
        List.singleton_append]

inductive Act : Machine → Machine → Prop
  | evaluate (machine : Machine) (tokens : List String) (line : Nat)
      (running : machine.isHalted = false) : Act machine (machine.evaluate tokens line).2
  | display (machine : Machine) (event : Event) (shown : event.isShown = true)
      (running : machine.isHalted = false) : Act machine (machine.record event)
  | save (machine : Machine) (key : String) (value : Json)
      (running : machine.isHalted = false) :
      Act machine { machine with host := (machine.host.save key value).2 }
  | assign (machine : Machine) (name : String) (value : Value)
      (running : machine.isHalted = false) : Act machine (machine.setVariable name value)
  | declare (machine : Machine) (function : Function)
      (running : machine.isHalted = false) : Act machine (machine.declare function)
  | exit (machine : Machine) (payload : String)
      (running : machine.isHalted = false) : Act machine (machine.halt payload)
  | fail (machine : Machine) (fault : Fault)
      (running : machine.isHalted = false) : Act machine (machine.fail fault)
  | count (machine : Machine) (depth : Nat) :
      Act machine { machine with control := machine.control.setDepth depth }
  | frame (machine : Machine) (scope : Scope) : Act machine { machine with scope }

abbrev Reaches : Machine → Machine → Prop := Relation.ReflTransGen Act

/-- A machine reached with a result, where a fault means that the run goes on. -/
structure Carries {Result : Type} (machine : Machine) (result : Except Fault Result)
    (next : Machine) : Prop where
  reaches : Reaches machine next
  running : ∀ fault, result = .error fault → next.isHalted = false

theorem Carries.of_ok {Result : Type} {machine next : Machine} {result : Result}
    (reaches : Reaches machine next) : Carries machine (.ok result) next :=
  ⟨reaches, by intro fault failed; cases failed⟩

theorem Carries.of_running {Result : Type} {machine next : Machine} (result : Except Fault Result)
    (reaches : Reaches machine next) (running : next.isHalted = false) :
    Carries machine result next :=
  ⟨reaches, fun _ _ => running⟩

theorem Carries.after {Result : Type} {machine middle next : Machine} {result : Except Fault Result}
    (before : Reaches machine middle) (after : Carries middle result next) :
    Carries machine result next :=
  ⟨before.trans after.reaches, after.running⟩

theorem evaluate_reaches {machine next : Machine} {tokens : List String} {line : Nat}
    {result : Except Fault Value} (running : machine.isHalted = false)
    (evaluated : machine.evaluate tokens line = (result, next)) :
    Reaches machine next ∧ next.isHalted = false := by
  have act := Act.evaluate machine tokens line running
  have asks := evaluate_asks tokens line machine
  rw [evaluated] at act asks
  refine ⟨.single act, ?_⟩
  rw [isHalted, asks.control]
  exact running

theorem evaluate_fails {Result : Type} {machine next : Machine} {tokens : List String} {line : Nat}
    {fault : Fault} (running : machine.isHalted = false)
    (failed : machine.evaluate tokens line = (.error fault, next)) :
    Carries machine (.error fault : Except Fault Result) next :=
  .of_running _ (evaluate_reaches running failed).1 (evaluate_reaches running failed).2

end Machine

namespace PlainCommand

open Machine

theorem run_log_reaches (statement : Statement) (machine : Machine)
    (running : machine.isHalted = false) :
    Reaches machine (runLog statement machine).2 ∧
      (runLog statement machine).2.isHalted = false := by
  unfold runLog
  split
  · exact ⟨.refl, running⟩
  · split
    · next failed => exact evaluate_reaches running failed
    · next value next found =>
        obtain ⟨reaches, still⟩ := evaluate_reaches running found
        exact ⟨reaches.tail (.display next _ rfl still), still⟩

theorem run_assign_reaches (statement : Statement) (machine : Machine)
    (running : machine.isHalted = false) :
    Reaches machine (runAssign statement machine).2 ∧
      (runAssign statement machine).2.isHalted = false := by
  unfold runAssign
  split
  · split
    · split
      · next failed => exact evaluate_reaches running failed
      · next value next found =>
          obtain ⟨reaches, still⟩ := evaluate_reaches running found
          exact ⟨reaches.tail (.assign next _ value still), still⟩
    · exact ⟨.refl, running⟩
  · exact ⟨.refl, running⟩

theorem run_save_reaches (statement : Statement) (machine : Machine)
    (running : machine.isHalted = false) :
    Reaches machine (runSave statement machine).2 ∧
      (runSave statement machine).2.isHalted = false := by
  unfold runSave
  split
  · split
    · next failed => exact evaluate_reaches running failed
    · next keyValue next foundKey =>
        obtain ⟨reachesKey, stillKey⟩ := evaluate_reaches running foundKey
        dsimp only
        split
        · next failed =>
            obtain ⟨reaches, still⟩ := evaluate_reaches stillKey failed
            exact ⟨reachesKey.trans reaches, still⟩
        · next value final found =>
            obtain ⟨reaches, still⟩ := evaluate_reaches stillKey found
            have saved := (reachesKey.trans reaches).tail (.save final
              (next.heap.textOf keyValue) (final.heap.snapshot value) still)
            split <;> exact ⟨saved, still⟩
  · exact ⟨.refl, running⟩

theorem run_declare_reaches (statement : Statement) (machine : Machine)
    (running : machine.isHalted = false) :
    Reaches machine (runDeclare statement machine).2 ∧
      (runDeclare statement machine).2.isHalted = false := by
  unfold runDeclare
  split
  · exact ⟨.refl, running⟩
  · dsimp only
    split
    · exact ⟨.refl, running⟩
    · split
      · exact ⟨.refl, running⟩
      · split
        · exact ⟨.refl, running⟩
        · exact ⟨.single (.declare machine _ running), running⟩

theorem coordinates_reaches (line : Nat) (texts : List (List Char)) (machine : Machine)
    (running : machine.isHalted = false) :
    Reaches machine (coordinates line texts machine).2 ∧
      (coordinates line texts machine).2.isHalted = false := by
  induction texts generalizing machine with
  | nil => exact ⟨.refl, running⟩
  | cons text rest ih =>
      unfold coordinates
      split
      · next found => exact evaluate_reaches running found
      · next value next found =>
          obtain ⟨reaches, still⟩ := evaluate_reaches running found
          have others := ih next still
          dsimp only
          split
          · next failed =>
              rw [failed] at others
              exact ⟨reaches.trans others.1, others.2⟩
          · next numbers final read =>
              rw [read] at others
              exact ⟨reaches.trans others.1, others.2⟩

theorem run_draw_reaches (statement : Statement) (machine : Machine)
    (running : machine.isHalted = false) :
    Reaches machine (runDraw statement machine).2 ∧
      (runDraw statement machine).2.isHalted = false := by
  unfold runDraw
  dsimp only
  split
  · exact ⟨.refl, running⟩
  · split
    · next color x y width height _ _ =>
        -- The colour is shown before the coordinates are known.
        have colored : Reaches machine
            (machine.record (.fillColor (String.ofList (unquoted color)))) :=
          .single (.display machine _ rfl running)
        have read := coordinates_reaches statement.line [x, y, width, height]
          (machine.record (.fillColor (String.ofList (unquoted color)))) running
        split
        · next found =>
            rw [found] at read
            exact ⟨colored.trans read.1, read.2⟩
        · next found =>
            rw [found] at read
            exact ⟨(colored.trans read.1).tail (.display _ _ rfl read.2), read.2⟩
        · next found =>
            rw [found] at read
            exact ⟨colored.trans read.1, read.2⟩
    · exact ⟨.refl, running⟩

/-- No command but `exit` halts the run by itself. -/
theorem run_reaches {command : PlainCommand} (other : command ≠ .exit) (statement : Statement)
    (machine : Machine) (running : machine.isHalted = false) :
    Reaches machine (command.run statement machine).2 ∧
      (command.run statement machine).2.isHalted = false := by
  cases command with
  | assign => exact run_assign_reaches statement machine running
  | leaveBody | comment => exact ⟨.refl, running⟩
  | declare => exact run_declare_reaches statement machine running
  | draw => exact run_draw_reaches statement machine running
  | exit => exact absurd rfl other
  | log => exact run_log_reaches statement machine running
  | save => exact run_save_reaches statement machine running

theorem run_carries (command : PlainCommand) (statement : Statement) (machine : Machine)
    (running : machine.isHalted = false) :
    Carries machine (command.run statement machine).1 (command.run statement machine).2 := by
  by_cases exits : command = .exit
  · subst exits
    exact .of_ok (.single (.exit machine _ running))
  · obtain ⟨reaches, still⟩ := run_reaches exits statement machine running
    exact .of_running _ reaches still

end PlainCommand

namespace Interpreter

open Machine

/-- Something that, started on a running machine, acts on it only while it runs and returns no fault
once it has halted. -/
def ActsWhileRunning {Result : Type} (step : Machine → Option (Except Fault Result × Machine)) :
    Prop :=
  ∀ machine result next, machine.isHalted = false → step machine = some (result, next) →
    Carries machine result next

theorem run_entered_acts {inside : Machine → Option (Except Fault Unit × Machine)}
    (acts : ActsWhileRunning inside) (line : Nat) : ActsWhileRunning (runEntered line inside) := by
  intro machine result next running ran
  have entering : Reaches machine machine.raised := .single (.count machine _)
  rcases run_entered_cases ran with ⟨-, rfl, rfl⟩ | ⟨-, inner, final, ranInside, rfl, rfl⟩
  · exact .of_running _ entering running
  · have carried := acts machine.raised inner final running ranInside
    have reaches : Reaches machine final.leave :=
      (entering.trans carried.reaches).tail (.count final _)
    cases inner with
    | ok done => exact .of_ok reaches
    | error fault => exact .of_running _ reaches (carried.running fault rfl)

theorem with_head_acts {rest : Nat → Value → Machine → Option Outcome}
    (acts : ∀ opening value, ActsWhileRunning (rest opening value)) (statement : Statement)
    (incomplete unopened : Malformed) :
    ActsWhileRunning (withHead statement incomplete unopened rest) := by
  intro machine result next running ran
  rcases with_head_cases ran with ⟨-, rfl, rfl⟩ | ⟨-, -, rfl, rfl⟩ |
    ⟨-, opening, fault, -, failed, rfl⟩ | ⟨-, opening, value, middle, -, evaluated, ranRest⟩
  · exact .of_running _ .refl running
  · exact .of_running _ .refl running
  · exact evaluate_fails running failed
  · obtain ⟨reaches, still⟩ := evaluate_reaches running evaluated
    exact .after reaches (acts opening value middle result next still ranRest)

theorem run_block_acts {inside : List Statement → Machine → Option (Except Fault Unit × Machine)}
    (acts : ∀ body, ActsWhileRunning (inside body)) (statement : Statement) (opening : Nat) :
    ActsWhileRunning (runBlock statement opening inside) := by
  intro machine result next running ran
  rcases run_block_cases ran with ⟨fault, -, rfl, rfl⟩ | ⟨body, -, entered⟩
  · exact .of_running _ .refl running
  · exact run_entered_acts (acts body) statement.line machine result next running entered

theorem done_acts : ActsWhileRunning fun machine => some (.ok Flow.next, machine) := by
  intro machine result next running ran
  cases ran
  exact .of_ok .refl

theorem bind_arguments_reaches {line : Nat} {parameters : List String}
    {arguments : List (List String)} {frame : Scope} {machine next : Machine}
    {result : Except Fault Scope} (running : machine.isHalted = false)
    (bound : bindArguments line parameters arguments frame machine = (result, next)) :
    Reaches machine next ∧ next.isHalted = false := by
  induction parameters generalizing arguments frame machine with
  | nil =>
      cases bound
      exact ⟨.refl, running⟩
  | cons parameter parameters ih =>
      cases arguments with
      | nil => exact ih running bound
      | cons tokens arguments =>
          unfold bindArguments at bound
          split at bound
          · next failed =>
              cases bound
              exact evaluate_reaches running failed
          · next value middle evaluated =>
              obtain ⟨reaches, still⟩ := evaluate_reaches running evaluated
              obtain ⟨others, stillThen⟩ := ih still bound
              exact ⟨reaches.trans others, stillThen⟩

section

variable {execute : Executor} (acts : ∀ statement, ActsWhileRunning (execute statement))
include acts

theorem run_body_reaches {body : List Statement} {machine next : Machine} {flow : Flow}
    (ran : runBody execute body machine = some (flow, next)) : Reaches machine next := by
  fun_induction runBody execute body machine with
  -- The halt flag is looked at before each statement, so a body may start on a halted machine.
  | case1 | case2 =>
      cases ran
      exact .refl
  | case3 => cases ran
  | case4 statement rest machine unhalted middle executed ih =>
      have carried := acts statement machine _ middle (eq_false_of_ne_true unhalted) executed
      exact carried.reaches.trans (ih ran)
  | case5 statement rest machine unhalted middle executed =>
      cases ran
      exact (acts statement machine _ _ (eq_false_of_ne_true unhalted) executed).reaches
  | case6 statement rest machine unhalted fault middle executed =>
      cases ran
      have carried := acts statement machine _ middle (eq_false_of_ne_true unhalted) executed
      exact carried.reaches.tail (.fail middle fault (carried.running fault rfl))

theorem run_statements_reaches {statements : List Statement} {machine next : Machine}
    (ran : runStatements execute statements machine = some next) : Reaches machine next := by
  fun_induction runStatements execute statements machine with
  | case1 | case2 =>
      cases ran
      exact .refl
  | case3 => cases ran
  | case4 statement rest machine unhalted flow middle executed ih =>
      have carried := acts statement machine _ middle (eq_false_of_ne_true unhalted) executed
      exact carried.reaches.trans (ih ran)
  | case5 statement rest machine unhalted fault middle executed ih =>
      have carried := acts statement machine _ middle (eq_false_of_ne_true unhalted) executed
      have failed := carried.reaches.tail (.fail middle fault (carried.running fault rfl))
      exact failed.trans (ih ran)

theorem run_program_reaches {source : String} {machine next : Machine}
    (running : machine.isHalted = false)
    (ran : runProgram execute source machine = some next) : Reaches machine next := by
  unfold runProgram at ran
  split at ran
  · next fault unread =>
      cases ran
      exact .single (.fail machine fault running)
  · exact run_statements_reaches acts ran

theorem run_once_acts (body : List Statement) : ActsWhileRunning (runOnce execute body) := by
  intro machine result next running ran
  obtain ⟨⟨flow, final⟩, ranBody, same⟩ := Option.map_eq_some_iff.mp ran
  cases same
  exact .of_ok (run_body_reaches acts ranBody)

theorem run_passes_reaches {body : List Statement} {count passes : Number} {fuel : Nat}
    {machine next : Machine}
    (ran : runPasses execute body count fuel passes machine = some next) : Reaches machine next := by
  fun_induction runPasses execute body count fuel passes machine with
  | case1 | case2 => cases ran
  | case3 passes machine _ fuel flow middle ranBody ih =>
      exact (run_body_reaches acts ranBody).trans (ih ran)
  | case4 =>
      cases ran
      exact .refl

theorem run_while_holds_carries {condition : List String} {line : Nat} {body : List Statement}
    {fuel : Nat} {machine next : Machine} {result : Except Fault Unit}
    (ran : runWhileHolds execute condition line body fuel machine = some (result, next)) :
    Carries machine result next := by
  fun_induction runWhileHolds execute condition line body fuel machine with
  -- A halted machine ends the loop before its condition is evaluated again.
  | case1 =>
      cases ran
      exact .of_ok .refl
  | case2 fuel machine unhalted fault middle failed =>
      cases ran
      exact evaluate_fails (eq_false_of_ne_true unhalted) failed
  | case3 | case4 => cases ran
  | case5 machine unhalted value middle evaluated _ fuel flow final ranBody ih =>
      have reaches := (evaluate_reaches (eq_false_of_ne_true unhalted) evaluated).1
      exact .after (reaches.trans (run_body_reaches acts ranBody)) (ih ran)
  | case6 fuel machine unhalted value middle evaluated _ =>
      cases ran
      exact .of_ok (evaluate_reaches (eq_false_of_ne_true unhalted) evaluated).1

theorem run_if_acts (statement : Statement) : ActsWhileRunning (runIf execute statement) := by
  apply with_head_acts
  intro opening condition machine result next running ran
  split at ran
  · exact run_block_acts (run_once_acts acts) statement opening machine result next running ran
  · exact done_acts machine result next running ran

theorem run_loop_acts (fuel : Nat) (statement : Statement) :
    ActsWhileRunning (runLoop execute fuel statement) := by
  apply with_head_acts
  intro opening value machine result next running ran
  dsimp only at ran
  split at ran
  · exact done_acts machine result next running ran
  · refine run_block_acts ?_ statement opening machine result next running ran
    intro body entered inner final _ ranPasses
    obtain ⟨last, passes, same⟩ := Option.map_eq_some_iff.mp ranPasses
    cases same
    exact .of_ok (run_passes_reaches acts passes)

theorem run_while_acts (fuel : Nat) (statement : Statement) :
    ActsWhileRunning (runWhile execute fuel statement) := by
  apply with_head_acts
  intro opening condition machine result next running ran
  dsimp only at ran
  split at ran
  · refine run_block_acts ?_ statement opening machine result next running ran
    intro body entered inner final _ ranPasses
    exact run_while_holds_carries acts ranPasses
  · exact done_acts machine result next running ran

theorem run_nested_reaches {source : String} {machine next : Machine}
    (running : machine.isHalted = false)
    (ran : runNested execute source machine = some next) : Reaches machine next := by
  obtain ⟨final, program, rfl⟩ := run_nested_cases ran
  have inside : Reaches { machine with control := machine.control.setDepth 0 } final :=
    run_program_reaches acts running program
  have entering : Reaches machine { machine with control := machine.control.setDepth 0 } :=
    .single (.count machine 0)
  exact (entering.trans inside).tail (.count final machine.control.depth)

theorem run_eval_acts (statement : Statement) : ActsWhileRunning (runEval execute statement) := by
  intro machine result next running ran
  unfold runEval at ran
  split at ran
  · cases ran
    exact .of_running _ .refl running
  · split at ran
    · next failed =>
        cases ran
        exact evaluate_fails running failed
    · next evaluated =>
        cases ran
        exact .of_ok (evaluate_reaches running evaluated).1
    · next value middle _ evaluated =>
        obtain ⟨reaches, still⟩ := evaluate_reaches running evaluated
        dsimp only at ran
        split at ran
        · cases ran
        · next final nested =>
            cases ran
            exact .of_ok (reaches.trans (run_nested_reaches acts still nested))

theorem invoke_acts (function : Function) (arguments : List (List String)) (line : Nat) :
    ActsWhileRunning (invoke execute function arguments line) := by
  intro machine result next running ran
  rcases invoke_cases ran with ⟨fault, failed, rfl⟩ | ⟨frame, bound, flow, final, binding, body, rfl, rfl⟩
  · obtain ⟨reaches, still⟩ := bind_arguments_reaches running failed
    exact .of_running _ reaches still
  · obtain ⟨reaches, -⟩ := bind_arguments_reaches running binding
    have called : Reaches machine { bound with scope := frame } := reaches.tail (.frame bound frame)
    exact .of_ok ((called.trans (run_body_reaches acts body)).tail (.frame final bound.scope))

theorem run_call_acts (statement : Statement) : ActsWhileRunning (runCall execute statement) := by
  intro machine result next running ran
  rcases run_call_cases ran with ⟨rfl, rfl, -⟩ | ⟨call, function, -, -, entered⟩
  · exact .of_running _ .refl running
  · exact run_entered_acts (invoke_acts acts function call.arguments statement.line) statement.line
      machine result next running entered

end

/-- No nesting of statements acts on a halted machine. -/
theorem execute_acts (fuel : Nat) (statement : Statement) :
    ActsWhileRunning (execute fuel statement) := by
  induction fuel generalizing statement with
  | zero =>
      intro machine result next running ran
      cases ran
  | succ fuel ih =>
      intro machine result next running ran
      unfold execute at ran
      split at ran
      · next command _ =>
          have carried := command.run_carries statement machine running
          rw [Option.some.inj ran] at carried
          exact carried
      · exact run_if_acts ih statement machine result next running ran
      · exact run_loop_acts ih fuel statement machine result next running ran
      · exact run_while_acts ih fuel statement machine result next running ran
      · exact run_eval_acts ih statement machine result next running ran
      · exact run_call_acts ih statement machine result next running ran

end Interpreter

end ScriptSandbox
