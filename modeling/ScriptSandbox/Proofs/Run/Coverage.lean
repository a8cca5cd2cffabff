import ScriptSandbox.Proofs.Run.Balance

/-!
What a run executes is all there is to it. An interpreter that refuses every statement outside
`Executed` runs every program as before, so the relation leaves out no statement.
-/

namespace ScriptSandbox

namespace Interpreter

/-- How a statement is executed, over what executes the statements inside it. -/
def dispatch (execute : Executor) (fuel : Nat) : Executor := fun statement machine =>
  match Command.ofName? statement.command with
  | some (.plain command) => some (command.run statement machine)
  | some .ifBlock => runIf execute statement machine
  | some .loopBlock => runLoop execute fuel statement machine
  | some .whileBlock => runWhile execute fuel statement machine
  | some .nested => runEval execute statement machine
  | none => runCall execute statement machine

theorem execute_succ (fuel : Nat) : execute (fuel + 1) = dispatch (execute fuel) fuel :=
  rfl

section

variable {execute other : Executor}

theorem run_body_congr {body : List Statement} {machine : Machine}
    (agrees : ∀ inner start, BodyComesTo execute body machine inner start →
      other inner start = execute inner start) :
    runBody other body machine = runBody execute body machine := by
  induction body generalizing machine with
  | nil => rfl
  | cons statement rest ih =>
      unfold runBody
      split
      · rfl
      · next unhalted =>
          have running := eq_false_of_ne_true unhalted
          rw [agrees statement machine (body_comes_to_cons.mpr ⟨running, .inl ⟨rfl, rfl⟩⟩)]
          split
          · rfl
          · next middle executed =>
              exact ih fun inner start comes =>
                agrees inner start (body_comes_to_cons.mpr ⟨running, .inr ⟨middle, executed, comes⟩⟩)
          · rfl
          · rfl

theorem run_statements_congr {statements : List Statement} {machine : Machine}
    (agrees : ∀ before inner after start, statements = before ++ inner :: after →
      runStatements execute before machine = some start → start.isHalted = false →
        other inner start = execute inner start) :
    runStatements other statements machine = runStatements execute statements machine := by
  induction statements generalizing machine with
  | nil => rfl
  | cons statement rest ih =>
      unfold runStatements
      split
      · rfl
      · next unhalted =>
          have running := eq_false_of_ne_true unhalted
          -- What is come to behind the first statement is come to from the start.
          have later {middle : Machine}
              (executed : ∀ before, runStatements execute (statement :: before) machine =
                runStatements execute before middle) :
              runStatements other rest middle = runStatements execute rest middle := by
            refine ih fun before inner after start same ran going => ?_
            rw [← executed] at ran
            exact agrees (statement :: before) inner after start (by rw [same]; rfl) ran going
          rw [agrees [] statement rest machine rfl rfl running]
          split
          · rfl
          · next executed =>
              exact later fun before => by rw [runStatements, if_neg unhalted, executed]
          · next executed =>
              exact later fun before => by rw [runStatements, if_neg unhalted, executed]

theorem run_program_congr {source : String} {machine : Machine}
    (agrees : ∀ inner start, ProgramComesTo execute source machine inner start →
      other inner start = execute inner start) :
    runProgram other source machine = runProgram execute source machine := by
  unfold runProgram
  split
  · rfl
  · next statements parsed =>
      refine run_statements_congr fun before inner after start same ran running => ?_
      exact agrees inner start ⟨before, after, by rw [parsed, same], ran, running⟩

theorem run_passes_congr {body : List Statement} {count passes : Number} {fuel : Nat}
    {machine : Machine}
    (agrees : ∀ start inner reached, LoopPass execute body count passes machine start →
      BodyComesTo execute body start inner reached → other inner reached = execute inner reached) :
    runPasses other body count fuel passes machine =
      runPasses execute body count fuel passes machine := by
  induction fuel generalizing passes machine with
  | zero =>
      unfold runPasses
      rfl
  | succ fuel ih =>
      unfold runPasses
      dsimp only
      split
      · next goes =>
          obtain ⟨below, running⟩ := Bool.and_eq_true_iff.mp goes
          have unhalted : machine.isHalted = false := by simpa using running
          rw [run_body_congr fun inner start => agrees machine inner start (.here below unhalted)]
          split
          · rfl
          · next flow middle ran =>
              exact ih fun start inner reached pass =>
                agrees start inner reached (.later below unhalted ran pass)
      · rfl

theorem run_while_holds_congr {condition : List String} {line : Nat} {body : List Statement}
    {fuel : Nat} {machine : Machine}
    (agrees : ∀ start inner reached, WhilePass execute condition line body machine start →
      BodyComesTo execute body start inner reached → other inner reached = execute inner reached) :
    runWhileHolds other condition line body fuel machine =
      runWhileHolds execute condition line body fuel machine := by
  induction fuel generalizing machine with
  | zero =>
      unfold runWhileHolds
      rfl
  | succ fuel ih =>
      unfold runWhileHolds
      split
      · rfl
      · next unhalted =>
          have running := eq_false_of_ne_true unhalted
          split
          · rfl
          · next value next evaluated =>
              split
              · next holds =>
                  dsimp only
                  rw [run_body_congr fun inner start =>
                    agrees next inner start (.here running evaluated holds)]
                  split
                  · rfl
                  · next flow middle ran =>
                      exact ih fun start inner reached pass =>
                        agrees start inner reached (.later running evaluated holds ran pass)
              · rfl

theorem inside_congr {activation : Activation} {line : Nat} {entered : Machine}
    (agrees : ∀ inner start, activation.ComesTo execute line entered inner start →
      other inner start = execute inner start) (fuel : Nat) :
    activation.inside other fuel line entered = activation.inside execute fuel line entered := by
  cases activation with
  | ifBlock body =>
      dsimp only [Activation.inside, runOnce]
      rw [run_body_congr agrees]
  | loopBlock body count =>
      dsimp only [Activation.inside]
      rw [run_passes_congr fun start inner reached pass comes =>
        agrees inner reached ⟨start, pass, comes⟩]
  | whileBlock body condition =>
      exact run_while_holds_congr fun start inner reached pass comes =>
        agrees inner reached ⟨start, pass, comes⟩
  | call function arguments =>
      dsimp only [Activation.inside]
      unfold invoke
      split
      · rfl
      · next frame bound binding =>
          rw [run_body_congr fun inner start comes => agrees inner start ⟨frame, bound, binding, comes⟩]

theorem run_entered_congr {line : Nat}
    {inside others : Machine → Option (Except Fault Unit × Machine)} {machine : Machine}
    (agrees : ∀ entered, machine.enter line = (.ok (), entered) → others entered = inside entered) :
    runEntered line others machine = runEntered line inside machine := by
  unfold runEntered withDepth
  cases entering : machine.enter line with
  | mk result entered =>
      cases result with
      | error fault => rfl
      | ok done =>
          dsimp only
          rw [agrees entered entering]

theorem with_head_congr {statement : Statement} {incomplete unopened : Malformed}
    {rest others : Nat → Value → Machine → Option Outcome} {machine : Machine}
    (agrees : ∀ opening value ready, statement.HasHead machine opening value ready →
      others opening value ready = rest opening value ready) :
    withHead statement incomplete unopened others machine =
      withHead statement incomplete unopened rest machine := by
  unfold withHead
  split
  · rfl
  · next many =>
      split
      · rfl
      · next opening opens =>
          split
          · rfl
          · next value ready evaluated =>
              exact agrees opening value ready ⟨Nat.le_of_not_lt many, opens, evaluated⟩

/-- What a statement does depends on the executor only where the statement comes to others. -/
theorem dispatch_congr {fuel : Nat} {statement : Statement} {machine : Machine}
    (entered : ∀ activation ready entered inner start,
      statement.Requests machine activation ready →
      ready.enter statement.line = (.ok (), entered) →
      activation.ComesTo execute statement.line entered inner start →
        other inner start = execute inner start)
    (nested : ∀ source ready inner start, statement.Nests machine source ready →
      ProgramComesTo execute source { ready with control := ready.control.setDepth 0 } inner start →
        other inner start = execute inner start) :
    dispatch other fuel statement machine = dispatch execute fuel statement machine := by
  have blocks {activation : Activation} {ready : Machine}
      (requests : statement.Requests machine activation ready) :
      runEntered statement.line (activation.inside other fuel statement.line) ready =
        runEntered statement.line (activation.inside execute fuel statement.line) ready :=
    run_entered_congr fun machine admitted => inside_congr
      (fun inner start comes => entered activation ready machine inner start requests admitted comes) fuel
  unfold dispatch
  split
  · rfl
  · next named =>
      refine with_head_congr fun opening value ready head => ?_
      split
      · next holds =>
          unfold runBlock
          split
          · rfl
          · next body read => exact blocks (.ifBlock named head holds read)
      · rfl
  · next named =>
      refine with_head_congr fun opening value ready head => ?_
      dsimp only
      split
      · rfl
      · next positive =>
          unfold runBlock
          split
          · rfl
          · next body read =>
              exact blocks (.loopBlock named head rfl (eq_false_of_ne_true positive) read)
  · next named =>
      refine with_head_congr fun opening value ready head => ?_
      dsimp only
      split
      · next holds =>
          unfold runBlock
          split
          · rfl
          · next body read => exact blocks (.whileBlock named head holds read)
      · rfl
  · next named =>
      unfold runEval
      split
      · rfl
      · next given =>
          split
          · rfl
          · rfl
          · next value ready present evaluated =>
              have nests : statement.Nests machine (ready.heap.textOf value) ready :=
                ⟨named, by simpa using given, value, present, rfl, evaluated⟩
              dsimp only [runNested]
              rw [run_program_congr fun inner start comes => nested _ ready inner start nests comes]
  · next named =>
      unfold runCall
      dsimp only
      split
      · rfl
      · next call called =>
          split
          · rfl
          · next function declared => exact blocks (.call named called declared)

end

/-- The interpreter that is stuck at every statement outside a set of points. -/
def executeWithin (allowed : Point → Bool) : Nat → Executor
  | 0, _, _ => none
  | fuel + 1, statement, machine =>
      if allowed ⟨fuel, statement, machine⟩ then
        dispatch (executeWithin allowed fuel) fuel statement machine
      else none

end Interpreter

open Interpreter

section

variable {fuel limit : Nat} {source : String} {host : Host} {allowed : Point → Bool}
  (covers : ∀ frames point, Executed fuel limit source host frames point → allowed point = true)
include covers

theorem execute_within_executed {frames : List Frame} {left : Nat} {statement : Statement}
    {machine : Machine} (executed : Executed fuel limit source host frames ⟨left, statement, machine⟩) :
    executeWithin allowed (left + 1) statement machine = execute (left + 1) statement machine := by
  induction left generalizing frames statement machine with
  | zero =>
      have stuck : executeWithin allowed 0 = execute 0 := rfl
      rw [executeWithin, if_pos (covers _ _ executed), stuck, execute_succ]
  | succ left ih =>
      rw [executeWithin, if_pos (covers _ _ executed), execute_succ]
      refine dispatch_congr ?_ ?_
      · intro activation ready entered inner start requests admitted comes
        exact ih (executed.entered (.intro requests admitted comes))
      · intro nestedSource ready inner start nests comes
        exact ih (executed.nested (.intro nests comes))

/-- No run gets stuck for want of a statement that `Executed` leaves out. -/
theorem run_within_executed :
    runProgram (executeWithin allowed (fuel + 1)) source (Machine.start limit host) =
      runProgram (execute (fuel + 1)) source (Machine.start limit host) :=
  run_program_congr fun _ _ comes => execute_within_executed covers (.program comes)

end

end ScriptSandbox
