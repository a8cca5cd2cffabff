import ScriptSandbox.Proofs.Number.Counting
import ScriptSandbox.Proofs.Run.Depth
import ScriptSandbox.Proofs.Run.Fuel
import ScriptSandbox.Proofs.Run.Tame

/-!
A program without `while` and `eval` in its text ends, unless it enters a `loop` with a count beyond
2^53. Where the statements that a body or a `loop` comes to finish, it finishes as well; what is left
of the ceiling gets smaller with every entry, however functions call each other.
-/

namespace ScriptSandbox

open Interpreter

/-- With enough fuel, executing the statement comes to an end. -/
def Statement.Finishes (statement : Statement) (machine : Machine) : Prop :=
  ∃ fuel outcome, execute fuel statement machine = some outcome

namespace Interpreter

/-- A body finishes when every statement that it comes to does. -/
theorem body_finishes {body : List Statement} {start : Machine}
    (each : ∀ fuel statement machine, BodyComesTo (execute fuel) body start statement machine →
      statement.Finishes machine) :
    ∃ fuel ending, runBody (execute fuel) body start = some ending := by
  induction body generalizing start with
  | nil => exact ⟨0, (.next, start), rfl⟩
  | cons first rest ih =>
      by_cases halted : start.isHalted = true
      · exact ⟨0, (.next, start), by rw [runBody, if_pos halted]⟩
      · have running := eq_false_of_ne_true halted
        have here : BodyComesTo (execute 0) (first :: rest) start first start :=
          body_comes_to_cons.mpr ⟨running, .inl ⟨rfl, rfl⟩⟩
        rcases each 0 first start here with ⟨enough, ⟨result, middle⟩, ran⟩
        cases result with
        | error fault =>
            refine ⟨enough, (.next, middle.fail fault), ?_⟩
            rw [runBody, if_neg halted, ran]
        | ok flow =>
            cases flow with
            | leave =>
                refine ⟨enough, (.leave, middle), ?_⟩
                rw [runBody, if_neg halted, ran]
            | next =>
                have others (fuel : Nat) (statement : Statement) (machine : Machine)
                    (comes : BodyComesTo (execute fuel) rest middle statement machine) :
                    statement.Finishes machine := by
                  have executed := execute_extends (Nat.le_max_left enough fuel) _ _ _ ran
                  have later :=
                    body_comes_to_extends (execute_extends (Nat.le_max_right enough fuel)) comes
                  exact each _ statement machine
                    (body_comes_to_cons.mpr ⟨running, .inr ⟨middle, executed, later⟩⟩)
                rcases ih others with ⟨fuel, ending, ranRest⟩
                refine ⟨max enough fuel, ending, ?_⟩
                rw [runBody, if_neg halted, execute_extends (Nat.le_max_left enough fuel) _ _ _ ran]
                exact run_body_extends (execute_extends (Nat.le_max_right enough fuel)) ranRest

/-- A program goes on behind a statement that finishes, whatever the result: a fault has halted the
run by then. -/
theorem goes_on_of_finishes {first : Statement} {start : Machine}
    (running : start.isHalted = false) (finishes : first.Finishes start) :
    ∃ enough next, ∀ fuel rest, enough ≤ fuel →
      runStatements (execute fuel) (first :: rest) start =
        runStatements (execute fuel) rest next := by
  have unhalted : ¬start.isHalted = true := ne_true_of_eq_false running
  rcases finishes with ⟨enough, ⟨result, middle⟩, ran⟩
  cases result with
  | ok flow =>
      refine ⟨enough, middle, fun fuel rest less => ?_⟩
      rw [runStatements, if_neg unhalted, execute_extends less _ _ _ ran]
  | error fault =>
      refine ⟨enough, middle.fail fault, fun fuel rest less => ?_⟩
      rw [runStatements, if_neg unhalted, execute_extends less _ _ _ ran]

theorem statements_finish {statements : List Statement} {start : Machine}
    (each : ∀ fuel before statement after machine, statements = before ++ statement :: after →
      runStatements (execute fuel) before start = some machine → machine.isHalted = false →
      statement.Finishes machine) :
    ∃ fuel final, runStatements (execute fuel) statements start = some final := by
  induction statements generalizing start with
  | nil => exact ⟨0, start, rfl⟩
  | cons first rest ih =>
      by_cases halted : start.isHalted = true
      · exact ⟨0, start, by rw [runStatements, if_pos halted]⟩
      · have running := eq_false_of_ne_true halted
        rcases goes_on_of_finishes running (each 0 [] first rest start rfl rfl running) with
          ⟨enough, next, goes⟩
        -- What ran with one supply of fuel and what ran with another both run with the greater.
        have joined {fuel : Nat} {others : List Statement} {final : Machine}
            (ran : runStatements (execute fuel) others next = some final) :
            runStatements (execute (max enough fuel)) (first :: others) start = some final := by
          rw [goes _ others (Nat.le_max_left enough fuel)]
          exact run_statements_extends (execute_extends (Nat.le_max_right enough fuel)) ran
        have later : ∃ fuel final, runStatements (execute fuel) rest next = some final := by
          apply ih
          intro fuel before statement after machine same ran
          rw [same] at each
          exact each _ (first :: before) statement after machine rfl (joined ran)
        rcases later with ⟨fuel, final, ran⟩
        exact ⟨_, final, joined ran⟩

theorem program_finishes {source : String} {start : Machine}
    (each : ∀ fuel statement machine, ProgramComesTo (execute fuel) source start statement machine →
      statement.Finishes machine) :
    ∃ fuel final, runProgram (execute fuel) source start = some final := by
  cases parsed : Statement.parse source with
  | error fault => exact ⟨0, start.fail fault, by rw [runProgram, parsed]⟩
  | ok statements =>
      simp only [runProgram, parsed]
      apply statements_finish
      intro fuel before statement after machine same ran running
      rw [same] at parsed
      exact each fuel statement machine ⟨before, after, parsed, ran, running⟩

theorem run_passes_stopped {execute : Executor} {body : List Statement} {count passes : Number}
    {machine : Machine} (stops : ¬(passes.less count && !machine.isHalted) = true) (fuel : Nat) :
    runPasses execute body count fuel passes machine = some machine := by
  unfold runPasses
  rw [if_neg stops]

/-- Up to 2^53 the number of passes is exact, so the passes of a `loop` reach a count that does not
exceed it. The induction is on how far the number of passes is from 2^53. -/
theorem passes_finish {body : List Statement} {count : Number}
    (short : (Number.ofNat (twoTo 53)).less count = false) {value left : Nat}
    (reached : value + left = twoTo 53) {machine : Machine}
    (each : ∀ fuel start statement inner,
      LoopPass (execute fuel) body count (.ofNat value) machine start →
      BodyComesTo (execute fuel) body start statement inner → statement.Finishes inner) :
    ∃ fuel final, runPasses (execute fuel) body count fuel (.ofNat value) machine = some final := by
  induction left generalizing value machine with
  | zero =>
      have last : value = twoTo 53 := reached
      refine ⟨0, machine, run_passes_stopped ?_ 0⟩
      rw [last, short, Bool.false_and]
      exact Bool.false_ne_true
  | succ left ih =>
      by_cases goes : ((Number.ofNat value).less count && !machine.isHalted) = true
      · rcases Bool.and_eq_true_iff.mp goes with ⟨below, unhalted⟩
        have running := (Bool.not_eq_true' _).mp unhalted
        have counted : Number.ofNat value + Number.one = .ofNat (value + 1) :=
          Number.of_nat_add_one (by omega)
        rcases body_finishes fun fuel statement inner =>
          each fuel machine statement inner (.here below running) with ⟨enough, ⟨flow, middle⟩, ran⟩
        have later : ∃ fuel final,
            runPasses (execute fuel) body count fuel (.ofNat (value + 1)) middle = some final := by
          apply ih (by omega)
          intro fuel start statement inner pass comes
          have more := execute_extends (Nat.le_max_right enough fuel)
          have first := run_body_extends (execute_extends (Nat.le_max_left enough fuel)) ran
          rw [← counted] at pass
          exact each _ start statement inner
            (.later below running first (loop_pass_extends more pass))
            (body_comes_to_extends more comes)
        rcases later with ⟨fuel, final, ranLater⟩
        have more : fuel ≤ max enough fuel := Nat.le_max_right enough fuel
        have first := run_body_extends
          (execute_extends (Nat.le_succ_of_le (Nat.le_max_left enough fuel))) ran
        refine ⟨max enough fuel + 1, final, ?_⟩
        rw [runPasses, if_pos goes, first, counted]
        exact run_passes_extends (execute_extends (Nat.le_succ_of_le more)) more ranLater
      · exact ⟨0, machine, run_passes_stopped goes 0⟩

theorem inside_finishes {activation : Activation} {line : Nat} {entered : Machine}
    (tame : activation.Tame)
    (short : ∀ body count, activation = .loopBlock body count →
      (Number.ofNat (twoTo 53)).less count = false)
    (each : ∀ fuel statement machine,
      activation.ComesTo (execute fuel) line entered statement machine →
      statement.Finishes machine) :
    ∃ fuel ending, activation.inside (execute fuel) fuel line entered = some ending := by
  cases activation with
  | ifBlock body =>
      rcases body_finishes each with ⟨fuel, ending, ran⟩
      exact ⟨fuel, _, Option.map_eq_some_iff.mpr ⟨ending, ran, rfl⟩⟩
  | loopBlock body count =>
      have passes : ∃ fuel final,
          runPasses (execute fuel) body count fuel (.ofNat 0) entered = some final := by
        apply passes_finish (short body count rfl) (Nat.zero_add _)
        intro fuel start statement inner pass comes
        rw [Number.of_nat_zero] at pass
        exact each fuel statement inner ⟨start, pass, comes⟩
      rcases passes with ⟨fuel, final, ran⟩
      rw [Number.of_nat_zero] at ran
      exact ⟨fuel, _, Option.map_eq_some_iff.mpr ⟨final, ran, rfl⟩⟩
  | whileBlock body condition => cases tame
  | call function arguments =>
      cases binding : bindArguments line function.parameters arguments entered.scope entered with
      | mk result bound =>
          cases result with
          | error fault =>
              refine ⟨0, (.error fault, bound), ?_⟩
              simp only [Activation.inside, invoke, binding]
          | ok frame =>
              rcases body_finishes fun fuel statement machine comes =>
                each fuel statement machine ⟨frame, bound, binding, comes⟩ with
                ⟨fuel, ⟨flow, final⟩, ran⟩
              refine ⟨fuel, (.ok (), { final with scope := bound.scope }), ?_⟩
              simp only [Activation.inside, invoke, binding, ran]

end Interpreter

/-- More fuel executes the same points, with more of it left. -/
theorem executed_more {fuel limit : Nat} {source : String} {host : Host} {frames : List Frame}
    {point : Point} (executed : Executed fuel limit source host frames point) (extra : Nat) :
    Executed (fuel + extra) limit source host frames
      ⟨point.fuel + extra, point.statement, point.machine⟩ := by
  have more (fuel : Nat) : Extends (execute (fuel + 1)) (execute (fuel + extra + 1)) :=
    execute_extends (by omega)
  induction executed with
  | program comes => exact .program (program_comes_to_extends (more _) comes)
  | entered _ enters ih =>
      cases enters with
      | intro requests admitted comes =>
          dsimp only at ih
          rw [Nat.add_right_comm] at ih
          exact ih.entered (.intro requests admitted (comes_to_extends (more _) comes))
  | nested _ nests ih =>
      cases nests with
      | intro nests comes =>
          dsimp only at ih
          rw [Nat.add_right_comm] at ih
          exact ih.nested (.intro nests (program_comes_to_extends (more _) comes))

/-- The point enters a `loop` whose count exceeds 2^53. -/
def Point.LoopsLong (point : Point) : Prop :=
  ∃ body count ready entered, point.statement.Requests point.machine (.loopBlock body count) ready ∧
    ready.enter point.statement.line = (.ok (), entered) ∧
    (Number.ofNat (twoTo 53)).less count = true

section

variable {limit : Nat} {source : String} {host : Host}
  (noWhile : ¬"while".toList <:+: source.toList) (noEval : ¬"eval".toList <:+: source.toList)
  (short : ∀ fuel frames point, Executed fuel limit source host frames point → ¬point.LoopsLong)
include noWhile noEval short

/-- One level of `executed_finishes`, from what is executed one entry further in. -/
theorem finishes_of_entered {fuel : Nat} {frames : List Frame} {point : Point}
    (executed : Executed fuel limit source host frames point)
    (inside : ∀ more activation inner,
      Executed more limit source host (.active activation :: frames) inner →
      inner.statement.Finishes inner.machine) :
    point.statement.Finishes point.machine := by
  rcases executed_tame noWhile noEval executed with ⟨tame, declares⟩
  rcases point with ⟨left, statement, machine⟩
  dsimp only at tame declares ⊢
  rcases execute_cases statement machine with ⟨result, next, -, always⟩ |
    ⟨activation, ready, requests⟩ | ⟨text, ready, nests⟩
  · exact ⟨1, (result, next), always 0⟩
  · by_cases deep : ready.control.limit < ready.control.depth + 1
    · exact ⟨1, _, (execute_requested requests).trans (run_entered_beyond deep _)⟩
    · have below := Nat.le_of_not_lt deep
      have admitted := ready.enter_below statement.line below
      have ends : ∃ enough ending,
          activation.inside (execute enough) enough statement.line ready.raised = some ending := by
        apply inside_finishes (requests.tame tame declares).1
        · intro body count same
          rw [same] at requests
          apply eq_false_of_ne_true
          intro long
          exact short fuel frames _ executed ⟨body, count, ready, _, requests, admitted, long⟩
        · intro more inner start comes
          -- The run can be given fuel enough to come to the statement as well.
          have further := comes_to_extends (execute_extends (Nat.le_add_left more (left + 1))) comes
          rw [Nat.add_right_comm] at further
          exact inside _ activation _
            ((executed_more executed (more + 1)).entered (.intro requests admitted further))
      rcases ends with ⟨enough, ending, ran⟩
      refine ⟨enough + 1, (flowAfter ending.1, ending.2.leave), ?_⟩
      rw [execute_requested requests, run_entered_within below, ran, Option.map_some]
  · exact absurd nests tame.not_nests

/-- Every statement that the run executes finishes. The induction is on what the entries around it
leave of the ceiling. -/
theorem executed_finishes {fuel room : Nat} {frames : List Frame} {point : Point}
    (executed : Executed fuel limit source host frames point)
    (left : limit ≤ Frame.activeEntries frames + room) :
    point.statement.Finishes point.machine := by
  induction room generalizing fuel frames point with
  | zero =>
      apply finishes_of_entered noWhile noEval short executed
      intro more activation inner entered
      have bounded := (executed_depth entered).2.2
      rw [Frame.active_entries_active] at bounded
      omega
  | succ room ih =>
      apply finishes_of_entered noWhile noEval short executed
      intro more activation inner entered
      apply ih entered
      rw [Frame.active_entries_active]
      omega

end

/-- A program with neither `while` nor `eval` in its text ends, whatever its functions call, with
every host and under every ceiling, unless it enters a `loop` whose count exceeds 2^53. -/
theorem run_ends_or_loops_long {limit : Nat} {source : String} {host : Host}
    (noWhile : ¬"while".toList <:+: source.toList) (noEval : ¬"eval".toList <:+: source.toList) :
    (∃ fuel report final, ∀ more, fuel ≤ more →
      run more limit source host = some (report, final)) ∨
    (∃ fuel frames point, Executed fuel limit source host frames point ∧ point.LoopsLong) := by
  by_cases long : ∃ fuel frames point, Executed fuel limit source host frames point ∧ point.LoopsLong
  · exact .inr long
  · left
    have short (fuel : Nat) (frames : List Frame) (point : Point)
        (executed : Executed fuel limit source host frames point) : ¬point.LoopsLong :=
      fun loops => long ⟨fuel, frames, point, executed, loops⟩
    have ends : ∃ fuel final,
        runProgram (execute fuel) source (Machine.start limit host) = some final := by
      apply program_finishes
      intro fuel statement machine comes
      have executed : Executed fuel limit source host [] ⟨fuel, statement, machine⟩ :=
        .program (program_comes_to_extends (execute_extends (Nat.le_succ fuel)) comes)
      exact executed_finishes noWhile noEval short executed (Nat.le_add_left limit _)
    rcases ends with ⟨fuel, machine, ran⟩
    refine ⟨fuel, ⟨machine.control.exitCode, machine.elapsed.1⟩, machine.elapsed.2.host, ?_⟩
    intro more enough
    rw [run, run_program_extends (execute_extends enough) ran]

/-- Two functions that call each other without end, from within a `loop`. -/
theorem run_ends_or_loops_long_mutual :
    let source := "func f(n) \x7b g(n) \x7d; func g(n) \x7b f(n) \x7d; loop 3 \x7b f(0) \x7d"
    let host := Host.standalone .zero .zero .empty 0
    (∃ fuel report final, ∀ more, fuel ≤ more →
      run more Control.defaultLimit source host = some (report, final)) ∨
    (∃ fuel frames point, Executed fuel Control.defaultLimit source host frames point ∧
      point.LoopsLong) :=
  run_ends_or_loops_long (by decide +kernel) (by decide +kernel)

end ScriptSandbox
