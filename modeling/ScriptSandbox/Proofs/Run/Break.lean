import ScriptSandbox.Host.Standalone
import ScriptSandbox.Proofs.Run.Cases
import ScriptSandbox.Proofs.Run.Depth

/-!
A `break` ends the innermost body around it and nothing else. No other statement asks a body to end,
so whatever runs a body sees from a `break` only that the body came to its end there. A program takes
no notice of a `break` at all.
-/

namespace ScriptSandbox

namespace PlainCommand

section

variable {statement : Statement} {machine next : Machine} {flow : Flow}

theorem run_log_next (ran : runLog statement machine = (.ok flow, next)) : flow = .next := by
  unfold runLog at ran
  split at ran
  · cases ran
  · split at ran
    · cases ran
    · cases ran
      rfl

theorem run_assign_next (ran : runAssign statement machine = (.ok flow, next)) : flow = .next := by
  unfold runAssign at ran
  split at ran
  · split at ran
    · split at ran
      · cases ran
      · cases ran
        rfl
    · cases ran
  · cases ran

theorem run_save_next (ran : runSave statement machine = (.ok flow, next)) : flow = .next := by
  unfold runSave at ran
  split at ran
  · split at ran
    · cases ran
    · dsimp only at ran
      split at ran
      · cases ran
      · split at ran
        · cases ran
        · cases ran
          rfl
  · cases ran

theorem run_declare_next (ran : runDeclare statement machine = (.ok flow, next)) :
    flow = .next := by
  unfold runDeclare at ran
  split at ran
  · cases ran
  · dsimp only at ran
    split at ran
    · cases ran
    · split at ran
      · cases ran
      · split at ran
        · cases ran
        · cases ran
          rfl

theorem run_draw_next (ran : runDraw statement machine = (.ok flow, next)) : flow = .next := by
  unfold runDraw at ran
  dsimp only at ran
  split at ran
  · cases ran
    rfl
  · split at ran
    · split at ran
      · cases ran
      · cases ran
        rfl
      · cases ran
        rfl
    · cases ran

/-- Of the plain commands only `break` asks the body to end, and it does nothing else. -/
theorem run_leaves {command : PlainCommand}
    (ran : command.run statement machine = (.ok .leave, next)) :
    command = .leaveBody ∧ next = machine := by
  cases command with
  | leaveBody =>
      cases ran
      exact ⟨rfl, rfl⟩
  | assign => cases run_assign_next ran
  | declare => cases run_declare_next ran
  | draw => cases run_draw_next ran
  | log => cases run_log_next ran
  | save => cases run_save_next ran
  | comment | exit => cases ran

end

end PlainCommand

namespace Interpreter

section

variable {machine next : Machine} {flow : Flow}

theorem run_entered_next {line : Nat} {inside : Machine → Option (Except Fault Unit × Machine)}
    (ran : runEntered line inside machine = some (.ok flow, next)) : flow = .next := by
  rcases run_entered_cases ran with ⟨-, refused, -⟩ | ⟨-, inner, final, -, after, -⟩
  · cases refused
  · cases inner with
    | ok done =>
        cases after
        rfl
    | error fault => cases after

theorem run_block_next {statement : Statement} {opening : Nat}
    {inside : List Statement → Machine → Option (Except Fault Unit × Machine)}
    (ran : runBlock statement opening inside machine = some (.ok flow, next)) : flow = .next := by
  rcases run_block_cases ran with ⟨fault, -, failed, -⟩ | ⟨body, -, entered⟩
  · cases failed
  · exact run_entered_next entered

theorem with_head_next {statement : Statement} {incomplete unopened : Malformed}
    {rest : Nat → Value → Machine → Option Outcome}
    (goes : ∀ opening value ready, rest opening value ready = some (.ok flow, next) → flow = .next)
    (ran : withHead statement incomplete unopened rest machine = some (.ok flow, next)) :
    flow = .next := by
  rcases with_head_cases ran with ⟨-, failed, -⟩ | ⟨-, -, failed, -⟩ | ⟨-, _, _, -, -, failed⟩ |
    ⟨-, opening, value, ready, -, -, later⟩
  · cases failed
  · cases failed
  · cases failed
  · exact goes opening value ready later

theorem run_eval_next {execute : Executor} {statement : Statement}
    (ran : runEval execute statement machine = some (.ok flow, next)) : flow = .next := by
  unfold runEval at ran
  split at ran
  · cases ran
  · split at ran
    · cases ran
    · cases ran
      rfl
    · dsimp only at ran
      split at ran
      · cases ran
      · cases ran
        rfl

/-- Only a `break` asks the body around it to end; it leaves the machine as it is. -/
theorem execute_leaves {fuel : Nat} {statement : Statement}
    (ran : execute fuel statement machine = some (.ok .leave, next)) :
    statement.command = "break" ∧ next = machine := by
  cases fuel with
  | zero => cases ran
  | succ fuel =>
      unfold execute at ran
      split at ran
      · next command named =>
          rcases PlainCommand.run_leaves (Option.some.inj ran) with ⟨rfl, same⟩
          exact ⟨Command.eq_word_of_name named, same⟩
      -- Whatever runs other statements goes on with the next one.
      · have goes : Flow.leave = .next := by
          apply with_head_next _ ran
          intro opening value ready later
          split at later
          · exact run_block_next later
          · cases later
        cases goes
      · have goes : Flow.leave = .next := by
          apply with_head_next _ ran
          intro opening value ready later
          dsimp only at later
          split at later
          · cases later
          · exact run_block_next later
        cases goes
      · have goes : Flow.leave = .next := by
          apply with_head_next _ ran
          intro opening value ready later
          dsimp only at later
          split at later
          · exact run_block_next later
          · cases later
        cases goes
      · cases run_eval_next ran
      · rcases run_call_cases ran with ⟨failed, -, -⟩ | ⟨_, _, -, -, entered⟩
        · cases failed
        · cases run_entered_next entered

end

theorem execute_break {stop : Statement} (breaks : stop.command = "break") (fuel : Nat)
    (machine : Machine) : execute (fuel + 1) stop machine = some (.ok .leave, machine) := by
  simp only [execute, breaks]
  rfl

theorem run_body_stopped (execute : Executor) (body : List Statement) {machine : Machine}
    (halted : machine.isHalted = true) : runBody execute body machine = some (.next, machine) := by
  cases body with
  | nil => rfl
  | cons statement rest => rw [runBody, if_pos halted]

/-- The statements behind the first part of a body run where that part lets the body go on. -/
theorem run_body_append (execute : Executor) (first second : List Statement) (machine : Machine) :
    runBody execute (first ++ second) machine =
      (runBody execute first machine).bind fun ending =>
        match ending.1 with
        | .next => runBody execute second ending.2
        | .leave => some ending := by
  fun_induction runBody execute first machine with
  | case1 => rfl
  | case2 statement rest machine halted =>
      rw [List.cons_append, runBody, if_pos halted]
      exact (run_body_stopped execute second halted).symm
  | case3 statement rest machine unhalted executed =>
      rw [List.cons_append, runBody, if_neg unhalted, executed]
      rfl
  | case4 statement rest machine unhalted middle executed ih =>
      rw [List.cons_append, runBody, if_neg unhalted, executed]
      exact ih
  | case5 statement rest machine unhalted middle executed =>
      rw [List.cons_append, runBody, if_neg unhalted, executed]
      rfl
  | case6 statement rest machine unhalted fault middle executed =>
      rw [List.cons_append, runBody, if_neg unhalted, executed]
      exact (run_body_stopped execute second rfl).symm

/-- With a `break` behind it, the first part of a body is all of the body that runs. -/
theorem run_body_break {stop : Statement} (breaks : stop.command = "break") (fuel : Nat)
    (before after : List Statement) (machine : Machine) :
    runBody (execute (fuel + 1)) (before ++ stop :: after) machine =
      (runBody (execute (fuel + 1)) before machine).map fun ending =>
        (if ending.2.isHalted then ending.1 else .leave, ending.2) := by
  rw [run_body_append]
  cases runBody (execute (fuel + 1)) before machine with
  | none => rfl
  | some ending =>
      obtain ⟨flow, next⟩ := ending
      cases flow with
      | leave => simp
      | next =>
          cases halted : next.isHalted with
          | true => simp [halted, run_body_stopped]
          | false => simp [halted, runBody, execute_break breaks]

/-- Two bodies come to their ends on the same machine, wherever they start. -/
def EndAlike (execute : Executor) (body other : List Statement) : Prop :=
  ∀ machine, (runBody execute body machine).map Prod.snd = (runBody execute other machine).map Prod.snd

theorem break_end_alike {stop : Statement} (breaks : stop.command = "break") (fuel : Nat)
    (before after : List Statement) :
    EndAlike (execute (fuel + 1)) (before ++ stop :: after) before := by
  intro machine
  rw [run_body_break breaks, Option.map_map]
  rfl

section

variable {execute : Executor} {body other : List Statement} (alike : EndAlike execute body other)
include alike

theorem EndAlike.cases (machine : Machine) :
    (runBody execute body machine = none ∧ runBody execute other machine = none) ∨
    ∃ flow otherFlow next, runBody execute body machine = some (flow, next) ∧
      runBody execute other machine = some (otherFlow, next) := by
  have ends := alike machine
  cases ran : runBody execute body machine with
  | none =>
      rw [ran] at ends
      exact .inl ⟨rfl, Option.map_eq_none_iff.mp ends.symm⟩
  | some ending =>
      rw [ran] at ends
      rcases Option.map_eq_some_iff.mp ends.symm with ⟨⟨flow, next⟩, ranOther, same⟩
      cases same
      exact .inr ⟨ending.1, flow, ending.2, rfl, ranOther⟩

theorem run_passes_end_alike (count : Number) (fuel : Nat) (passes : Number) (machine : Machine) :
    runPasses execute body count fuel passes machine =
      runPasses execute other count fuel passes machine := by
  induction fuel generalizing passes machine with
  | zero =>
      unfold runPasses
      rfl
  | succ fuel ih =>
      unfold runPasses
      rcases alike.cases machine with ⟨ran, ranOther⟩ | ⟨flow, otherFlow, next, ran, ranOther⟩
      · rw [ran, ranOther]
      · simp only [ran, ranOther, ih]

theorem run_while_holds_end_alike (condition : List String) (line fuel : Nat) (machine : Machine) :
    runWhileHolds execute condition line body fuel machine =
      runWhileHolds execute condition line other fuel machine := by
  induction fuel generalizing machine with
  | zero =>
      unfold runWhileHolds
      rfl
  | succ fuel ih =>
      unfold runWhileHolds
      split
      · rfl
      · split
        · rfl
        · next value next evaluated =>
            rcases alike.cases next with ⟨ran, ranOther⟩ | ⟨flow, otherFlow, final, ran, ranOther⟩
            · rw [ran, ranOther]
            · simp only [ran, ranOther, ih]

end

end Interpreter

namespace Activation

/-- The entry with another body in place of its own. -/
def withBody (body : List Statement) : Activation → Activation
  | .ifBlock _ => .ifBlock body
  | .loopBlock _ count => .loopBlock body count
  | .whileBlock _ condition => .whileBlock body condition
  | .call function arguments => .call { function with body } arguments

open Interpreter

/-- Whatever runs a body takes no notice of how it came to its end. -/
theorem inside_end_alike {execute : Executor} {body other : List Statement}
    (alike : EndAlike execute body other) (activation : Activation) (fuel line : Nat) :
    (activation.withBody body).inside execute fuel line =
      (activation.withBody other).inside execute fuel line := by
  funext machine
  cases activation with
  | ifBlock old =>
      show runOnce execute body machine = runOnce execute other machine
      unfold runOnce
      rcases alike.cases machine with ⟨ran, ranOther⟩ | ⟨flow, otherFlow, next, ran, ranOther⟩
      · rw [ran, ranOther]
      · rw [ran, ranOther]
        rfl
  | loopBlock old count =>
      show (runPasses execute body count fuel .zero machine).map _ = _
      rw [run_passes_end_alike alike]
      rfl
  | whileBlock old condition => exact run_while_holds_end_alike alike condition line fuel machine
  | call function arguments =>
      show invoke execute { function with body } arguments line machine =
        invoke execute { function with body := other } arguments line machine
      unfold invoke
      dsimp only
      split
      · rfl
      · next frame bound binding =>
          rcases alike.cases { bound with scope := frame } with
            ⟨ran, ranOther⟩ | ⟨flow, otherFlow, next, ran, ranOther⟩
          · rw [ran, ranOther]
          · rw [ran, ranOther]

end Activation

/-- The statements of a program without its `break`s; the others keep their lines. -/
def Statement.withoutBreaks (statements : List Statement) : List Statement :=
  statements.filter fun statement => statement.command ≠ "break"

namespace Interpreter

open Statement

theorem run_statements_without_breaks (fuel : Nat) (statements : List Statement)
    (machine : Machine) :
    runStatements (execute (fuel + 1)) statements machine =
      runStatements (execute (fuel + 1)) (withoutBreaks statements) machine := by
  induction statements generalizing machine with
  | nil => rfl
  | cons statement rest ih =>
      by_cases breaks : statement.command = "break"
      · have left : withoutBreaks (statement :: rest) = withoutBreaks rest :=
          List.filter_cons_of_neg (by simp [breaks])
        rw [left, runStatements, execute_break breaks]
        split
        · next halted => exact (run_statements_stopped _ _ halted).symm
        · exact ih machine
      · have kept : withoutBreaks (statement :: rest) = statement :: withoutBreaks rest :=
          List.filter_cons_of_pos (by simp [breaks])
        rw [kept]
        simp only [runStatements, ih]

section

variable {source : String} {statements : List Statement}
  (read : parse source = .ok statements)
include read

theorem run_program_without_breaks (fuel : Nat) (machine : Machine) :
    runProgram (execute (fuel + 1)) source machine =
      runStatements (execute (fuel + 1)) (withoutBreaks statements) machine := by
  rw [runProgram, read]
  exact run_statements_without_breaks fuel statements machine

theorem run_nested_without_breaks (fuel : Nat) (machine : Machine) :
    runNested (execute (fuel + 1)) source machine =
      (runStatements (execute (fuel + 1)) (withoutBreaks statements)
        { machine with control := machine.control.setDepth 0 }).map fun final =>
          { final with control := final.control.setDepth machine.control.depth } := by
  rw [runNested, run_program_without_breaks read]
  cases runStatements (execute (fuel + 1)) (withoutBreaks statements) _ <;> rfl

theorem run_without_breaks (fuel limit : Nat) (host : Host) :
    run (fuel + 1) limit source host =
      (runStatements (execute (fuel + 1)) (withoutBreaks statements)
        (Machine.start limit host)).map fun machine =>
          (⟨machine.control.exitCode, machine.elapsed.1⟩, machine.elapsed.2.host) := by
  rw [run, run_program_without_breaks read]
  cases runStatements (execute (fuel + 1)) (withoutBreaks statements) _ <;> rfl

end

section

variable {fuel : Nat} {stop : Statement} {before : List Statement} {machine next : Machine}
  (breaks : stop.command = "break")
  (ran : runBody (execute (fuel + 1)) before machine = some (.next, next))
  (running : next.isHalted = false) (after : List Statement)
include breaks ran running

theorem run_body_ends_at_break :
    runBody (execute (fuel + 1)) (before ++ stop :: after) machine = some (.leave, next) := by
  rw [run_body_break breaks, ran, Option.map_some, running]
  rfl

/-- A `loop` goes on with its next pass. -/
theorem run_passes_past_break {count passes : Number} (more : Nat)
    (goes : (passes.less count && !machine.isHalted) = true) :
    runPasses (execute (fuel + 1)) (before ++ stop :: after) count (more + 1) passes machine =
      runPasses (execute (fuel + 1)) (before ++ stop :: after) count more (passes + .one) next := by
  rw [runPasses, if_pos goes, run_body_ends_at_break breaks ran running]

/-- A `while` goes on with its next pass, if its condition holds there. -/
theorem run_while_holds_past_break {condition : List String} {line : Nat} {start : Machine}
    {value : Value} (more : Nat) (started : start.isHalted = false)
    (evaluated : start.evaluate condition line = (.ok value, machine))
    (holds : value.isTruthy = true) :
    runWhileHolds (execute (fuel + 1)) condition line (before ++ stop :: after) (more + 1) start =
      runWhileHolds (execute (fuel + 1)) condition line (before ++ stop :: after) more next := by
  rw [runWhileHolds, started, evaluated]
  simp only [holds, run_body_ends_at_break breaks ran running]
  rfl

end

/-- Where a body ends at a `break`, the statement around it is executed as if the body ended there. -/
theorem execute_past_break {stop outer : Statement} {before after : List Statement}
    {activation : Activation} {machine ready : Machine} (breaks : stop.command = "break")
    (requests : outer.Requests machine (activation.withBody (before ++ stop :: after)) ready)
    (fuel : Nat) :
    execute (fuel + 2) outer machine =
      runEntered outer.line
        ((activation.withBody before).inside (execute (fuel + 1)) (fuel + 1) outer.line) ready := by
  rw [execute_requested requests,
    Activation.inside_end_alike (break_end_alike breaks fuel before after)]

end Interpreter

open Interpreter

/-- A `break` ends exactly the innermost body. Nothing but a `break` asks a body to end. When the
statements before it have run and the run goes on, the body ends on the machine they leave behind. A
`loop` or a `while` around it goes on with its next pass. Whatever the statements before it do, the
statement around the body is executed as if the body ended there, and the run goes on behind it. A
program, of a run or of an `eval`, runs as it does without its `break`s. -/
theorem break_ends_innermost_body :
    (∀ fuel (statement : Statement) machine next,
      execute fuel statement machine = some (.ok .leave, next) → statement.command = "break") ∧
    (∀ fuel (stop : Statement) before after machine next, stop.command = "break" →
      runBody (execute (fuel + 1)) before machine = some (.next, next) → next.isHalted = false →
      runBody (execute (fuel + 1)) (before ++ stop :: after) machine = some (.leave, next) ∧
      (∀ count passes more, (passes.less count && !machine.isHalted) = true →
        runPasses (execute (fuel + 1)) (before ++ stop :: after) count (more + 1) passes machine =
          runPasses (execute (fuel + 1)) (before ++ stop :: after) count more (passes + .one) next) ∧
      (∀ condition line start value more, start.isHalted = false →
        start.evaluate condition line = (.ok value, machine) → value.isTruthy = true →
        runWhileHolds (execute (fuel + 1)) condition line (before ++ stop :: after) (more + 1) start =
          runWhileHolds (execute (fuel + 1)) condition line (before ++ stop :: after) more next)) ∧
    (∀ fuel (stop outer : Statement) before after (activation : Activation) machine ready,
      stop.command = "break" →
      outer.Requests machine (activation.withBody (before ++ stop :: after)) ready →
      execute (fuel + 2) outer machine =
        runEntered outer.line
          ((activation.withBody before).inside (execute (fuel + 1)) (fuel + 1) outer.line) ready ∧
      (machine.isHalted = false → ready.control.depth + 1 ≤ ready.control.limit → ∀ final later,
        (activation.withBody before).inside (execute (fuel + 1)) (fuel + 1) outer.line ready.raised =
          some (.ok (), final) →
        runBody (execute (fuel + 2)) (outer :: later) machine =
          runBody (execute (fuel + 2)) later final.leave)) ∧
    (∀ fuel source statements, Statement.parse source = .ok statements →
      (∀ limit host, run (fuel + 1) limit source host =
        (runStatements (execute (fuel + 1)) (Statement.withoutBreaks statements)
          (Machine.start limit host)).map fun machine =>
            (⟨machine.control.exitCode, machine.elapsed.1⟩, machine.elapsed.2.host)) ∧
      ∀ machine, runNested (execute (fuel + 1)) source machine =
        (runStatements (execute (fuel + 1)) (Statement.withoutBreaks statements)
          { machine with control := machine.control.setDepth 0 }).map fun final =>
            { final with control := final.control.setDepth machine.control.depth }) := by
  constructor
  · intro fuel statement machine next ran
    exact (execute_leaves ran).1
  constructor
  · intro fuel stop before after machine next breaks ran running
    constructor
    · exact run_body_ends_at_break breaks ran running after
    constructor
    · intro count passes more goes
      exact run_passes_past_break breaks ran running after more goes
    · intro condition line start value more started evaluated holds
      exact run_while_holds_past_break breaks ran running after more started evaluated holds
  constructor
  · intro fuel stop outer before after activation machine ready breaks requests
    have executed := execute_past_break breaks requests fuel
    constructor
    · exact executed
    · intro running below final later ended
      rw [run_entered_within below, ended] at executed
      rw [runBody, running, executed]
      rfl
  · intro fuel source statements read
    constructor
    · exact fun limit host => run_without_breaks read fuel limit host
    · exact fun machine => run_nested_without_breaks read fuel machine

/-- A `break` in front of an `exit`, in a body that a `loop` runs twice, in an `if` and in a
program. -/
theorem break_ends_innermost_body_before_exit :
    let first : Statement := ⟨"log", ["1"], 1⟩
    let stop : Statement := ⟨"break", [], 2⟩
    let last : Statement := ⟨"exit", ["3"], 3⟩
    let outer : Statement := ⟨"if", ["1", "\x7b", "log 1; break; exit 3", "\x7d"], 1⟩
    let start := Machine.start 2 (Host.standalone .zero .zero .empty 0)
    let ready := (start.evaluate ["1"] 1).2
    (∃ next, runBody (execute 1) ([first] ++ stop :: [last]) start = some (.leave, next) ∧
      runPasses (execute 1) ([first] ++ stop :: [last]) (.ofNat 2) 2 .zero start =
        runPasses (execute 1) ([first] ++ stop :: [last]) (.ofNat 2) 1 (.zero + .one) next) ∧
    execute 2 outer start =
      runEntered 1 ((Activation.ifBlock [first]).inside (execute 1) 1 1) ready ∧
    run 1 2 "log 1; break; exit 3" (Host.standalone .zero .zero .empty 0) =
      (runStatements (execute 1) [first, last] start).map fun machine =>
        (⟨machine.control.exitCode, machine.elapsed.1⟩, machine.elapsed.2.host) := by
  intro first stop last outer start ready
  obtain ⟨-, ends, around, programs⟩ := break_ends_innermost_body
  constructor
  · have ran : (runBody (execute 1) [first] start).map (fun ending =>
        (ending.1, ending.2.isHalted)) = some (.next, false) := by
      decide +kernel
    rcases Option.map_eq_some_iff.mp ran with ⟨⟨flow, next⟩, ended, shown⟩
    simp only [Prod.mk.injEq] at shown
    rw [shown.1] at ended
    have laws := ends 0 stop [first] [last] start next rfl ended shown.2
    exact ⟨next, laws.1, laws.2.1 (.ofNat 2) .zero 1 (by decide +kernel)⟩
  constructor
  · have value : (start.evaluate ["1"] 1).1 = .ok (.number .one) :=
      ok_of_to_option (by decide +kernel)
    have head : outer.HasHead start 1 (.number .one) ready :=
      ⟨by decide, by decide, Prod.ext value rfl⟩
    have read : outer.bodyStatements 1 = .ok ([first] ++ stop :: [last]) :=
      ok_of_to_option (by decide +kernel)
    have requests : outer.Requests start (.ifBlock ([first] ++ stop :: [last])) ready :=
      .ifBlock (by decide) head (by decide +kernel) read
    exact (around 0 stop outer [first] [last] (.ifBlock []) start ready rfl requests).1
  · have read : Statement.parse "log 1; break; exit 3" = .ok [first, stop, last] :=
      ok_of_to_option (by decide +kernel)
    exact (programs 0 _ _ read).1 2 _

end ScriptSandbox
