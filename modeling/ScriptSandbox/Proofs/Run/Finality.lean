import ScriptSandbox.Host.Standalone
import ScriptSandbox.Proofs.Run.Course
import ScriptSandbox.Proofs.Run.Fuel
import ScriptSandbox.Proofs.Run.Halting

/-!
What halts a run, and that nothing follows. A run is halted by an `exit` that it executes, by a
statement that fails, or by a text that cannot be read. Each of them ends the trace with its own
payload or message, however deep it stands, and a trace ends with a halt only for such a cause.
-/

namespace ScriptSandbox

open Machine Interpreter

/-- Executed, the statement halts the run by itself: it is an `exit`, it fails, or the text it is to
run cannot be read. The machine is the one right before the halt. -/
inductive Point.Halts (point : Point) : Ending → Machine → Prop
  | exit (named : point.statement.command = "exit") :
      Halts point (.exited (point.statement.arguments.headD "0")) point.machine
  | fails {fault : Fault} {next : Machine} (failed : point.outcome = some (.error fault, next)) :
      Halts point (.failed fault.message) next
  | unread {source : String} {ready : Machine} {fault : Fault}
      (nests : point.statement.Nests point.machine source ready)
      (unread : Statement.parse source = .error fault) : Halts point (.failed fault.message) ready

/-- What halts a run: its program cannot be read, or a statement that it executes halts it. -/
inductive HaltsRun (fuel limit : Nat) (source : String) (host : Host) : Ending → Machine → Prop
  | unread {fault : Fault} (unread : Statement.parse source = .error fault) :
      HaltsRun fuel limit source host (.failed fault.message) (Machine.start limit host)
  | executed {frames : List Frame} {point : Point} {ending : Ending} {before : Machine}
      (executed : Executed fuel limit source host frames point)
      (halts : point.Halts ending before) : HaltsRun fuel limit source host ending before

namespace Machine

/-- The later machine is the earlier one halted in a certain way, as far as it shows. -/
structure Closes (before : Machine) (ending : Ending) (after : Machine) : Prop where
  payload : after.control.payload = ending.payload?
  host : after.host = (ending.events.foldl record before).host

theorem fail_closes (machine : Machine) (fault : Fault) :
    machine.Closes (.failed fault.message) (machine.fail fault) :=
  ⟨rfl, rfl⟩

/-- What is still done to a halted machine shows nowhere. -/
theorem rests_of_reaches {machine next : Machine} (reaches : Reaches machine next)
    (halted : machine.isHalted = true) :
    next.control.payload = machine.control.payload ∧ next.host = machine.host := by
  induction reaches with
  | refl => exact ⟨rfl, rfl⟩
  | @tail middle next _ act ih =>
      have still : middle.isHalted = true := by
        rw [isHalted, Control.isHalted, ih.1]
        exact halted
      cases act with
      | count | frame => exact ih
      | evaluate _ _ running | display _ _ running | save _ _ running | assign _ _ running
      | declare _ running | exit _ running | fail _ running =>
          rw [running] at still
          cases still

theorem Closes.onward {before after final : Machine} {ending : Ending}
    (closes : before.Closes ending after) (halted : after.isHalted = true)
    (reaches : Reaches after final) : before.Closes ending final := by
  obtain ⟨payload, host⟩ := rests_of_reaches reaches halted
  exact ⟨payload.trans closes.payload, host.trans closes.host⟩

end Machine

/-- Where a statement halts the run by itself, it goes on to a running machine and halts that one. -/
theorem Point.Halts.closes {point : Point} {ending : Ending} {before next : Machine}
    {result : Except Fault Flow} (halts : point.Halts ending before)
    (running : point.machine.isHalted = false) (ran : point.outcome = some (result, next)) :
    Reaches point.machine before ∧ before.isHalted = false ∧
      before.Closes ending (next.reporting result) ∧ (next.reporting result).isHalted = true := by
  obtain ⟨fuel, statement, machine⟩ := point
  cases halts with
  | exit named =>
      have exits : execute (fuel + 1) statement machine =
          some (PlainCommand.run .exit statement machine) := by
        simp only [execute, show Command.ofName? statement.command = some (.plain .exit) by
          rw [named]; rfl]
      cases exits.symm.trans ran
      exact ⟨.refl, running, ⟨rfl, rfl⟩, rfl⟩
  | @fails fault after failed =>
      cases failed.symm.trans ran
      have carried := carries_of_outcome running ran
      exact ⟨carried.reaches, carried.running fault rfl, fail_closes before fault, rfl⟩
  | @unread source ready fault nests unread =>
      have nested : execute (fuel + 1) statement machine = some (result, next) := ran
      rw [execute_nested nests, runNested, runProgram, unread] at nested
      cases nested
      obtain ⟨reaches, still⟩ := nests.reaches running
      exact ⟨reaches, still, ⟨rfl, rfl⟩, rfl⟩

namespace Interpreter

/-- The statement, executed on the machine, has ended, and the run has halted by then. -/
def EndsHalted (execute : Executor) (statement : Statement) (machine : Machine) : Prop :=
  ∃ result next, execute statement machine = some (result, next) ∧
    (next.reporting result).isHalted = true

section

variable {execute : Executor}

/-- A body halts the run only within one of its statements. -/
theorem halted_in_body {body : List Statement} {machine final : Machine} {flow : Flow}
    (ran : runBody execute body machine = some (flow, final)) (running : machine.isHalted = false)
    (halted : final.isHalted = true) :
    ∃ statement start, BodyComesTo execute body machine statement start ∧
      EndsHalted execute statement start := by
  have first {statement : Statement} {rest : List Statement} {machine : Machine}
      (running : machine.isHalted = false) :
      BodyComesTo execute (statement :: rest) machine statement machine :=
    body_comes_to_cons.mpr ⟨running, .inl ⟨rfl, rfl⟩⟩
  fun_induction runBody execute body machine with
  | case1 | case2 =>
      cases ran
      rw [running] at halted
      cases halted
  | case3 => cases ran
  | case4 statement rest machine unhalted middle executed ih =>
      cases still : middle.isHalted with
      | true => exact ⟨statement, machine, first running, _, middle, executed, still⟩
      | false =>
          obtain ⟨other, start, comes, ends⟩ := ih ran still
          exact ⟨other, start, body_comes_to_cons.mpr ⟨running, .inr ⟨middle, executed, comes⟩⟩, ends⟩
  | case5 statement rest machine unhalted middle executed =>
      cases ran
      exact ⟨statement, machine, first running, _, _, executed, halted⟩
  | case6 statement rest machine unhalted fault middle executed =>
      cases ran
      exact ⟨statement, machine, first running, _, middle, executed, halted⟩

theorem halted_in_statements {statements : List Statement} {machine final : Machine}
    (ran : runStatements execute statements machine = some final)
    (running : machine.isHalted = false) (halted : final.isHalted = true) :
    ∃ before statement after start, statements = before ++ statement :: after ∧
      runStatements execute before machine = some start ∧ start.isHalted = false ∧
      EndsHalted execute statement start := by
  fun_induction runStatements execute statements machine with
  | case1 | case2 =>
      cases ran
      rw [running] at halted
      cases halted
  | case3 => cases ran
  | case4 statement rest machine unhalted flow middle executed ih =>
      cases still : middle.isHalted with
      | true => exact ⟨[], statement, rest, machine, rfl, rfl, running, _, middle, executed, still⟩
      | false =>
          obtain ⟨before, other, after, start, same, ranBefore, ends⟩ := ih ran still
          refine ⟨statement :: before, other, after, start, by rw [same]; rfl, ?_, ends⟩
          rw [runStatements, if_neg unhalted, executed]
          exact ranBefore
  | case5 statement rest machine unhalted fault middle executed ih =>
      exact ⟨[], statement, rest, machine, rfl, rfl, running, _, middle, executed, rfl⟩

theorem halted_in_program {source : String} {machine final : Machine}
    (ran : runProgram execute source machine = some final) (running : machine.isHalted = false)
    (halted : final.isHalted = true) :
    (∃ fault, Statement.parse source = .error fault) ∨
      ∃ statement start, ProgramComesTo execute source machine statement start ∧
        EndsHalted execute statement start := by
  unfold runProgram at ran
  split at ran
  · next fault unread => exact .inl ⟨fault, unread⟩
  · next statements read =>
      obtain ⟨before, statement, after, start, same, ranBefore, still, ends⟩ :=
        halted_in_statements ran running halted
      exact .inr ⟨statement, start, ⟨before, after, same ▸ read, ranBefore, still⟩, ends⟩

theorem halted_in_passes {body : List Statement} {count passes : Number} {fuel : Nat}
    {machine final : Machine}
    (ran : runPasses execute body count fuel passes machine = some final)
    (running : machine.isHalted = false) (halted : final.isHalted = true) :
    ∃ statement start, (∃ pass, LoopPass execute body count passes machine pass ∧
      BodyComesTo execute body pass statement start) ∧ EndsHalted execute statement start := by
  fun_induction runPasses execute body count fuel passes machine with
  | case1 | case2 => cases ran
  | case3 passes machine goes fuel flow middle ranBody ih =>
      have below : passes.less count = true := (Bool.and_eq_true_iff.mp goes).1
      cases still : middle.isHalted with
      | true =>
          obtain ⟨statement, start, comes, ends⟩ := halted_in_body ranBody running still
          exact ⟨statement, start, ⟨machine, .here below running, comes⟩, ends⟩
      | false =>
          obtain ⟨statement, start, ⟨pass, later, comes⟩, ends⟩ := ih ran still
          exact ⟨statement, start, ⟨pass, .later below running ranBody later, comes⟩, ends⟩
  | case4 =>
      cases ran
      rw [running] at halted
      cases halted

theorem halted_in_while {condition : List String} {line : Nat} {body : List Statement} {fuel : Nat}
    {machine final : Machine} {result : Except Fault Unit}
    (ran : runWhileHolds execute condition line body fuel machine = some (result, final))
    (running : machine.isHalted = false) (halted : final.isHalted = true) :
    ∃ statement start, (∃ pass, WhilePass execute condition line body machine pass ∧
      BodyComesTo execute body pass statement start) ∧ EndsHalted execute statement start := by
  fun_induction runWhileHolds execute condition line body fuel machine with
  | case1 =>
      cases ran
      rw [running] at halted
      cases halted
  | case3 | case4 => cases ran
  -- The condition halts nothing, whether it fails or does not hold.
  | case2 _ _ _ _ _ evaluated | case6 _ _ _ _ _ evaluated =>
      cases ran
      rw [(evaluate_reaches running evaluated).2] at halted
      cases halted
  | case5 machine unhalted value middle evaluated holds fuel flow after ranBody ih =>
      have entered := (evaluate_reaches running evaluated).2
      cases still : after.isHalted with
      | true =>
          obtain ⟨statement, start, comes, ends⟩ := halted_in_body ranBody entered still
          exact ⟨statement, start, ⟨middle, .here running evaluated holds, comes⟩, ends⟩
      | false =>
          obtain ⟨statement, start, ⟨pass, later, comes⟩, ends⟩ := ih ran still
          exact ⟨statement, start, ⟨pass, .later running evaluated holds ranBody later, comes⟩, ends⟩

theorem halted_inside {activation : Activation} {fuel line : Nat} {entered final : Machine}
    {result : Except Fault Unit}
    (ran : activation.inside execute fuel line entered = some (result, final))
    (running : entered.isHalted = false) (halted : final.isHalted = true) :
    ∃ statement start, activation.ComesTo execute line entered statement start ∧
      EndsHalted execute statement start := by
  cases activation with
  | ifBlock body =>
      obtain ⟨⟨flow, last⟩, ranBody, same⟩ := Option.map_eq_some_iff.mp ran
      cases same
      exact halted_in_body ranBody running halted
  | loopBlock body count =>
      obtain ⟨last, passes, same⟩ := Option.map_eq_some_iff.mp ran
      cases same
      exact halted_in_passes passes running halted
  | whileBlock body condition => exact halted_in_while ran running halted
  | call function arguments =>
      rcases invoke_cases ran with ⟨fault, failed, -⟩ |
        ⟨frame, bound, flow, last, binding, ranBody, -, same⟩
      · rw [(bind_arguments_reaches running failed).2] at halted
        cases halted
      · rw [same] at halted
        obtain ⟨statement, start, comes, ends⟩ :=
          halted_in_body ranBody (bind_arguments_reaches running binding).2 halted
        exact ⟨statement, start, ⟨frame, bound, binding, comes⟩, ends⟩

end

end Interpreter

theorem Statement.Done.exits {statement : Statement} {machine next : Machine}
    {result : Except Fault Flow} (done : statement.Done machine result next)
    (running : machine.isHalted = false) (halted : next.isHalted = true) :
    statement.command = "exit" := by
  cases done with
  | @plain command _ _ named ran =>
      by_cases exits : command = .exit
      · rw [exits] at named
        exact Command.eq_word_of_name named
      · have still := (PlainCommand.run_reaches exits statement machine running).2
        rw [ran, halted] at still
        cases still
  | unchanged =>
      rw [running] at halted
      cases halted
  | evaluated _ evaluated =>
      rw [(evaluate_reaches running evaluated).2] at halted
      cases halted

namespace Point

def IsHalting (point : Point) : Prop :=
  EndsHalted (execute (point.fuel + 1)) point.statement point.machine

/-- A point that halts the run does so by itself, or within what is executed inside. -/
theorem IsHalting.cases {point : Point} (halting : point.IsHalting)
    (running : point.machine.isHalted = false) :
    (∃ ending before, point.Halts ending before) ∨
      ∃ inner, point.Opens inner ∧ inner.fuel < point.fuel ∧ inner.IsHalting := by
  obtain ⟨fuel, statement, machine⟩ := point
  obtain ⟨result, next, ran, halted⟩ := halting
  dsimp only at ran running
  -- What is executed inside has fuel left.
  have fueled {inner : Statement} {start : Machine} (ends : EndsHalted (execute fuel) inner start) :
      ∃ less, fuel = less + 1 := by
    obtain ⟨_, _, executed, _⟩ := ends
    cases fuel with
    | zero => cases executed
    | succ less => exact ⟨less, rfl⟩
  cases result with
  | error fault => exact .inl ⟨_, _, .fails ran⟩
  | ok flow =>
      rcases execute_cases statement machine with ⟨found, after, done, always⟩ |
        ⟨activation, ready, requests⟩ | ⟨source, ready, nests⟩
      · cases (always fuel).symm.trans ran
        exact .inl ⟨_, _, .exit (done.exits running halted)⟩
      · have entered := ran
        rw [execute_requested requests] at entered
        rcases run_entered_cases entered with ⟨-, failed, -⟩ | ⟨below, done, final, inside, -, left⟩
        · cases failed
        · have stopped : final.isHalted = true := by
            rw [left] at halted
            exact halted
          obtain ⟨inner, start, comes, ends⟩ :=
            halted_inside inside (requests.reaches running).2 stopped
          obtain ⟨less, rfl⟩ := fueled ends
          have enters := Enters.intro requests (enter_below statement.line below) comes
          exact .inr ⟨⟨less, inner, start⟩, .inl ⟨activation, enters⟩, Nat.lt_succ_self less, ends⟩
      · rw [execute_nested nests] at ran
        obtain ⟨after, nested, same⟩ := Option.map_eq_some_iff.mp ran
        cases same
        obtain ⟨final, program, rfl⟩ := run_nested_cases nested
        rcases halted_in_program program (nests.reaches running).2 halted with
          ⟨fault, unread⟩ | ⟨inner, start, comes, ends⟩
        · exact .inl ⟨_, _, .unread nests unread⟩
        · obtain ⟨less, rfl⟩ := fueled ends
          exact .inr ⟨⟨less, inner, start⟩, .inr (.intro nests comes), Nat.lt_succ_self less, ends⟩

end Point

section

variable {fuel limit : Nat} {source : String} {host : Host}

theorem Executed.halts {frames : List Frame} {point : Point}
    (executed : Executed fuel limit source host frames point) (halting : point.IsHalting) :
    ∃ ending before, HaltsRun fuel limit source host ending before := by
  induction left : point.fuel using Nat.strongRecOn generalizing frames point with
  | ind left ih =>
      rcases halting.cases executed.reaches.2 with ⟨ending, before, halts⟩ |
        ⟨inner, opens, less, within⟩
      · exact ⟨ending, before, .executed executed halts⟩
      · obtain ⟨others, inside⟩ := executed.opens opens
        exact ih inner.fuel (by omega) inside within rfl

/-- A run that has halted was halted by something. -/
theorem exists_halts_run {final : Machine}
    (ended : runProgram (execute (fuel + 1)) source (Machine.start limit host) = some final)
    (halted : final.isHalted = true) :
    ∃ ending before, HaltsRun fuel limit source host ending before := by
  rcases halted_in_program ended rfl halted with ⟨fault, unread⟩ | ⟨statement, start, comes, ends⟩
  · exact ⟨_, _, .unread unread⟩
  · exact (Executed.program comes).halts ends

/-- What halts a run comes after nothing but what the run did while it was running, and is the last
that happens. -/
theorem HaltsRun.closes {ending : Ending} {before final : Machine}
    (halts : HaltsRun fuel limit source host ending before)
    (ended : runProgram (execute (fuel + 1)) source (Machine.start limit host) = some final) :
    Reaches (Machine.start limit host) before ∧ before.isHalted = false ∧
      before.Closes ending final := by
  cases halts with
  | @unread fault unread =>
      rw [runProgram, unread] at ended
      cases ended
      exact ⟨.refl, rfl, fail_closes _ fault⟩
  | executed executed halts =>
      obtain ⟨result, next, ran, onward⟩ := executed.ends ended
      obtain ⟨start, running⟩ := executed.reaches
      obtain ⟨reaches, still, closes, halted⟩ := halts.closes running ran
      exact ⟨start.trans reaches, still, closes.onward halted onward⟩

section

variable {final : Machine} {quiet : List Event} {ending : Ending}
  (ended : runProgram (execute (fuel + 1)) source (Machine.start limit host) = some final)
  (events : final.host.events.toList =
    (Machine.start limit host).host.events.toList ++ quiet ++ ending.events)
  (silent : ∀ event ∈ quiet, event.isQuiet = true)
include ended events silent

/-- Whatever is executed starts in the quiet stretch of the trace. -/
theorem Executed.starts_quiet {frames : List Frame} {point : Point}
    (executed : Executed fuel limit source host frames point) :
    point.machine.host.events.toList <+:
      (Machine.start limit host).host.events.toList ++ quiet := by
  obtain ⟨reaches, running⟩ := executed.reaches
  obtain ⟨_, ends⟩ := reaches_ends rfl reaches
  obtain ⟨result, next, outcome, onward⟩ := executed.ends ended
  have carries := Point.carries_of_outcome running outcome
  have goes := carries.reaches.trans (carries.reported.trans onward)
  obtain ⟨last, endsLast⟩ := reaches_ends (payload_of_running running) goes
  obtain ⟨later, rest, silentToo⟩ := endsLast.events
  have parts := (ends.finished_of_running running).meanwhile events rest silent silentToo
  exact ⟨later, parts.1.symm⟩

/-- Whatever halts the run makes its ending. -/
theorem HaltsRun.makes_ending {other : Ending} {before : Machine}
    (halts : HaltsRun fuel limit source host other before) :
    other = ending ∧ final.host = (ending.events.foldl record before).host := by
  obtain ⟨reaches, running, closes⟩ := halts.closes ended
  obtain ⟨_, ends⟩ := reaches_ends rfl reaches
  have rest : final.host.events.toList = before.host.events.toList ++ [] ++ other.events := by
    rw [closes.host, events_of_records, List.append_nil]
  have same := ((ends.finished_of_running running).meanwhile events rest silent (by simp)).2
  rw [closes.host, same]
  exact ⟨rfl, rfl⟩

end

end

/-- The trace of every run that ends. What halts the run, an `exit` with its own argument or a fault
with its own message, makes the ending, and the host is left as it was right before but for these
events and the last reading of the clock; without such a cause there is no halt. Every executed
statement starts in the quiet stretch. An error is the last line of the output and gives the exit code
1; else the code is that of the argument of the `exit`, or 0. -/
theorem run_halts_at_most_once {fuel limit : Nat} {source : String} {host final : Host}
    {report : Report} (ended : run fuel limit source host = some (report, final)) :
    ∃ (quiet : List Event) (ending : Ending),
      final.events.toList =
        host.events.toList ++ [.readClock] ++ quiet ++ ending.events ++ [.readClock] ∧
      (∀ event ∈ quiet, event.isQuiet = true) ∧
      (∃ logs : List String,
        final.outputLines = host.outputLines ++ logs.map (fun text => (false, text)) ++ ending.lines) ∧
      report.exitCode = ending.exitCode ∧
      (∀ frames point, Executed fuel limit source host frames point →
        point.machine.host.events.toList <+: host.events.toList ++ [.readClock] ++ quiet) ∧
      (∀ other before, HaltsRun fuel limit source host other before →
        other = ending ∧ final = (ending.events.foldl record before).host.readClock.2) ∧
      (ending ≠ .finished → ∃ before, HaltsRun fuel limit source host ending before) := by
  obtain ⟨machine, ran, rfl, rfl⟩ := run_cases ended
  -- The points of `Executed` have one unit of fuel more; it changes nothing.
  have ranOn := run_program_extends (execute_extends (Nat.le_succ fuel)) ran
  obtain ⟨ending, ends⟩ := reaches_ends rfl (run_program_reaches (execute_acts fuel) rfl ran)
  obtain ⟨quiet, events, silent⟩ := ends.events
  have begun : (Machine.start limit host).host.events.toList =
      host.events.toList ++ [.readClock] := by
    simp [Machine.start, Host.readClock, Host.record]
  have trace : machine.host.readClock.2.events.toList =
      host.events.toList ++ [.readClock] ++ quiet ++ ending.events ++ [.readClock] := by
    simp [Host.readClock, Host.record, events, begun]
  refine ⟨quiet, ending, trace, silent, ?_, ends.exit_code, ?_, ?_, ?_⟩
  · obtain ⟨logs, logged⟩ := quiet_lines quiet silent
    have unwritten : [Event.readClock].filterMap Event.line? = [] := rfl
    refine ⟨logs, ?_⟩
    simp only [Host.outputLines, trace, List.filterMap_append, unwritten, logged,
      ending.filter_map_lines, List.append_nil]
  · intro frames point executed
    rw [← begun]
    exact executed.starts_quiet ranOn events silent
  · intro other before halts
    obtain ⟨same, left⟩ := halts.makes_ending ranOn events silent
    rw [left]
    exact ⟨same, rfl⟩
  · intro unfinished
    have halted : machine.isHalted = true := by
      rw [isHalted, Control.isHalted, ends.payload]
      cases ending with
      | finished => exact absurd rfl unfinished
      | exited | failed => rfl
    obtain ⟨other, before, halts⟩ := exists_halts_run ranOn halted
    rw [(halts.makes_ending ranOn events silent).1] at halts
    exact ⟨before, halts⟩

/-- An `exit` in a nested program, in a loop, in a function: the second pass and the last statement
do not come about. -/
theorem run_halts_at_most_once_nested :
    let source := "func f(n) \x7b loop 3 \x7b log n; eval \"exit 3\"; log n \x7d \x7d; log 1; f(7); log 2"
    let host := Host.standalone .zero .zero .empty 0
    ∃ report final before, run 30 10 source host = some (report, final) ∧
      HaltsRun 30 10 source host (.exited "3") before ∧
      before.host.events.toList = [.readClock, .log "1", .log "7"] ∧
      final.events.toList = [.readClock, .log "1", .log "7", .halt "3", .readClock] ∧
      report.exitCode = 3 := by
  intro source host
  have ran : (run 30 10 source host).map (fun ended => ended.2.events.toList) =
      some [.readClock, .log "1", .log "7", .halt "3", .readClock] := by
    decide +kernel
  obtain ⟨⟨report, final⟩, ended, trace⟩ := Option.map_eq_some_iff.mp ran
  obtain ⟨quiet, ending, shape, silent, -, code, -, causes, halted⟩ := run_halts_at_most_once ended
  have same : [.readClock] ++ ([.log "1", .log "7"] ++ Ending.events (.exited "3")) ++ [.readClock] =
      [.readClock] ++ (quiet ++ ending.events) ++ [.readClock] := by
    rw [← List.append_assoc [.readClock] quiet]
    exact trace.symm.trans shape
  obtain ⟨rfl, rfl⟩ := Ending.eq_of_trace
    (List.append_cancel_left (List.append_cancel_right same)) (by decide) silent
  obtain ⟨before, halts⟩ := halted nofun
  refine ⟨report, final, before, ended, halts, ?_, trace, ?_⟩
  · have closed : before.host.events.toList ++ [.halt "3"] ++ [.readClock] =
        [.readClock, .log "1", .log "7"] ++ [.halt "3"] ++ [.readClock] := by
      rw [(causes _ before halts).2, Host.readClock, Host.record, Array.toList_push,
        events_of_records] at trace
      exact trace
    exact List.append_cancel_right (List.append_cancel_right closed)
  · rw [code]
    decide +kernel

end ScriptSandbox
