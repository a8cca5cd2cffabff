import ScriptSandbox.Proofs.Run.Onward

/-!
The course of a run: acts lead from its start to every statement that it executes, which is come to on
a running machine, and when the run has ended, acts lead there from what the statement left behind.
-/

namespace ScriptSandbox

open Machine Interpreter

namespace Machine

/-- A fault that is returned on a running machine can be reported on it. -/
theorem Carries.reported {machine next : Machine} {result : Except Fault Flow}
    (carries : Carries machine result next) : Reaches next (next.reporting result) := by
  cases result with
  | ok flow => exact .refl
  | error fault => exact .single (.fail next fault (carries.running fault rfl))

end Machine

namespace Interpreter

section

variable {execute : Executor} (acts : ∀ statement, ActsWhileRunning (execute statement))
include acts

theorem reaches_onward : Onward execute Reaches where
  refl _ := .refl
  trans before after := before.trans after
  body := run_body_reaches acts
  statements := run_statements_reaches acts
  passes := run_passes_reaches acts
  holds ran := (run_while_holds_carries acts ran).reaches

theorem loop_pass_reaches {body : List Statement} {count passes : Number} {machine start : Machine}
    (pass : LoopPass execute body count passes machine start) : Reaches machine start := by
  induction pass with
  | here => exact .refl
  | later _ _ ran _ ih => exact (run_body_reaches acts ran).trans ih

theorem while_pass_reaches {condition : List String} {line : Nat} {body : List Statement}
    {machine start : Machine} (pass : WhilePass execute condition line body machine start) :
    Reaches machine start := by
  induction pass with
  | here running evaluated _ => exact (evaluate_reaches running evaluated).1
  | later running evaluated _ ran _ ih =>
      exact ((evaluate_reaches running evaluated).1.trans (run_body_reaches acts ran)).trans ih

theorem body_comes_to_reaches {body : List Statement} {start machine : Machine}
    {statement : Statement} (comes : BodyComesTo execute body start statement machine) :
    Reaches start machine ∧ machine.isHalted = false := by
  obtain ⟨before, after, -, ran, running⟩ := comes
  exact ⟨run_body_reaches acts ran, running⟩

theorem program_comes_to_reaches {source : String} {start machine : Machine} {statement : Statement}
    (comes : ProgramComesTo execute source start statement machine) :
    Reaches start machine ∧ machine.isHalted = false := by
  obtain ⟨before, after, -, ran, running⟩ := comes
  exact ⟨run_statements_reaches acts ran, running⟩

theorem comes_to_reaches {activation : Activation} {line : Nat} {entered machine : Machine}
    {statement : Statement} (running : entered.isHalted = false)
    (comes : activation.ComesTo execute line entered statement machine) :
    Reaches entered machine ∧ machine.isHalted = false := by
  cases activation with
  | ifBlock body => exact body_comes_to_reaches acts comes
  | loopBlock body count =>
      obtain ⟨start, pass, comes⟩ := comes
      obtain ⟨reaches, still⟩ := body_comes_to_reaches acts comes
      exact ⟨(loop_pass_reaches acts pass).trans reaches, still⟩
  | whileBlock body condition =>
      obtain ⟨start, pass, comes⟩ := comes
      obtain ⟨reaches, still⟩ := body_comes_to_reaches acts comes
      exact ⟨(while_pass_reaches acts pass).trans reaches, still⟩
  | call function arguments =>
      obtain ⟨frame, bound, binding, comes⟩ := comes
      obtain ⟨reaches, still⟩ := body_comes_to_reaches acts comes
      have called := (bind_arguments_reaches running binding).1.tail (.frame bound frame)
      exact ⟨called.trans reaches, still⟩

theorem inside_ends_ahead {activation : Activation} {fuel line : Nat}
    {entered machine final : Machine} {statement : Statement} {result : Except Fault Unit}
    (comes : activation.ComesTo execute line entered statement machine)
    (ran : activation.inside execute fuel line entered = some (result, final)) :
    EndsAhead execute Reaches statement machine final := by
  have onward := reaches_onward acts
  obtain ⟨last, ends, ⟨-, same⟩ | ⟨_, _, _, bound, -, -, same⟩⟩ := onward.inside_ends comes ran
  · rw [same]
    exact ends
  · rw [same]
    exact onward.ends_ahead ends (.single (.frame last bound.scope))

end

end Interpreter

namespace Point

/-- Executing the one point executes the other, with nothing between them. -/
def Opens (outer inner : Point) : Prop :=
  (∃ activation, outer.Enters activation inner) ∨ outer.Nests inner

theorem carries_of_outcome {point : Point} {result : Except Fault Flow} {next : Machine}
    (running : point.machine.isHalted = false) (ran : point.outcome = some (result, next)) :
    Carries point.machine result next :=
  execute_acts _ point.statement point.machine result next running ran

end Point

theorem Statement.Requests.reaches {statement : Statement} {machine ready : Machine}
    {activation : Activation} (requests : statement.Requests machine activation ready)
    (running : machine.isHalted = false) : Reaches machine ready ∧ ready.isHalted = false := by
  cases requests with
  | ifBlock _ head | loopBlock _ head | whileBlock _ head =>
      exact evaluate_reaches running head.evaluated
  | call => exact ⟨.refl, running⟩

theorem Statement.Nests.reaches {statement : Statement} {machine ready : Machine} {source : String}
    (nests : statement.Nests machine source ready) (running : machine.isHalted = false) :
    Reaches machine ready ∧ ready.isHalted = false := by
  obtain ⟨value, -, -, evaluated⟩ := nests.evaluated
  exact evaluate_reaches running evaluated

namespace Point

theorem Opens.reaches {outer inner : Point} (opens : outer.Opens inner)
    (running : outer.machine.isHalted = false) :
    Reaches outer.machine inner.machine ∧ inner.machine.isHalted = false := by
  rcases opens with ⟨activation, enters⟩ | nests
  · cases enters with
    | @intro fuel outer inner machine ready entered start _ requests admitted comes =>
        obtain ⟨reaches, still⟩ := requests.reaches running
        obtain ⟨-, rfl⟩ := enter_cases admitted
        have entering : ready.raised.isHalted = false := still
        obtain ⟨inside, going⟩ := comes_to_reaches (execute_acts _) entering comes
        exact ⟨(reaches.tail (.count ready _)).trans inside, going⟩
  · cases nests with
    | @intro fuel outer inner machine ready start source nests comes =>
        obtain ⟨inside, going⟩ := program_comes_to_reaches (execute_acts _) comes
        exact ⟨((nests.reaches running).1.tail (.count ready 0)).trans inside, going⟩

/-- What is executed inside has ended when the whole has, and the run has gone on from there. -/
theorem Opens.ends {outer inner : Point} {result : Except Fault Flow} {next : Machine}
    (opens : outer.Opens inner) (running : outer.machine.isHalted = false)
    (ran : outer.outcome = some (result, next)) :
    ∃ found last, inner.outcome = some (found, last) ∧
      Reaches (last.reporting found) (next.reporting result) := by
  have reported := (carries_of_outcome running ran).reported
  rcases opens with ⟨activation, enters⟩ | nests
  · cases enters with
    | @intro fuel outer inner machine ready entered start _ requests admitted comes =>
        obtain ⟨below, rfl⟩ := enter_cases admitted
        have entered : execute (fuel + 2) outer machine = some (result, next) := ran
        rw [execute_requested requests] at entered
        rcases run_entered_cases entered with ⟨deep, -, -⟩ | ⟨-, done, final, inside, -, left⟩
        · exact absurd below (Nat.not_le.mpr deep)
        · obtain ⟨found, last, executed, reaches⟩ := inside_ends_ahead (execute_acts _) comes inside
          have leaving : Reaches final next := by
            rw [left]
            exact .single (.count final _)
          exact ⟨found, last, executed, (reaches.trans leaving).trans reported⟩
  · cases nests with
    | @intro fuel outer inner machine ready start source nests comes =>
        have nested : execute (fuel + 2) outer machine = some (result, next) := ran
        rw [execute_nested nests] at nested
        obtain ⟨after, ranNested, same⟩ := Option.map_eq_some_iff.mp nested
        cases same
        obtain ⟨final, program, rfl⟩ := run_nested_cases ranNested
        obtain ⟨found, last, executed, reaches⟩ :=
          (reaches_onward (execute_acts _)).program_ends comes program
        exact ⟨found, last, executed, reaches.tail (.count final _)⟩

end Point

section

variable {fuel limit : Nat} {source : String} {host : Host}

theorem Executed.opens {frames : List Frame} {outer inner : Point}
    (executed : Executed fuel limit source host frames outer) (opens : outer.Opens inner) :
    ∃ others, Executed fuel limit source host others inner := by
  rcases opens with ⟨activation, enters⟩ | nests
  · exact ⟨_, executed.entered enters⟩
  · exact ⟨_, executed.nested nests⟩

/-- What is executed is come to on a running machine. -/
theorem Executed.reaches {frames : List Frame} {point : Point}
    (executed : Executed fuel limit source host frames point) :
    Reaches (Machine.start limit host) point.machine ∧ point.machine.isHalted = false := by
  have goes {outer inner : Point} (opens : outer.Opens inner)
      (before : Reaches (Machine.start limit host) outer.machine ∧ outer.machine.isHalted = false) :
      Reaches (Machine.start limit host) inner.machine ∧ inner.machine.isHalted = false := by
    obtain ⟨reaches, still⟩ := opens.reaches before.2
    exact ⟨before.1.trans reaches, still⟩
  induction executed with
  | program comes => exact program_comes_to_reaches (execute_acts _) comes
  | entered _ enters ih => exact goes (.inl ⟨_, enters⟩) ih
  | nested _ nests ih => exact goes (.inr nests) ih

/-- What a run executes has ended when the run has, and the run has gone on from there. -/
theorem Executed.ends {frames : List Frame} {point : Point} {final : Machine}
    (executed : Executed fuel limit source host frames point)
    (ended : runProgram (execute (fuel + 1)) source (Machine.start limit host) = some final) :
    ∃ result next, point.outcome = some (result, next) ∧
      Reaches (next.reporting result) final := by
  have goes {outer inner : Point} (opens : outer.Opens inner)
      (running : outer.machine.isHalted = false)
      (ends : ∃ result next, outer.outcome = some (result, next) ∧
        Reaches (next.reporting result) final) :
      ∃ result next, inner.outcome = some (result, next) ∧
        Reaches (next.reporting result) final := by
    obtain ⟨result, next, ran, reaches⟩ := ends
    obtain ⟨found, last, ranInside, inside⟩ := opens.ends running ran
    exact ⟨found, last, ranInside, inside.trans reaches⟩
  induction executed with
  | program comes => exact (reaches_onward (execute_acts _)).program_ends comes ended
  | entered outer enters ih => exact goes (.inl ⟨_, enters⟩) outer.reaches.2 ih
  | nested outer nests ih => exact goes (.inr nests) outer.reaches.2 ih

end

end ScriptSandbox
