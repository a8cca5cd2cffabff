import ScriptSandbox.Host.Standalone
import ScriptSandbox.Proofs.Run.Balance

/-!
The depth guard is exact. Where a statement is executed, the depth count is the number of entries
active since the innermost nested program and does not pass the ceiling. An entry fails exactly when
as many are active as the ceiling allows, and only such a failure leaves the count raised.
-/

namespace ScriptSandbox

theorem Statement.HasHead.unique {statement : Statement} {machine ready other : Machine}
    {opening place : Nat} {value found : Value}
    (head : statement.HasHead machine opening value ready)
    (again : statement.HasHead machine place found other) :
    opening = place ∧ value = found ∧ ready = other := by
  have same : opening = place := Option.some.inj (head.opens.symm.trans again.opens)
  subst same
  have result := head.evaluated.symm.trans again.evaluated
  simp only [Prod.mk.injEq, Except.ok.injEq] at result
  exact ⟨rfl, result.1, result.2⟩

/-- A statement on a machine asks for one entry at most. -/
theorem Statement.Requests.unique {statement : Statement} {machine ready other : Machine}
    {activation second : Activation} (requests : statement.Requests machine activation ready)
    (again : statement.Requests machine second other) : activation = second ∧ ready = other := by
  cases requests with
  | ifBlock named head holds read =>
      cases again with
      | ifBlock _ headAgain _ readAgain =>
          obtain ⟨rfl, -, rfl⟩ := head.unique headAgain
          cases read.symm.trans readAgain
          exact ⟨rfl, rfl⟩
      | loopBlock namedAgain | whileBlock namedAgain | call namedAgain =>
          cases named.symm.trans namedAgain
  | loopBlock named head counted positive read =>
      cases again with
      | loopBlock _ headAgain countedAgain _ readAgain =>
          obtain ⟨rfl, rfl, rfl⟩ := head.unique headAgain
          cases read.symm.trans readAgain
          exact ⟨by rw [counted, countedAgain], rfl⟩
      | ifBlock namedAgain | whileBlock namedAgain | call namedAgain =>
          cases named.symm.trans namedAgain
  | whileBlock named head holds read =>
      cases again with
      | whileBlock _ headAgain _ readAgain =>
          obtain ⟨rfl, -, rfl⟩ := head.unique headAgain
          cases read.symm.trans readAgain
          exact ⟨rfl, rfl⟩
      | ifBlock namedAgain | loopBlock namedAgain | call namedAgain =>
          cases named.symm.trans namedAgain
  | call named called declared =>
      cases again with
      | call _ calledAgain declaredAgain =>
          cases called.symm.trans calledAgain
          cases declared.symm.trans declaredAgain
          exact ⟨rfl, rfl⟩
      | ifBlock namedAgain | loopBlock namedAgain | whileBlock namedAgain =>
          cases named.symm.trans namedAgain

theorem Statement.Requests.control {statement : Statement} {machine ready : Machine}
    {activation : Activation} (requests : statement.Requests machine activation ready) :
    ready.control = machine.control := by
  have asked {opening : Nat} {value : Value}
      (head : statement.HasHead machine opening value ready) : ready.control = machine.control := by
    have asks := Machine.evaluate_asks (statement.arguments.take opening) statement.line machine
    rw [head.evaluated] at asks
    exact asks.control
  cases requests with
  | ifBlock _ head | loopBlock _ head | whileBlock _ head => exact asked head
  | call => rfl

namespace Interpreter

open Machine

theorem with_head_settles {statement : Statement} {incomplete unopened : Malformed}
    {rest : Nat → Value → Machine → Option Outcome} {machine next : Machine}
    {result : Except Fault Flow}
    (ran : withHead statement incomplete unopened rest machine = some (result, next))
    (settles : ∀ opening value ready, statement.HasHead machine opening value ready →
      rest opening value ready = some (result, next) → Settles ready result next) :
    Settles machine result next := by
  rcases with_head_cases ran with ⟨-, rfl, rfl⟩ | ⟨-, -, rfl, rfl⟩ |
    ⟨-, opening, fault, -, failed, rfl⟩ | ⟨enough, opening, value, ready, opens, evaluated, ranRest⟩
  · exact .of_error (level_refl _) rfl
  · exact .of_error (level_refl _) rfl
  · exact evaluate_fails_settled failed
  · exact .after (evaluate_level evaluated)
      (settles opening value ready ⟨enough, opens, evaluated⟩ ranRest)

theorem run_block_unread_settles {statement : Statement} {opening : Nat}
    {inside : List Statement → Machine → Option (Except Fault Unit × Machine)}
    {machine next : Machine} {result : Except Fault Flow}
    (ran : runBlock statement opening inside machine = some (result, next))
    (unread : ∀ body, statement.bodyStatements opening ≠ .ok body) :
    Settles machine result next := by
  rcases run_block_cases ran with ⟨fault, failed, rfl, rfl⟩ | ⟨body, read, -⟩
  · exact .of_error (level_refl _) (statement.body_statements_unlimited opening fault failed)
  · exact absurd read (unread body)

/-- A statement that neither asks for an entry nor runs a program leaves the depth count alone. -/
theorem execute_settles {fuel : Nat} {statement : Statement} {machine next : Machine}
    {result : Except Fault Flow}
    (ran : execute (fuel + 1) statement machine = some (result, next))
    (idle : ∀ activation ready, ¬statement.Requests machine activation ready)
    (alone : ∀ source ready, ¬statement.Nests machine source ready) :
    Settles machine result next := by
  unfold execute at ran
  split at ran
  · next command _ =>
      have settled := command.run_settles statement machine
      rwa [Option.some.inj ran] at settled
  · next named =>
      refine with_head_settles ran fun opening value ready head ranRest => ?_
      split at ranRest
      · next holds =>
          exact run_block_unread_settles ranRest fun body read =>
            idle _ _ (.ifBlock named head holds read)
      · cases ranRest
        exact .of_ok (level_refl _)
  · next named =>
      refine with_head_settles ran fun opening value ready head ranRest => ?_
      dsimp only at ranRest
      split at ranRest
      · cases ranRest
        exact .of_ok (level_refl _)
      · next positive =>
          exact run_block_unread_settles ranRest fun body read =>
            idle _ _ (.loopBlock named head rfl (eq_false_of_ne_true positive) read)
  · next named =>
      refine with_head_settles ran fun opening value ready head ranRest => ?_
      dsimp only at ranRest
      split at ranRest
      · next holds =>
          exact run_block_unread_settles ranRest fun body read =>
            idle _ _ (.whileBlock named head holds read)
      · cases ranRest
        exact .of_ok (level_refl _)
  · next named =>
      unfold runEval at ran
      split at ran
      · cases ran
        exact .of_error (level_refl _) rfl
      · next given =>
          split at ran
          · next failed =>
              cases ran
              exact evaluate_fails_settled failed
          · next evaluated =>
              cases ran
              exact .of_ok (evaluate_level evaluated)
          · next value ready someValue evaluated =>
              refine absurd ⟨named, ?_, value, ?_, rfl, evaluated⟩ (alone (ready.heap.textOf value) ready)
              · simpa using given
              · rintro rfl
                exact someValue rfl
  · next named =>
      rcases run_call_cases ran with ⟨rfl, rfl, -⟩ | ⟨call, function, called, declared, -⟩
      · exact .of_error (level_refl _) rfl
      · exact absurd (.call named called declared) (idle _ _)

/-- A statement that asks for no entry leaves the depth count alone: a program that it runs has a
count of its own. -/
theorem execute_idle {fuel : Nat} {statement : Statement} {machine next : Machine}
    {result : Except Fault Flow}
    (ran : execute (fuel + 1) statement machine = some (result, next))
    (idle : ∀ activation ready, ¬statement.Requests machine activation ready) :
    next.control.depth = machine.control.depth ∧ Unlimited result := by
  by_cases runs : ∃ source ready, statement.Nests machine source ready
  · obtain ⟨source, ready, nests⟩ := runs
    rw [execute_nested nests] at ran
    obtain ⟨final, nested, same⟩ := Option.map_eq_some_iff.mp ran
    cases same
    obtain ⟨inner, -, rfl⟩ := run_nested_cases nested
    obtain ⟨value, -, -, evaluated⟩ := nests.evaluated
    exact ⟨(evaluate_level evaluated).depth, unlimited_ok _⟩
  · have settled := execute_settles ran idle fun source ready nests => runs ⟨source, ready, nests⟩
    exact ⟨settled.level.depth, settled.unlimited⟩

end Interpreter

namespace Point

open Interpreter Machine

/-- Executing the point fails because too much is active. -/
def Overflows (point : Point) : Prop :=
  ∃ fault next, point.outcome = some (.error fault, next) ∧ fault.isLimit = true

/-- A fault of the ceiling is raised while the point is executed, outside any nested program that it
runs. -/
inductive Raises : Point → Prop
  | here {point : Point} (overflows : point.Overflows) : Raises point
  | inside {point inner : Point} {activation : Activation} (enters : point.Enters activation inner)
      (raises : Raises inner) : Raises point

/-- Such a fault is raised in a body that the point runs. -/
def RaisesInside (point : Point) : Prop :=
  ∃ activation inner, point.Enters activation inner ∧ inner.Raises

/-- Whether a statement raises a fault of the ceiling when it is executed with some fuel. -/
def raisesWith : Nat → Statement → Machine → Prop
  | 0, _, _ => False
  | fuel + 1, statement, machine => Raises ⟨fuel, statement, machine⟩

theorem raises_inside_iff {fuel : Nat} {statement : Statement} {machine ready : Machine}
    {activation : Activation} (requests : statement.Requests machine activation ready)
    (below : ready.control.depth + 1 ≤ ready.control.limit) :
    (∃ inner start, activation.ComesTo (execute fuel) statement.line ready.raised inner start ∧
      raisesWith fuel inner start) ↔ RaisesInside ⟨fuel, statement, machine⟩ := by
  have admitted := ready.enter_below statement.line below
  constructor
  · rintro ⟨inner, start, comes, raises⟩
    cases fuel with
    | zero => cases raises
    | succ fuel => exact ⟨activation, ⟨fuel, inner, start⟩, .intro requests admitted comes, raises⟩
  · rintro ⟨second, inner, enters, raises⟩
    cases enters with
    | intro again admittedAgain comes =>
        obtain ⟨rfl, rfl⟩ := requests.unique again
        cases admitted.symm.trans admittedAgain
        exact ⟨_, _, comes, raises⟩

theorem raises_iff_inside {point : Point} {result : Except Fault Flow} {next : Machine}
    (ran : point.outcome = some (result, next)) (unlimited : Unlimited result) :
    point.Raises ↔ point.RaisesInside := by
  constructor
  · intro raises
    cases raises with
    | here overflows =>
        obtain ⟨fault, after, outcome, limit⟩ := overflows
        cases ran.symm.trans outcome
        rw [unlimited.fault] at limit
        cases limit
    | inside enters raises => exact ⟨_, _, enters, raises⟩
  · rintro ⟨activation, inner, enters, raises⟩
    exact .inside enters raises

/-- One level of `Point.balance`, from what holds for the statements of a body. -/
theorem balance_of_bodies {fuel : Nat}
    (bodies : ∀ statement machine result next,
      execute fuel statement machine = some (result, next) →
        Balance (raisesWith fuel statement machine) machine result next)
    {statement : Statement} {machine next : Machine} {result : Except Fault Flow}
    (ran : execute (fuel + 1) statement machine = some (result, next)) :
    Balance (Raises ⟨fuel, statement, machine⟩) machine result next ∧
      (RaisesInside ⟨fuel, statement, machine⟩ → next.isHalted = true) := by
  by_cases asks : ∃ activation ready, statement.Requests machine activation ready
  · obtain ⟨activation, ready, requests⟩ := asks
    have level : ready.control.depth = machine.control.depth := by rw [requests.control]
    have entered := ran
    rw [execute_requested requests] at entered
    rcases run_entered_cases entered with ⟨deep, rfl, rfl⟩ | ⟨below, inner, final, inside, rfl, rfl⟩
    · constructor
      · refine .raised (.here ⟨_, _, ran, rfl⟩) ?_ ?_
        · simp only [raised, Control.setDepth, level]
        · intro done failed
          cases failed
      · rintro ⟨_, _, enters, _⟩
        cases enters with
        | intro again admitted _ =>
            obtain ⟨-, rfl⟩ := requests.unique again
            exact absurd (enter_cases admitted).1 (Nat.not_le.mpr deep)
    · have unlimited : Unlimited (flowAfter inner) := by
        have inside := inside_unlimited inside
        cases inner with
        | ok done => exact unlimited_ok _
        | error fault => exact unlimited_error inside.fault
      have around : Raises ⟨fuel, statement, machine⟩ ↔ RaisesInside ⟨fuel, statement, machine⟩ :=
        raises_iff_inside ran unlimited
      have balance := (inside_balance bodies inside).of_iff (raises_inside_iff requests below)
      cases balance with
      | level quiet depth =>
          refine ⟨.level (fun raises => quiet (around.mp raises)) ?_, fun raises => absurd raises quiet⟩
          simp only [leave, Control.leave, depth, raised, Control.setDepth, level]
          omega
      | raised was depth halted =>
          refine ⟨.raised (around.mpr was) ?_ fun _ _ => halted () rfl, fun _ => halted () rfl⟩
          simp only [leave, Control.leave, depth, raised, Control.setDepth, level]
          omega
  · have idle : ∀ activation ready, ¬statement.Requests machine activation ready :=
      fun activation ready requests => asks ⟨activation, ready, requests⟩
    have outside : ¬RaisesInside ⟨fuel, statement, machine⟩ := by
      rintro ⟨_, _, enters, _⟩
      cases enters with
      | intro requests => exact idle _ _ requests
    have settled := execute_idle ran idle
    have around : Raises ⟨fuel, statement, machine⟩ ↔ RaisesInside ⟨fuel, statement, machine⟩ :=
      raises_iff_inside ran settled.2
    exact ⟨.level (fun raises => outside (around.mp raises)) settled.1,
      fun raises => absurd raises outside⟩

/-- Executing a point leaves the depth count as it was, or raises a fault of the ceiling on the way
and leaves it one higher. -/
theorem balance {fuel : Nat} {statement : Statement} {machine next : Machine}
    {result : Except Fault Flow}
    (ran : execute (fuel + 1) statement machine = some (result, next)) :
    Balance (Raises ⟨fuel, statement, machine⟩) machine result next ∧
      (RaisesInside ⟨fuel, statement, machine⟩ → next.isHalted = true) := by
  induction fuel generalizing statement machine result next with
  | zero =>
      refine balance_of_bodies ?_ ran
      intro inner start done after executed
      cases executed
  | succ fuel ih =>
      refine balance_of_bodies ?_ ran
      intro inner start done after executed
      exact (ih executed).1

theorem balance_with {fuel : Nat} {statement : Statement} {machine next : Machine}
    {result : Except Fault Flow} (ran : execute fuel statement machine = some (result, next)) :
    Balance (raisesWith fuel statement machine) machine result next := by
  cases fuel with
  | zero => cases ran
  | succ fuel => exact (balance ran).1

end Point

namespace Interpreter

open Machine

/-- A run that goes on after some statements goes on where it was. -/
theorem run_body_level {fuel : Nat} {body : List Statement} {machine next : Machine} {flow : Flow}
    (ran : runBody (execute fuel) body machine = some (flow, next))
    (running : next.isHalted = false) : Level machine next := by
  have balance := run_body_balance (fun _ _ _ _ => Point.balance_with) ran
  exact ⟨(balance.depth_of_running running).2,
    reaches_limit (run_body_reaches (execute_acts fuel) ran)⟩

theorem run_statements_level {fuel : Nat} {statements : List Statement} {machine next : Machine}
    (ran : runStatements (execute fuel) statements machine = some next)
    (running : next.isHalted = false) : Level machine next := by
  refine ⟨?_, reaches_limit (run_statements_reaches (execute_acts fuel) ran)⟩
  fun_induction runStatements (execute fuel) statements machine with
  | case1 | case2 =>
      cases ran
      rfl
  | case3 => cases ran
  | case4 statement rest machine unhalted flow middle executed ih =>
      have going : middle.isHalted = false := by
        refine eq_false_of_ne_true fun halted => ?_
        rw [run_statements_halted halted ran, halted] at running
        cases running
      exact (ih ran).trans ((Point.balance_with executed).depth_of_running going).2
  | case5 statement rest machine unhalted fault middle executed ih =>
      rw [run_statements_halted rfl ran] at running
      cases running

theorem LoopPass.level {fuel : Nat} {body : List Statement} {count passes : Number}
    {machine start : Machine} (pass : LoopPass (execute fuel) body count passes machine start) :
    Level machine start := by
  induction pass with
  | here => exact .of_control rfl
  | later _ _ ran pass ih => exact (run_body_level ran pass.cases.2.1).trans ih

theorem WhilePass.level {fuel line : Nat} {condition : List String} {body : List Statement}
    {machine start : Machine}
    (pass : WhilePass (execute fuel) condition line body machine start) : Level machine start := by
  induction pass with
  | here _ evaluated _ => exact evaluate_level evaluated
  | later _ evaluated _ ran pass ih =>
      exact ((evaluate_level evaluated).trans (run_body_level ran pass.cases.1)).trans ih

theorem BodyComesTo.level {fuel : Nat} {body : List Statement} {start machine : Machine}
    {statement : Statement} (comes : BodyComesTo (execute fuel) body start statement machine) :
    Level start machine := by
  obtain ⟨before, after, -, ran, running⟩ := comes
  exact run_body_level ran running

theorem ProgramComesTo.level {fuel : Nat} {source : String} {start machine : Machine}
    {statement : Statement} (comes : ProgramComesTo (execute fuel) source start statement machine) :
    Level start machine := by
  obtain ⟨before, after, -, ran, running⟩ := comes
  exact run_statements_level ran running

end Interpreter

open Interpreter Machine in
theorem Activation.ComesTo.level {fuel line : Nat} {activation : Activation}
    {entered machine : Machine} {statement : Statement}
    (comes : activation.ComesTo (execute fuel) line entered statement machine) :
    Level entered machine := by
  cases activation with
  | ifBlock body => exact BodyComesTo.level comes
  | loopBlock body count =>
      obtain ⟨start, pass, comes⟩ := comes
      exact pass.level.trans comes.level
  | whileBlock body condition =>
      obtain ⟨start, pass, comes⟩ := comes
      exact pass.level.trans comes.level
  | call function arguments =>
      obtain ⟨frame, bound, binding, comes⟩ := comes
      have called : Level entered { bound with scope := frame } :=
        (bind_arguments_settles binding).level.keep rfl
      exact called.trans comes.level

open Interpreter Machine in
/-- Where a run executes a statement, the depth count is the number of active entries. -/
theorem executed_depth {fuel limit : Nat} {source : String} {host : Host} {frames : List Frame}
    {point : Point} (executed : Executed fuel limit source host frames point) :
    point.machine.control.limit = limit ∧
      point.machine.control.depth = Frame.activeEntries frames ∧
      Frame.activeEntries frames ≤ limit := by
  induction executed with
  | program comes => exact ⟨comes.level.limit, comes.level.depth, Nat.zero_le limit⟩
  | entered _ enters ih =>
      obtain ⟨limited, counted, bounded⟩ := ih
      cases enters with
      | intro requests admitted comes =>
          obtain ⟨below, rfl⟩ := enter_cases admitted
          rw [requests.control] at below
          have inner := comes.level
          dsimp only at limited counted
          refine ⟨?_, ?_, ?_⟩
          · rw [inner.limit, raised, Control.setDepth, requests.control]
            exact limited
          · rw [inner.depth, raised, Control.setDepth, requests.control, counted]
            rfl
          · rw [Frame.active_entries_active]
            omega
  | nested _ nests ih =>
      obtain ⟨limited, counted, bounded⟩ := ih
      cases nests with
      | intro nests comes =>
          obtain ⟨value, -, -, evaluated⟩ := nests.evaluated
          exact ⟨(comes.level.limit.trans (evaluate_level evaluated).limit).trans limited,
            comes.level.depth, Nat.zero_le limit⟩

namespace Point

open Interpreter Machine

/-- A statement fails for the ceiling exactly when it asks for an entry that the ceiling does not
allow. -/
theorem overflows_iff (point : Point)
    (bounded : point.machine.control.depth ≤ point.machine.control.limit) :
    point.Overflows ↔
      (∃ activation ready, point.statement.Requests point.machine activation ready) ∧
        point.machine.control.depth = point.machine.control.limit := by
  obtain ⟨fuel, statement, machine⟩ := point
  dsimp only at bounded ⊢
  constructor
  · rintro ⟨fault, next, ran, limit⟩
    by_cases asks : ∃ activation ready, statement.Requests machine activation ready
    · refine ⟨asks, ?_⟩
      obtain ⟨activation, ready, requests⟩ := asks
      have entered : execute (fuel + 1) statement machine = some (.error fault, next) := ran
      rw [execute_requested requests] at entered
      rcases run_entered_cases entered with ⟨deep, -, -⟩ | ⟨-, inner, final, inside, failed, -⟩
      · rw [requests.control] at deep
        omega
      · have unlimited := inside_unlimited inside
        cases inner with
        | ok done => cases failed
        | error raised =>
            cases failed
            rw [unlimited.fault] at limit
            cases limit
    · have idle := (execute_idle ran fun activation ready requests =>
        asks ⟨activation, ready, requests⟩).2
      rw [idle.fault] at limit
      cases limit
  · rintro ⟨⟨activation, ready, requests⟩, full⟩
    have deep : ready.control.limit < ready.control.depth + 1 := by
      rw [requests.control]
      omega
    refine ⟨.tooDeep statement.line ready.control.limit, ready.raised, ?_, rfl⟩
    have entered := ready.enter_beyond statement.line deep
    rw [outcome, execute_requested requests, runEntered, withDepth, entered]

end Point

/-- The depth guard of a run with ceiling `limit`, at every statement it executes. The count is the
number of entries active since the innermost nested program and at most the ceiling. Afterwards it is
the same again, whatever the result, unless a fault of the ceiling was raised on the way, outside the
nested programs of the statement: then it is one higher, and a fault raised inside a body has halted
the run. The statement fails for the ceiling exactly when it asks for an entry and as many as the
ceiling allows are active. -/
theorem depth_guard_exact {fuel limit : Nat} {source : String} {host : Host} {frames : List Frame}
    {point : Point} (executed : Executed fuel limit source host frames point) :
    point.machine.control.depth = Frame.activeEntries frames ∧
    Frame.activeEntries frames ≤ limit ∧
    (∀ result next, point.outcome = some (result, next) →
      (¬point.Raises → next.control.depth = point.machine.control.depth) ∧
      (point.Raises → next.control.depth = point.machine.control.depth + 1) ∧
      (point.RaisesInside → next.isHalted = true)) ∧
    (point.Overflows ↔
      (∃ activation ready, point.statement.Requests point.machine activation ready) ∧
        Frame.activeEntries frames = limit) := by
  obtain ⟨limited, counted, bounded⟩ := executed_depth executed
  refine ⟨counted, bounded, ?_, ?_⟩
  · intro result next ran
    obtain ⟨balance, halts⟩ := Point.balance ran
    cases balance with
    | level quiet depth => exact ⟨fun _ => depth, fun raises => absurd raises quiet, halts⟩
    | raised was depth _ => exact ⟨fun quiet => absurd was quiet, fun _ => depth, halts⟩
  · have overflows := point.overflows_iff (by rw [counted, limited]; exact bounded)
    rwa [counted, limited] at overflows

theorem ok_of_to_option {Result : Type} {result : Except Fault Result} {value : Result}
    (found : result.toOption = some value) : result = .ok value := by
  cases result with
  | ok other => exact congrArg Except.ok (Option.some.inj found)
  | error fault => cases found

/-- The inner of two blocks under a ceiling of one: an entry is active when it asks for its own. -/
theorem depth_guard_exact_full :
    ∃ frames point, Executed 1 1 "if 1 \x7b if 1 \x7b log 1 \x7d \x7d"
        (Host.standalone .zero .zero .empty 0) frames point ∧
      point.machine.control.depth = 1 ∧ Frame.activeEntries frames = 1 ∧ point.Overflows := by
  let outer : Statement := ⟨"if", ["1", "\x7b", "if 1 \x7b log 1 \x7d", "\x7d"], 1⟩
  let inner : Statement := ⟨"if", ["1", "\x7b", "log 1", "\x7d"], 1⟩
  let start := Machine.start 1 (Host.standalone .zero .zero .empty 0)
  let ready := (start.evaluate ["1"] 1).2
  have program : Interpreter.ProgramComesTo (Interpreter.execute 2)
      "if 1 \x7b if 1 \x7b log 1 \x7d \x7d" start outer start :=
    ⟨[], [], ok_of_to_option (by decide +kernel), rfl, rfl⟩
  have requests : outer.Requests start (.ifBlock [inner]) ready := by
    have value : (start.evaluate ["1"] 1).1 = .ok (.number .one) :=
      ok_of_to_option (by decide +kernel)
    have head : outer.HasHead start 1 (.number .one) ready :=
      ⟨by decide, by decide, Prod.ext value rfl⟩
    exact .ifBlock (by decide) head (by decide +kernel) (ok_of_to_option (by decide +kernel))
  have innerRequests : inner.Requests ready.raised (.ifBlock [⟨"log", ["1"], 1⟩])
      (ready.raised.evaluate ["1"] 1).2 := by
    have value : (ready.raised.evaluate ["1"] 1).1 = .ok (.number .one) :=
      ok_of_to_option (by decide +kernel)
    have head : inner.HasHead ready.raised 1 (.number .one) (ready.raised.evaluate ["1"] 1).2 :=
      ⟨by decide, by decide, Prod.ext value rfl⟩
    exact .ifBlock (by decide) head (by decide +kernel) (ok_of_to_option (by decide +kernel))
  have admitted : ready.enter outer.line = (.ok (), ready.raised) := by
    apply Machine.enter_below
    rw [requests.control]
    decide
  have running : ready.raised.isHalted = false := by
    rw [Machine.isHalted, Machine.raised, requests.control]
    rfl
  have comes : (Activation.ifBlock [inner]).ComesTo (Interpreter.execute 1) outer.line ready.raised
      inner ready.raised := ⟨[], [], rfl, rfl, running⟩
  have executed := (Executed.program program).entered (.intro requests admitted comes)
  obtain ⟨counted, -, -, overflows⟩ := depth_guard_exact executed
  exact ⟨_, _, executed, counted, rfl, overflows.mpr ⟨⟨_, _, innerRequests⟩, rfl⟩⟩

end ScriptSandbox
