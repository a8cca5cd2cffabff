import ScriptSandbox.Proofs.Run.Frames
import ScriptSandbox.Proofs.Run.Settled

/-!
What the parts of a run do to the depth count. Everything that runs statements leaves the count as it
was, unless one of these statements raised a fault of the ceiling; then the count is one higher and
the run has halted.
-/

namespace ScriptSandbox

namespace Machine

theorem enter_below {machine : Machine} (line : Nat)
    (below : machine.control.depth + 1 ≤ machine.control.limit) :
    machine.enter line = (.ok (), machine.raised) := by
  simp only [enter, Control.enter, if_neg (Nat.not_lt.mpr below)]
  rfl

theorem enter_beyond {machine : Machine} (line : Nat)
    (deep : machine.control.limit < machine.control.depth + 1) :
    machine.enter line = (.error (.tooDeep line machine.control.limit), machine.raised) := by
  simp only [enter, Control.enter, if_pos deep]
  rfl

theorem enter_cases {machine entered : Machine} {line : Nat}
    (admitted : machine.enter line = (.ok (), entered)) :
    machine.control.depth + 1 ≤ machine.control.limit ∧ entered = machine.raised := by
  by_cases deep : machine.control.limit < machine.control.depth + 1
  · cases (enter_beyond line deep).symm.trans admitted
  · have below := Nat.le_of_not_lt deep
    cases (enter_below line below).symm.trans admitted
    exact ⟨below, rfl⟩

theorem act_limit {machine next : Machine} (act : Act machine next) :
    next.control.limit = machine.control.limit := by
  cases act with
  | evaluate tokens line _ => rw [(evaluate_asks tokens line machine).control]
  | _ => rfl

theorem reaches_limit {machine next : Machine} (reaches : Reaches machine next) :
    next.control.limit = machine.control.limit := by
  induction reaches with
  | refl => rfl
  | tail _ act ih => exact (act_limit act).trans ih

/-- What a step did to the depth count: nothing, or a fault of the ceiling was raised on the way and
the count is one higher; in that case only a fault that the step returns leaves the run going. -/
inductive Balance {Result : Type} (raised : Prop) (machine : Machine)
    (result : Except Fault Result) (next : Machine) : Prop
  | level (quiet : ¬raised) (depth : next.control.depth = machine.control.depth)
  | raised (was : raised) (depth : next.control.depth = machine.control.depth + 1)
      (halted : ∀ done, result = .ok done → next.isHalted = true)

theorem Balance.depth_of_running {Result : Type} {raised : Prop} {machine next : Machine}
    {result : Result} (balance : Balance raised machine (.ok result : Except Fault Result) next)
    (running : next.isHalted = false) : ¬raised ∧ next.control.depth = machine.control.depth := by
  cases balance with
  | level quiet depth => exact ⟨quiet, depth⟩
  | raised was depth halted =>
      rw [halted result rfl] at running
      cases running

theorem Balance.of_iff {Result : Type} {raised other : Prop} {machine next : Machine}
    {result : Except Fault Result} (same : raised ↔ other)
    (balance : Balance raised machine result next) : Balance other machine result next := by
  cases balance with
  | level quiet depth => exact .level (fun was => quiet (same.mpr was)) depth
  | raised was depth halted => exact .raised (same.mp was) depth halted

theorem Balance.forget {Result Other : Type} {raised : Prop} {machine next : Machine}
    {result : Result} (balance : Balance raised machine (.ok result : Except Fault Result) next)
    (other : Other) : Balance raised machine (.ok other : Except Fault Other) next := by
  cases balance with
  | level quiet depth => exact .level quiet depth
  | raised was depth halted => exact .raised was depth fun _ _ => halted result rfl

theorem Balance.with_scope {Result : Type} {raised : Prop} {machine next : Machine}
    {result : Except Fault Result} (balance : Balance raised machine result next) (scope : Scope) :
    Balance raised machine result { next with scope } := by
  cases balance with
  | level quiet depth => exact .level quiet depth
  | raised was depth halted => exact .raised was depth halted

/-- Two steps in a row, where the second does nothing once the first has halted the run. -/
theorem Balance.seq {First Result : Type} {raisedFirst raisedThen : Prop}
    {machine middle next : Machine} {first : First} {result : Except Fault Result}
    (before : Balance raisedFirst machine (.ok first : Except Fault First) middle)
    (stays : middle.isHalted = true → next = middle)
    (after : Balance raisedThen middle result next) :
    Balance (raisedFirst ∨ raisedThen) machine result next := by
  cases before with
  | level quiet depth =>
      cases after with
      | level quietThen depthThen => exact .level (not_or.mpr ⟨quiet, quietThen⟩) (depthThen.trans depth)
      | raised was depthThen halted => exact .raised (.inr was) (by rw [depthThen, depth]) halted
  | raised was depth halted =>
      have stopped := halted first rfl
      have same := stays stopped
      subst same
      exact .raised (.inl was) depth fun _ _ => stopped

theorem Balance.from_level {Result : Type} {raised : Prop} {machine middle next : Machine}
    {result : Except Fault Result} (balance : Balance raised middle result next)
    (level : middle.control.depth = machine.control.depth) : Balance raised machine result next := by
  cases balance with
  | level quiet depth => exact .level quiet (depth.trans level)
  | raised was depth halted => exact .raised was (by rw [depth, level]) halted

/-- Reporting a fault halts the run and leaves the count alone. -/
theorem Balance.fail {Result Other : Type} {raised : Prop} {machine next : Machine} {fault : Fault}
    (balance : Balance raised machine (.error fault : Except Fault Result) next) (done : Other) :
    Balance raised machine (.ok done : Except Fault Other) (next.fail fault) := by
  cases balance with
  | level quiet depth => exact .level quiet depth
  | raised was depth _ => exact .raised was depth fun _ _ => rfl

end Machine

namespace Interpreter

open Machine

theorem body_comes_to_nil {execute : Executor} {start machine : Machine} {statement : Statement} :
    ¬BodyComesTo execute [] start statement machine := by
  rintro ⟨before, after, same, -, -⟩
  simp at same

/-- A body comes to its first statement, or to one behind it when the first one was executed and the
body goes on. -/
theorem body_comes_to_cons {execute : Executor} {first statement : Statement}
    {rest : List Statement} {start machine : Machine} :
    BodyComesTo execute (first :: rest) start statement machine ↔
      start.isHalted = false ∧ ((statement = first ∧ machine = start) ∨
        ∃ middle, execute first start = some (.ok .next, middle) ∧
          BodyComesTo execute rest middle statement machine) := by
  constructor
  · rintro ⟨before, after, same, ran, running⟩
    cases before with
    | nil =>
        simp only [List.nil_append, List.cons.injEq] at same
        cases ran
        exact ⟨running, .inl ⟨same.1.symm, rfl⟩⟩
    | cons head before =>
        simp only [List.cons_append, List.cons.injEq] at same
        obtain ⟨rfl, rfl⟩ := same
        unfold runBody at ran
        split at ran
        · next halted =>
            cases ran
            rw [running] at halted
            cases halted
        · next unhalted =>
            refine ⟨eq_false_of_ne_true unhalted, .inr ?_⟩
            split at ran
            · cases ran
            · next middle executed => exact ⟨middle, executed, before, after, rfl, ran, running⟩
            · cases ran
            · cases ran
              cases running
  · rintro ⟨running, ⟨rfl, rfl⟩ | ⟨middle, executed, before, after, rfl, ran, still⟩⟩
    · exact ⟨[], rest, rfl, rfl, running⟩
    · refine ⟨first :: before, after, rfl, ?_, still⟩
      unfold runBody
      simp only [running, executed]
      exact ran

theorem run_body_halted {execute : Executor} {body : List Statement} {machine next : Machine}
    {flow : Flow} (halted : machine.isHalted = true)
    (ran : runBody execute body machine = some (flow, next)) : next = machine := by
  cases body with
  | nil =>
      cases ran
      rfl
  | cons statement rest =>
      unfold runBody at ran
      rw [if_pos halted] at ran
      cases ran
      rfl

theorem run_statements_stopped (execute : Executor) (statements : List Statement)
    {machine : Machine} (halted : machine.isHalted = true) :
    runStatements execute statements machine = some machine := by
  cases statements with
  | nil => rfl
  | cons statement rest => rw [runStatements, if_pos halted]

theorem run_statements_halted {execute : Executor} {statements : List Statement}
    {machine next : Machine} (halted : machine.isHalted = true)
    (ran : runStatements execute statements machine = some next) : next = machine := by
  rw [run_statements_stopped execute statements halted] at ran
  exact (Option.some.inj ran).symm

theorem run_passes_halted {execute : Executor} {body : List Statement} {count passes : Number}
    {fuel : Nat} {machine next : Machine} (halted : machine.isHalted = true)
    (ran : runPasses execute body count fuel passes machine = some next) : next = machine := by
  unfold runPasses at ran
  simp only [halted, Bool.not_true, Bool.and_false, Bool.false_eq_true, if_false] at ran
  exact (Option.some.inj ran).symm

theorem run_while_holds_halted {execute : Executor} {condition : List String} {line : Nat}
    {body : List Statement} {fuel : Nat} {machine next : Machine} {result : Except Fault Unit}
    (halted : machine.isHalted = true)
    (ran : runWhileHolds execute condition line body fuel machine = some (result, next)) :
    next = machine := by
  unfold runWhileHolds at ran
  rw [if_pos halted] at ran
  cases ran
  rfl

theorem LoopPass.cases {execute : Executor} {body : List Statement} {count passes : Number}
    {machine start : Machine} (pass : LoopPass execute body count passes machine start) :
    passes.less count = true ∧ machine.isHalted = false ∧ (start = machine ∨
      ∃ flow middle, runBody execute body machine = some (flow, middle) ∧
        LoopPass execute body count (passes + Number.one) middle start) := by
  cases pass with
  | here below running => exact ⟨below, running, .inl rfl⟩
  | later below running ran pass => exact ⟨below, running, .inr ⟨_, _, ran, pass⟩⟩

theorem WhilePass.cases {execute : Executor} {condition : List String} {line : Nat}
    {body : List Statement} {machine start : Machine}
    (pass : WhilePass execute condition line body machine start) :
    machine.isHalted = false ∧ ∃ value next, machine.evaluate condition line = (.ok value, next) ∧
      value.isTruthy = true ∧ (start = next ∨
        ∃ flow middle, runBody execute body next = some (flow, middle) ∧
          WhilePass execute condition line body middle start) := by
  cases pass with
  | here running evaluated holds => exact ⟨running, _, _, evaluated, holds, .inl rfl⟩
  | later running evaluated holds ran pass =>
      exact ⟨running, _, _, evaluated, holds, .inr ⟨_, _, ran, pass⟩⟩

/-- When the first statement does not let the body go on, the body comes to no other. -/
theorem first_only {execute : Executor} {first : Statement} {rest : List Statement}
    {machine : Machine} {raises : Statement → Machine → Prop} (running : machine.isHalted = false)
    (ends : ∀ middle, execute first machine ≠ some (.ok .next, middle)) :
    raises first machine ↔ ∃ statement start,
      BodyComesTo execute (first :: rest) machine statement start ∧ raises statement start := by
  constructor
  · intro raised
    exact ⟨first, machine, body_comes_to_cons.mpr ⟨running, .inl ⟨rfl, rfl⟩⟩, raised⟩
  · rintro ⟨statement, start, comes, raised⟩
    rcases (body_comes_to_cons.mp comes).2 with ⟨rfl, rfl⟩ | ⟨middle, executed, -⟩
    · exact raised
    · exact absurd executed (ends middle)

theorem bind_arguments_settles {line : Nat} {parameters : List String}
    {arguments : List (List String)} {frame : Scope} {machine next : Machine}
    {result : Except Fault Scope}
    (bound : bindArguments line parameters arguments frame machine = (result, next)) :
    Settles machine result next := by
  induction parameters generalizing arguments frame machine with
  | nil =>
      cases bound
      exact .of_ok (level_refl _)
  | cons parameter parameters ih =>
      cases arguments with
      | nil => exact ih bound
      | cons tokens arguments =>
          unfold bindArguments at bound
          split at bound
          · next failed =>
              cases bound
              exact evaluate_fails_settled failed
          · next evaluated => exact .after (evaluate_level evaluated) (ih bound)

section

variable {execute : Executor} {raises : Statement → Machine → Prop}
  (balanced : ∀ statement machine result next,
    execute statement machine = some (result, next) →
      Balance (raises statement machine) machine result next)
include balanced

theorem run_body_balance {body : List Statement} {machine next : Machine} {flow : Flow}
    (ran : runBody execute body machine = some (flow, next)) :
    Balance (∃ statement start, BodyComesTo execute body machine statement start ∧
      raises statement start) machine (.ok () : Except Fault Unit) next := by
  fun_induction runBody execute body machine with
  | case1 =>
      cases ran
      refine .level ?_ rfl
      rintro ⟨_, _, comes, _⟩
      exact body_comes_to_nil comes
  | case2 statement rest machine halted =>
      cases ran
      refine .level ?_ rfl
      rintro ⟨_, _, comes, _⟩
      rw [(body_comes_to_cons.mp comes).1] at halted
      cases halted
  | case3 => cases ran
  | case4 statement rest machine unhalted middle executed ih =>
      have running := eq_false_of_ne_true unhalted
      have head := balanced statement machine _ middle executed
      refine (head.seq (fun halted => run_body_halted halted ran) (ih ran)).of_iff ?_
      constructor
      · rintro (raised | ⟨other, start, comes, raised⟩)
        · exact ⟨statement, machine, body_comes_to_cons.mpr ⟨running, .inl ⟨rfl, rfl⟩⟩, raised⟩
        · refine ⟨other, start, ?_, raised⟩
          exact body_comes_to_cons.mpr ⟨running, .inr ⟨middle, executed, comes⟩⟩
      · rintro ⟨other, start, comes, raised⟩
        rcases (body_comes_to_cons.mp comes).2 with ⟨rfl, rfl⟩ | ⟨again, ranAgain, later⟩
        · exact .inl raised
        · cases executed.symm.trans ranAgain
          exact .inr ⟨other, start, later, raised⟩
  | case5 statement rest machine unhalted middle executed =>
      cases ran
      have running := eq_false_of_ne_true unhalted
      have head := (balanced statement machine _ _ executed).forget ()
      refine head.of_iff (first_only running ?_)
      intro later ranAgain
      cases executed.symm.trans ranAgain
  | case6 statement rest machine unhalted fault middle executed =>
      cases ran
      have running := eq_false_of_ne_true unhalted
      have head := (balanced statement machine _ _ executed).fail ()
      refine head.of_iff (first_only running ?_)
      intro later ranAgain
      cases executed.symm.trans ranAgain

/-- A `loop` over its passes. -/
theorem run_passes_balance {body : List Statement} {count passes : Number} {fuel : Nat}
    {machine next : Machine}
    (ran : runPasses execute body count fuel passes machine = some next) :
    Balance (∃ statement start, (∃ pass, LoopPass execute body count passes machine pass ∧
        BodyComesTo execute body pass statement start) ∧ raises statement start)
      machine (.ok () : Except Fault Unit) next := by
  fun_induction runPasses execute body count fuel passes machine with
  | case1 | case2 => cases ran
  | case3 passes machine goes fuel flow middle ranBody ih =>
      simp only [Bool.and_eq_true, Bool.not_eq_true'] at goes
      have stays (halted : middle.isHalted = true) : next = middle := run_passes_halted halted ran
      refine ((run_body_balance balanced ranBody).seq stays (ih ran)).of_iff ?_
      constructor
      · rintro (⟨statement, start, comes, raised⟩ | ⟨statement, start, ⟨pass, passes, comes⟩, raised⟩)
        · exact ⟨statement, start, ⟨machine, .here goes.1 goes.2, comes⟩, raised⟩
        · exact ⟨statement, start, ⟨pass, .later goes.1 goes.2 ranBody passes, comes⟩, raised⟩
      · rintro ⟨statement, start, ⟨pass, passes, comes⟩, raised⟩
        obtain ⟨-, -, rfl | ⟨flow, again, ranAgain, later⟩⟩ := passes.cases
        · exact .inl ⟨statement, start, comes, raised⟩
        · cases ranBody.symm.trans ranAgain
          exact .inr ⟨statement, start, ⟨pass, later, comes⟩, raised⟩
  | case4 fuel passes machine stops =>
      cases ran
      refine .level ?_ rfl
      rintro ⟨_, _, ⟨_, passes, _⟩, _⟩
      obtain ⟨below, running, -⟩ := passes.cases
      exact stops (by simp [below, running])

/-- A `while` over its passes; evaluating its condition leaves the count alone. -/
theorem run_while_holds_balance {condition : List String} {line : Nat} {body : List Statement}
    {fuel : Nat} {machine next : Machine} {result : Except Fault Unit}
    (ran : runWhileHolds execute condition line body fuel machine = some (result, next)) :
    Balance (∃ statement start, (∃ pass, WhilePass execute condition line body machine pass ∧
        BodyComesTo execute body pass statement start) ∧ raises statement start)
      machine (.ok () : Except Fault Unit) next := by
  fun_induction runWhileHolds execute condition line body fuel machine with
  | case1 fuel machine halted =>
      cases ran
      refine .level ?_ rfl
      rintro ⟨_, _, ⟨_, passes, _⟩, _⟩
      rw [passes.cases.1] at halted
      cases halted
  | case2 fuel machine unhalted fault middle failed =>
      cases ran
      refine .level ?_ (evaluate_level failed).depth
      rintro ⟨_, _, ⟨_, passes, _⟩, _⟩
      obtain ⟨-, value, start, evaluated, -⟩ := passes.cases
      cases failed.symm.trans evaluated
  | case3 | case4 => cases ran
  | case5 machine unhalted value middle evaluated holds fuel flow final ranBody ih =>
      have running := eq_false_of_ne_true unhalted
      have stays (halted : final.isHalted = true) : next = final :=
        run_while_holds_halted halted ran
      have passed := (run_body_balance balanced ranBody).seq stays (ih ran)
      refine (passed.of_iff ?_).from_level (evaluate_level evaluated).depth
      constructor
      · rintro (⟨statement, start, comes, raised⟩ | ⟨statement, start, ⟨pass, passes, comes⟩, raised⟩)
        · exact ⟨statement, start, ⟨middle, .here running evaluated holds, comes⟩, raised⟩
        · exact ⟨statement, start, ⟨pass, .later running evaluated holds ranBody passes, comes⟩, raised⟩
      · rintro ⟨statement, start, ⟨pass, passes, comes⟩, raised⟩
        obtain ⟨-, _, _, again, -, rfl | ⟨_, _, ranAgain, later⟩⟩ := passes.cases
        · cases evaluated.symm.trans again
          exact .inl ⟨statement, start, comes, raised⟩
        · cases evaluated.symm.trans again
          cases ranBody.symm.trans ranAgain
          exact .inr ⟨statement, start, ⟨pass, later, comes⟩, raised⟩
  | case6 fuel machine unhalted value middle evaluated fails =>
      cases ran
      refine .level ?_ (evaluate_level evaluated).depth
      rintro ⟨_, _, ⟨_, passes, _⟩, _⟩
      obtain ⟨-, _, _, again, holds, -⟩ := passes.cases
      cases evaluated.symm.trans again
      exact fails holds

/-- Whatever runs inside an entry: the count is the same afterwards, or a statement of its body
raised a fault of the ceiling and the run has halted. -/
theorem inside_balance {activation : Activation} {fuel line : Nat} {entered next : Machine}
    {result : Except Fault Unit}
    (ran : activation.inside execute fuel line entered = some (result, next)) :
    Balance (∃ statement start, activation.ComesTo execute line entered statement start ∧
      raises statement start) entered (.ok () : Except Fault Unit) next := by
  cases activation with
  | ifBlock body =>
      obtain ⟨⟨flow, final⟩, ranBody, same⟩ := Option.map_eq_some_iff.mp ran
      cases same
      exact run_body_balance balanced ranBody
  | loopBlock body count =>
      obtain ⟨final, passes, same⟩ := Option.map_eq_some_iff.mp ran
      cases same
      exact run_passes_balance balanced passes
  | whileBlock body condition => exact run_while_holds_balance balanced ran
  | call function arguments =>
      rcases invoke_cases ran with ⟨fault, failed, rfl⟩ |
        ⟨frame, bound, flow, final, binding, ranBody, rfl, rfl⟩
      · refine .level ?_ (bind_arguments_settles failed).level.depth
        rintro ⟨_, _, ⟨_, _, binding, _⟩, _⟩
        cases failed.symm.trans binding
      · have level : bound.control.depth = entered.control.depth :=
          (bind_arguments_settles binding).level.depth
        have body := (run_body_balance balanced ranBody).from_level level
        refine (body.of_iff ?_).with_scope bound.scope
        constructor
        · rintro ⟨statement, start, comes, raised⟩
          exact ⟨statement, start, ⟨frame, bound, binding, comes⟩, raised⟩
        · rintro ⟨statement, start, ⟨_, _, again, comes⟩, raised⟩
          cases binding.symm.trans again
          exact ⟨statement, start, comes, raised⟩

end

theorem run_while_holds_unlimited {execute : Executor} {condition : List String} {line : Nat}
    {body : List Statement} {fuel : Nat} {machine next : Machine} {result : Except Fault Unit}
    (ran : runWhileHolds execute condition line body fuel machine = some (result, next)) :
    Unlimited result := by
  fun_induction runWhileHolds execute condition line body fuel machine with
  | case1 | case6 =>
      cases ran
      exact unlimited_ok ()
  | case2 fuel machine unhalted fault middle failed =>
      cases ran
      exact unlimited_error (evaluate_settles failed).unlimited.fault
  | case3 | case4 => cases ran
  | case5 machine unhalted value middle evaluated holds fuel flow final ranBody ih => exact ih ran

theorem inside_unlimited {execute : Executor} {activation : Activation} {fuel line : Nat}
    {entered next : Machine} {result : Except Fault Unit}
    (ran : activation.inside execute fuel line entered = some (result, next)) :
    Unlimited result := by
  cases activation with
  | ifBlock body =>
      obtain ⟨_, _, same⟩ := Option.map_eq_some_iff.mp ran
      cases same
      exact unlimited_ok ()
  | loopBlock body count =>
      obtain ⟨_, _, same⟩ := Option.map_eq_some_iff.mp ran
      cases same
      exact unlimited_ok ()
  | whileBlock body condition => exact run_while_holds_unlimited ran
  | call function arguments =>
      rcases invoke_cases ran with ⟨fault, failed, rfl⟩ | ⟨_, _, _, _, _, _, rfl, _⟩
      · exact unlimited_error (bind_arguments_settles failed).unlimited.fault
      · exact unlimited_ok ()

end Interpreter

end ScriptSandbox
