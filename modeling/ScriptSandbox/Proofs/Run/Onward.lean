import ScriptSandbox.Proofs.Run.Cases

/-!
A statement that a run comes to has ended when the body, the loop or the program around it has, and
the run has gone on from what it left behind. What "gone on" means is a parameter: a relation that
holds from where some statements start to where they end.
-/

namespace ScriptSandbox

/-- The machine behind a statement, once a fault that the statement returned is reported. -/
def Machine.reporting (machine : Machine) : Except Fault Flow → Machine
  | .ok _ => machine
  | .error fault => machine.fail fault

namespace Interpreter

/-- A relation that holds from where any statements start to where they end. -/
structure Onward (execute : Executor) (related : Machine → Machine → Prop) : Prop where
  refl : ∀ machine, related machine machine
  trans : ∀ {machine middle next}, related machine middle → related middle next →
    related machine next
  body : ∀ {body machine flow next}, runBody execute body machine = some (flow, next) →
    related machine next
  statements : ∀ {statements machine next},
    runStatements execute statements machine = some next → related machine next
  passes : ∀ {body count fuel passes machine next},
    runPasses execute body count fuel passes machine = some next → related machine next
  holds : ∀ {condition line body fuel machine result next},
    runWhileHolds execute condition line body fuel machine = some (result, next) →
      related machine next

/-- The statement, executed on the machine, has ended, and the later machine is related to what it
left behind. -/
def EndsAhead (execute : Executor) (related : Machine → Machine → Prop) (statement : Statement)
    (machine later : Machine) : Prop :=
  ∃ result next, execute statement machine = some (result, next) ∧
    related (next.reporting result) later

/-- The statements behind one of a program are run on from it. -/
theorem run_statements_append {execute : Executor} {before : List Statement}
    {start machine : Machine} (ran : runStatements execute before start = some machine)
    (running : machine.isHalted = false) (after : List Statement) :
    runStatements execute (before ++ after) start = runStatements execute after machine := by
  fun_induction runStatements execute before start with
  | case1 =>
      cases ran
      rfl
  | case2 statement rest start halted =>
      cases ran
      rw [running] at halted
      cases halted
  | case3 => cases ran
  | case4 statement rest start unhalted flow middle executed ih =>
      rw [List.cons_append, runStatements, if_neg unhalted, executed]
      exact ih ran
  | case5 statement rest start unhalted fault middle executed ih =>
      rw [List.cons_append, runStatements, if_neg unhalted, executed]
      exact ih ran

namespace Onward

variable {execute : Executor} {related : Machine → Machine → Prop}

theorem ends_ahead (onward : Onward execute related) {statement : Statement}
    {machine middle later : Machine} (ends : EndsAhead execute related statement machine middle)
    (goes : related middle later) : EndsAhead execute related statement machine later := by
  rcases ends with ⟨result, next, executed, ahead⟩
  exact ⟨result, next, executed, onward.trans ahead goes⟩

/-- The first statement of a body is executed when the body is run on a running machine. -/
theorem head_ends (onward : Onward execute related) {statement : Statement} {rest : List Statement}
    {machine final : Machine} {flow : Flow} (running : machine.isHalted = false)
    (ran : runBody execute (statement :: rest) machine = some (flow, final)) :
    EndsAhead execute related statement machine final := by
  rw [runBody, running] at ran
  simp only [Bool.false_eq_true, if_false] at ran
  split at ran
  · cases ran
  · next next executed => exact ⟨_, next, executed, onward.body ran⟩
  · next executed =>
      cases ran
      exact ⟨_, _, executed, onward.refl _⟩
  · next executed =>
      cases ran
      exact ⟨_, _, executed, onward.refl _⟩

theorem body_ends (onward : Onward execute related) {body : List Statement}
    {start machine final : Machine} {statement : Statement} {flow : Flow}
    (comes : BodyComesTo execute body start statement machine)
    (ran : runBody execute body start = some (flow, final)) :
    EndsAhead execute related statement machine final := by
  induction body generalizing start with
  | nil => exact absurd comes body_comes_to_nil
  | cons first rest ih =>
      rcases body_comes_to_cons.mp comes with ⟨running, here | ⟨middle, executed, later⟩⟩
      · rw [here.1, here.2]
        exact onward.head_ends running ran
      · apply ih later
        rw [runBody, running] at ran
        simp only [Bool.false_eq_true, if_false, executed] at ran
        exact ran

theorem loop_ends (onward : Onward execute related) {body : List Statement}
    {count passes : Number} {fuel : Nat} {machine start inner final : Machine}
    {statement : Statement} (pass : LoopPass execute body count passes machine start)
    (comes : BodyComesTo execute body start statement inner)
    (ran : runPasses execute body count fuel passes machine = some final) :
    EndsAhead execute related statement inner final := by
  fun_induction runPasses execute body count fuel passes machine with
  | case1 | case2 => cases ran
  | case3 passes machine _ fuel flow middle ranBody ih =>
      rcases pass.cases.2.2 with same | ⟨flow, again, ranAgain, later⟩
      · rw [same] at comes
        exact onward.ends_ahead (onward.body_ends comes ranBody) (onward.passes ran)
      · cases ranBody.symm.trans ranAgain
        exact ih later ran
  | case4 fuel passes machine stops =>
      rcases pass.cases with ⟨below, running, -⟩
      exact absurd (by simp [below, running]) stops

theorem while_ends (onward : Onward execute related) {condition : List String} {line : Nat}
    {body : List Statement} {fuel : Nat} {machine start inner final : Machine}
    {statement : Statement} {result : Except Fault Unit}
    (pass : WhilePass execute condition line body machine start)
    (comes : BodyComesTo execute body start statement inner)
    (ran : runWhileHolds execute condition line body fuel machine = some (result, final)) :
    EndsAhead execute related statement inner final := by
  fun_induction runWhileHolds execute condition line body fuel machine with
  | case1 fuel machine halted =>
      rw [pass.cases.1] at halted
      cases halted
  | case2 fuel machine unhalted fault middle failed =>
      rcases pass.cases with ⟨-, value, next, evaluated, -⟩
      cases failed.symm.trans evaluated
  | case3 | case4 => cases ran
  | case5 machine unhalted value middle evaluated holds fuel flow after ranBody ih =>
      rcases pass.cases with ⟨-, _, _, again, -, same | ⟨_, _, ranAgain, later⟩⟩
      · cases evaluated.symm.trans again
        rw [same] at comes
        exact onward.ends_ahead (onward.body_ends comes ranBody) (onward.holds ran)
      · cases evaluated.symm.trans again
        cases ranBody.symm.trans ranAgain
        exact ih later ran
  | case6 fuel machine unhalted value middle evaluated fails =>
      rcases pass.cases with ⟨-, _, _, again, holds, -⟩
      cases evaluated.symm.trans again
      exact absurd holds fails

/-- The first of some statements has ended when all have. -/
theorem first_ends (onward : Onward execute related) {statement : Statement}
    {rest : List Statement} {machine final : Machine} (running : machine.isHalted = false)
    (ran : runStatements execute (statement :: rest) machine = some final) :
    EndsAhead execute related statement machine final := by
  rw [runStatements, running] at ran
  simp only [Bool.false_eq_true, if_false] at ran
  split at ran
  · cases ran
  · next executed => exact ⟨_, _, executed, onward.statements ran⟩
  · next executed => exact ⟨_, _, executed, onward.statements ran⟩

theorem program_ends (onward : Onward execute related) {source : String}
    {start machine final : Machine} {statement : Statement}
    (comes : ProgramComesTo execute source start statement machine)
    (ran : runProgram execute source start = some final) :
    EndsAhead execute related statement machine final := by
  rcases comes with ⟨before, after, parsed, ranBefore, running⟩
  rw [runProgram, parsed] at ran
  dsimp only at ran
  rw [run_statements_append ranBefore running] at ran
  exact onward.first_ends running ran

/-- A statement executed inside an entry has ended when the entry has. The caller's scope is taken up
again after the body of a call, and nothing else comes behind a body. -/
theorem inside_ends (onward : Onward execute related) {activation : Activation} {fuel line : Nat}
    {entered machine final : Machine} {statement : Statement} {result : Except Fault Unit}
    (comes : activation.ComesTo execute line entered statement machine)
    (ran : activation.inside execute fuel line entered = some (result, final)) :
    ∃ last, EndsAhead execute related statement machine last ∧
      (((∀ function arguments, activation ≠ .call function arguments) ∧ final = last) ∨
        ∃ function arguments frame bound, activation = .call function arguments ∧
          bindArguments line function.parameters arguments entered.scope entered =
            (.ok frame, bound) ∧ final = { last with scope := bound.scope }) := by
  cases activation with
  | ifBlock body =>
      rcases Option.map_eq_some_iff.mp ran with ⟨⟨flow, last⟩, ranBody, same⟩
      cases same
      exact ⟨_, onward.body_ends comes ranBody, .inl ⟨nofun, rfl⟩⟩
  | loopBlock body count =>
      rcases comes with ⟨start, pass, comes⟩
      rcases Option.map_eq_some_iff.mp ran with ⟨last, passes, same⟩
      cases same
      exact ⟨_, onward.loop_ends pass comes passes, .inl ⟨nofun, rfl⟩⟩
  | whileBlock body condition =>
      rcases comes with ⟨start, pass, comes⟩
      exact ⟨final, onward.while_ends pass comes ran, .inl ⟨nofun, rfl⟩⟩
  | call function arguments =>
      rcases comes with ⟨frame, bound, binding, comes⟩
      rcases invoke_cases ran with ⟨fault, failed, -⟩ |
        ⟨frameToo, boundToo, flow, last, bindingToo, ranBody, -, same⟩
      · cases binding.symm.trans failed
      · cases binding.symm.trans bindingToo
        refine ⟨last, onward.body_ends comes ranBody, .inr ?_⟩
        exact ⟨function, arguments, frame, bound, rfl, binding, same⟩

end Onward

end Interpreter

end ScriptSandbox
