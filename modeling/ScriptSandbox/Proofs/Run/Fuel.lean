import ScriptSandbox.Proofs.Run.Cases

/-!
More fuel changes nothing. What ends with some fuel ends in the same way with more, and what a run
comes to with some fuel it comes to with more.
-/

namespace ScriptSandbox

namespace Interpreter

/-- The second executor answers wherever the first does, and in the same way. -/
def Extends (execute other : Executor) : Prop :=
  ∀ statement machine outcome, execute statement machine = some outcome →
    other statement machine = some outcome

theorem run_entered_extends {line : Nat} {machine : Machine} {outcome : Outcome}
    {inside others : Machine → Option (Except Fault Unit × Machine)}
    (further : ∀ ending, inside machine.raised = some ending → others machine.raised = some ending)
    (ran : runEntered line inside machine = some outcome) :
    runEntered line others machine = some outcome := by
  by_cases deep : machine.control.limit < machine.control.depth + 1
  · rw [run_entered_beyond deep] at ran ⊢
    exact ran
  · have below := Nat.le_of_not_lt deep
    rw [run_entered_within below] at ran ⊢
    rcases Option.map_eq_some_iff.mp ran with ⟨ending, ranInside, same⟩
    exact Option.map_eq_some_iff.mpr ⟨ending, further ending ranInside, same⟩

section

variable {execute other : Executor} (extension : Extends execute other)
include extension

theorem run_body_extends {body : List Statement} {machine : Machine} {ending : Flow × Machine}
    (ran : runBody execute body machine = some ending) :
    runBody other body machine = some ending := by
  fun_induction runBody execute body machine with
  | case1 => exact ran
  | case2 statement rest machine halted =>
      rw [runBody, if_pos halted]
      exact ran
  | case3 => cases ran
  | case4 statement rest machine unhalted middle executed ih =>
      rw [runBody, if_neg unhalted, extension _ _ _ executed]
      exact ih ran
  | case5 statement rest machine unhalted middle executed =>
      rw [runBody, if_neg unhalted, extension _ _ _ executed]
      exact ran
  | case6 statement rest machine unhalted fault middle executed =>
      rw [runBody, if_neg unhalted, extension _ _ _ executed]
      exact ran

theorem run_statements_extends {statements : List Statement} {machine final : Machine}
    (ran : runStatements execute statements machine = some final) :
    runStatements other statements machine = some final := by
  fun_induction runStatements execute statements machine with
  | case1 => exact ran
  | case2 statement rest machine halted =>
      rw [runStatements, if_pos halted]
      exact ran
  | case3 => cases ran
  | case4 statement rest machine unhalted flow middle executed ih =>
      rw [runStatements, if_neg unhalted, extension _ _ _ executed]
      exact ih ran
  | case5 statement rest machine unhalted fault middle executed ih =>
      rw [runStatements, if_neg unhalted, extension _ _ _ executed]
      exact ih ran

theorem run_program_extends {source : String} {machine final : Machine}
    (ran : runProgram execute source machine = some final) :
    runProgram other source machine = some final := by
  unfold runProgram at ran ⊢
  split at ran
  · exact ran
  · exact run_statements_extends extension ran

theorem run_nested_extends {source : String} {machine next : Machine}
    (ran : runNested execute source machine = some next) :
    runNested other source machine = some next := by
  rcases run_nested_cases ran with ⟨final, program, same⟩
  rw [runNested, run_program_extends extension program, same]

theorem run_passes_extends {body : List Statement} {count passes : Number} {fuel more : Nat}
    {machine final : Machine} (enough : fuel ≤ more)
    (ran : runPasses execute body count fuel passes machine = some final) :
    runPasses other body count more passes machine = some final := by
  fun_induction runPasses execute body count fuel passes machine generalizing more with
  | case1 | case2 => cases ran
  | case3 passes machine goes fuel flow middle ranBody ih =>
      cases more with
      | zero => omega
      | succ more =>
          rw [runPasses, if_pos goes, run_body_extends extension ranBody]
          exact ih (Nat.le_of_succ_le_succ enough) ran
  | case4 fuel passes machine stops =>
      unfold runPasses
      rw [if_neg stops]
      exact ran

theorem run_while_holds_extends {condition : List String} {line : Nat} {body : List Statement}
    {fuel more : Nat} {machine : Machine} {ending : Except Fault Unit × Machine}
    (enough : fuel ≤ more)
    (ran : runWhileHolds execute condition line body fuel machine = some ending) :
    runWhileHolds other condition line body more machine = some ending := by
  fun_induction runWhileHolds execute condition line body fuel machine generalizing more with
  | case1 fuel machine halted =>
      rw [runWhileHolds, if_pos halted]
      exact ran
  | case2 fuel machine unhalted fault middle failed =>
      rw [runWhileHolds, if_neg unhalted, failed]
      exact ran
  | case3 | case4 => cases ran
  | case5 machine unhalted value middle evaluated holds fuel flow final ranBody ih =>
      cases more with
      | zero => omega
      | succ more =>
          rw [runWhileHolds, if_neg unhalted, evaluated]
          dsimp only
          rw [if_pos holds, run_body_extends extension ranBody]
          exact ih (Nat.le_of_succ_le_succ enough) ran
  | case6 fuel machine unhalted value middle evaluated fails =>
      rw [runWhileHolds, if_neg unhalted, evaluated]
      dsimp only
      rw [if_neg fails]
      exact ran

theorem inside_extends {activation : Activation} {fuel more line : Nat} {entered : Machine}
    {ending : Except Fault Unit × Machine} (enough : fuel ≤ more)
    (ran : activation.inside execute fuel line entered = some ending) :
    activation.inside other more line entered = some ending := by
  cases activation with
  | ifBlock body =>
      rcases Option.map_eq_some_iff.mp ran with ⟨last, ranBody, same⟩
      exact Option.map_eq_some_iff.mpr ⟨last, run_body_extends extension ranBody, same⟩
  | loopBlock body count =>
      rcases Option.map_eq_some_iff.mp ran with ⟨last, passes, same⟩
      exact Option.map_eq_some_iff.mpr ⟨last, run_passes_extends extension enough passes, same⟩
  | whileBlock body condition => exact run_while_holds_extends extension enough ran
  | call function arguments =>
      unfold Activation.inside invoke at ran ⊢
      dsimp only at ran ⊢
      split at ran
      · exact ran
      · split at ran
        · cases ran
        · next flow final ranBody =>
            rw [run_body_extends extension ranBody]
            exact ran

theorem body_comes_to_extends {body : List Statement} {start machine : Machine}
    {statement : Statement} (comes : BodyComesTo execute body start statement machine) :
    BodyComesTo other body start statement machine := by
  rcases comes with ⟨before, after, same, ran, running⟩
  exact ⟨before, after, same, run_body_extends extension ran, running⟩

theorem program_comes_to_extends {source : String} {start machine : Machine}
    {statement : Statement} (comes : ProgramComesTo execute source start statement machine) :
    ProgramComesTo other source start statement machine := by
  rcases comes with ⟨before, after, parsed, ran, running⟩
  exact ⟨before, after, parsed, run_statements_extends extension ran, running⟩

theorem loop_pass_extends {body : List Statement} {count passes : Number} {machine start : Machine}
    (pass : LoopPass execute body count passes machine start) :
    LoopPass other body count passes machine start := by
  induction pass with
  | here below running => exact .here below running
  | later below running ran _ ih => exact .later below running (run_body_extends extension ran) ih

theorem while_pass_extends {condition : List String} {line : Nat} {body : List Statement}
    {machine start : Machine} (pass : WhilePass execute condition line body machine start) :
    WhilePass other condition line body machine start := by
  induction pass with
  | here running evaluated holds => exact .here running evaluated holds
  | later running evaluated holds ran _ ih =>
      exact .later running evaluated holds (run_body_extends extension ran) ih

theorem comes_to_extends {activation : Activation} {line : Nat} {entered machine : Machine}
    {statement : Statement} (comes : activation.ComesTo execute line entered statement machine) :
    activation.ComesTo other line entered statement machine := by
  cases activation with
  | ifBlock body => exact body_comes_to_extends extension comes
  | loopBlock body count =>
      rcases comes with ⟨start, pass, comes⟩
      exact ⟨start, loop_pass_extends extension pass, body_comes_to_extends extension comes⟩
  | whileBlock body condition =>
      rcases comes with ⟨start, pass, comes⟩
      exact ⟨start, while_pass_extends extension pass, body_comes_to_extends extension comes⟩
  | call function arguments =>
      rcases comes with ⟨frame, bound, binding, comes⟩
      exact ⟨frame, bound, binding, body_comes_to_extends extension comes⟩

end

theorem execute_extends {fuel more : Nat} (enough : fuel ≤ more) :
    Extends (execute fuel) (execute more) := by
  intro statement machine outcome ran
  induction fuel generalizing more statement machine outcome with
  | zero => cases ran
  | succ fuel ih =>
      cases more with
      | zero => omega
      | succ more =>
          have extension : Extends (execute fuel) (execute more) :=
            fun inner start result => ih (Nat.le_of_succ_le_succ enough) inner start result
          rcases execute_cases statement machine with ⟨result, next, -, always⟩ |
            ⟨activation, ready, requests⟩ | ⟨source, ready, nests⟩
          · rw [always] at ran ⊢
            exact ran
          · rw [execute_requested requests] at ran ⊢
            have less := Nat.le_of_succ_le_succ enough
            exact run_entered_extends (fun ending => inside_extends extension less) ran
          · rw [execute_nested nests] at ran ⊢
            rcases Option.map_eq_some_iff.mp ran with ⟨final, nested, same⟩
            exact Option.map_eq_some_iff.mpr ⟨final, run_nested_extends extension nested, same⟩

end Interpreter

end ScriptSandbox
