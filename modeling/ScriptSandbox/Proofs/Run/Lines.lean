import ScriptSandbox.Proofs.Expression.Lines
import ScriptSandbox.Proofs.Run.Cases

/-!
No statement does anything else on another line. Its line is handed to the expressions it evaluates,
to the depth guard and to its own complaints, while the statements inside it have lines of their own;
so only the fault that ends it can tell. Two programs whose statements differ in their lines alone
end on machines that differ in the text of one error at most.
-/

namespace ScriptSandbox

theorem Statement.body_statements_alike (command : String) (arguments : List String)
    (line other opening : Nat) :
    ResultsAlike (bodyStatements ⟨command, arguments, line⟩ opening)
      (bodyStatements ⟨command, arguments, other⟩ opening) := by
  have same : body? ⟨command, arguments, other⟩ opening = body? ⟨command, arguments, line⟩ opening :=
    rfl
  unfold bodyStatements
  rw [same]
  split
  · exact results_alike_refl _
  · exact .error ⟨other, rfl⟩

namespace PlainCommand

open Machine

variable (command : String) (arguments : List String)

theorem run_log_agrees : IgnoresLine fun line => runLog ⟨command, arguments, line⟩ := by
  intro line other machine
  simp only [runLog]
  split
  · exact .error ⟨other, rfl⟩ machine
  · exact (evaluate_agrees arguments line other machine).elim (fun value next => .ok _ _)
      fun _ _ next alike => .error alike next

theorem run_assign_agrees : IgnoresLine fun line => runAssign ⟨command, arguments, line⟩ := by
  intro line other machine
  simp only [runAssign]
  split
  · next name mark first more =>
      split
      · exact (evaluate_agrees (first :: more) line other machine).elim (fun value next => .ok _ _)
          fun _ _ next alike => .error alike next
      · exact .error ⟨other, rfl⟩ machine
  · exact .error ⟨other, rfl⟩ machine

theorem run_save_agrees : IgnoresLine fun line => runSave ⟨command, arguments, line⟩ := by
  intro line other machine
  simp only [runSave]
  split
  · next keyToken valueToken more =>
      refine (evaluate_agrees [keyToken] line other machine).elim ?_ ?_
      · intro keyValue next
        dsimp only
        refine (evaluate_agrees [valueToken] line other next).elim ?_ ?_
        · intro value final
          dsimp only
          split
          · exact .error ⟨other, rfl⟩ _
          · exact .ok _ _
        · intro fault raised final alike
          exact .error alike final
      · intro fault raised next alike
        exact .error alike next
  · exact .error ⟨other, rfl⟩ machine

theorem run_declare_agrees : IgnoresLine fun line => runDeclare ⟨command, arguments, line⟩ := by
  intro line other machine
  simp only [runDeclare, Statement.open?]
  split
  · exact .error ⟨other, rfl⟩ machine
  · split
    · exact .error ⟨other, rfl⟩ machine
    · next name parameters read =>
        split
        · exact .error ⟨other, rfl⟩ machine
        · next place opens =>
            exact (Statement.body_statements_alike command arguments line other place).elim
              (fun body => .ok _ _) fun _ _ alike => .error alike machine

theorem coordinates_agrees (line other : Nat) (texts : List (List Char)) (machine : Machine) :
    Agree (coordinates line texts machine) (coordinates other texts machine) := by
  induction texts generalizing machine with
  | nil => exact .ok _ machine
  | cons text rest ih =>
      simp only [coordinates]
      refine (evaluate_agrees _ line other machine).elim ?_ ?_
      · intro value next
        dsimp only
        exact (ih next).elim (fun numbers final => .ok _ final)
          fun _ _ final alike => .error alike final
      · intro fault raised next alike
        exact .error alike next

theorem run_draw_agrees : IgnoresLine fun line => runDraw ⟨command, arguments, line⟩ := by
  intro line other machine
  simp only [runDraw]
  split
  · exact .ok _ machine
  · split
    · next color x y width height more parts =>
        exact (coordinates_agrees line other [x, y, width, height]
          (machine.record (.fillColor (String.ofList (unquoted color))))).elim
          (fun numbers next => agree_refl _) fun _ _ next alike => .error alike next
    · exact .error ⟨other, rfl⟩ machine

theorem run_agrees (plain : PlainCommand) :
    IgnoresLine fun line => plain.run ⟨command, arguments, line⟩ := by
  cases plain with
  | assign => exact run_assign_agrees command arguments
  | declare => exact run_declare_agrees command arguments
  | draw => exact run_draw_agrees command arguments
  | log => exact run_log_agrees command arguments
  | save => exact run_save_agrees command arguments
  | leaveBody | comment | exit =>
      intro line other machine
      exact .ok _ _

end PlainCommand

namespace Interpreter

/-- What may run without end does the same for every line, but for the line its faults name. -/
def IgnoresLine {Result : Type} (step : Nat → Machine → Option (Except Fault Result × Machine)) :
    Prop :=
  ∀ line other machine, Option.Rel Agree (step line machine) (step other machine)

theorem rel_refl {Result : Type} (ending : Option (Except Fault Result × Machine)) :
    Option.Rel Agree ending ending := by
  cases ending with
  | none => exact .none
  | some outcome => exact .some (agree_refl outcome)

theorem run_entered_agrees {inside : Nat → Machine → Option (Except Fault Unit × Machine)}
    (ignores : IgnoresLine inside) : IgnoresLine fun line => runEntered line (inside line) := by
  intro line other machine
  by_cases deep : machine.control.limit < machine.control.depth + 1
  · simp only [run_entered_beyond deep]
    exact .some (.error ⟨other, rfl⟩ machine.raised)
  · have agrees := ignores line other machine.raised
    simp only [run_entered_within (Nat.le_of_not_lt deep)]
    generalize inside line machine.raised = first at agrees ⊢
    generalize inside other machine.raised = second at agrees ⊢
    rcases agrees with agree | _
    · cases agree with
      | ok result state => exact .some (agree_refl _)
      | error alike state => exact .some (.error alike state.leave)
    · exact .none

section

variable {command : String} {arguments : List String}

theorem with_head_agrees {incomplete unopened : Malformed}
    {rest : Nat → Nat → Value → Machine → Option Outcome}
    (ignores : ∀ opening value, IgnoresLine fun line => rest line opening value) :
    IgnoresLine fun line =>
      withHead ⟨command, arguments, line⟩ incomplete unopened (rest line) := by
  intro line other machine
  simp only [withHead, Statement.open?]
  split
  · exact .some (.error ⟨other, rfl⟩ machine)
  · split
    · exact .some (.error ⟨other, rfl⟩ machine)
    · next opening found =>
        exact (Machine.evaluate_agrees (arguments.take opening) line other machine).elim
          (fun value next => ignores opening value line other next)
          fun _ _ next alike => .some (.error alike next)

theorem run_block_agrees {inside : Nat → List Statement → Machine → Option (Except Fault Unit × Machine)}
    (ignores : ∀ body, IgnoresLine fun line => inside line body) (opening : Nat) :
    IgnoresLine fun line => runBlock ⟨command, arguments, line⟩ opening (inside line) := by
  intro line other machine
  simp only [runBlock]
  exact (Statement.body_statements_alike command arguments line other opening).elim
    (fun body => run_entered_agrees (ignores body) line other machine)
    fun _ _ alike => .some (.error alike machine)

/-- A block that is entered only under a condition. -/
theorem run_block_if_agrees (asked : Bool)
    {inside : Nat → List Statement → Machine → Option (Except Fault Unit × Machine)}
    (ignores : ∀ body, IgnoresLine fun line => inside line body) (opening : Nat) :
    IgnoresLine fun line machine =>
      if asked then runBlock ⟨command, arguments, line⟩ opening (inside line) machine
      else some (.ok .next, machine) := by
  intro line other machine
  cases asked with
  | true => exact run_block_agrees ignores opening line other machine
  | false => exact rel_refl _

variable (execute : Executor)

theorem run_if_agrees : IgnoresLine fun line => runIf execute ⟨command, arguments, line⟩ := by
  apply with_head_agrees
  intro opening condition
  apply run_block_if_agrees
  intro body line other machine
  exact rel_refl _

theorem run_loop_agrees (fuel : Nat) :
    IgnoresLine fun line => runLoop execute fuel ⟨command, arguments, line⟩ := by
  apply with_head_agrees
  intro opening value line other machine
  dsimp only
  split
  · exact rel_refl _
  · apply run_block_agrees
    intro body line other machine
    exact rel_refl _

theorem run_while_holds_agrees (condition : List String) (body : List Statement) (fuel line other : Nat)
    (machine : Machine) :
    Option.Rel Agree (runWhileHolds execute condition line body fuel machine)
      (runWhileHolds execute condition other body fuel machine) := by
  induction fuel generalizing machine with
  | zero =>
      unfold runWhileHolds
      split
      · exact rel_refl _
      · exact (Machine.evaluate_agrees condition line other machine).elim
          (fun value next => rel_refl _) fun _ _ next alike => .some (.error alike next)
  | succ fuel ih =>
      unfold runWhileHolds
      split
      · exact rel_refl _
      · refine (Machine.evaluate_agrees condition line other machine).elim ?_ ?_
        · intro value next
          dsimp only
          split
          · split
            · exact .none
            · next flow final ran => exact ih final
          · exact rel_refl _
        · intro fault raised next alike
          exact .some (.error alike next)

theorem run_while_agrees (fuel : Nat) :
    IgnoresLine fun line => runWhile execute fuel ⟨command, arguments, line⟩ := by
  apply with_head_agrees
  intro opening condition
  apply run_block_if_agrees
  intro body
  exact run_while_holds_agrees execute (arguments.take opening) body fuel

theorem run_eval_agrees : IgnoresLine fun line => runEval execute ⟨command, arguments, line⟩ := by
  intro line other machine
  simp only [runEval]
  split
  · exact .some (.error ⟨other, rfl⟩ machine)
  · exact (Machine.evaluate_agrees arguments line other machine).elim
      (fun value next => rel_refl _) fun _ _ next alike => .some (.error alike next)

theorem bind_arguments_agrees (line other : Nat) (parameters : List String)
    (given : List (List String)) (frame : Scope) (machine : Machine) :
    Agree (bindArguments line parameters given frame machine)
      (bindArguments other parameters given frame machine) := by
  induction parameters generalizing given frame machine with
  | nil => exact agree_refl _
  | cons parameter parameters ih =>
      cases given with
      | nil => exact ih [] _ machine
      | cons tokens given =>
          simp only [bindArguments]
          exact (Machine.evaluate_agrees tokens line other machine).elim
            (fun value next => ih given _ next) fun _ _ next alike => .error alike next

theorem invoke_agrees (function : Function) (given : List (List String)) :
    IgnoresLine fun line => invoke execute function given line := by
  intro line other machine
  simp only [invoke]
  exact (bind_arguments_agrees line other function.parameters given machine.scope machine).elim
    (fun frame next => rel_refl _) fun _ _ next alike => .some (.error alike next)

theorem run_call_agrees : IgnoresLine fun line => runCall execute ⟨command, arguments, line⟩ := by
  intro line other machine
  have sameCall : Statement.call? ⟨command, arguments, other⟩ =
      Statement.call? ⟨command, arguments, line⟩ := rfl
  simp only [runCall, sameCall]
  split
  · exact .some (.error ⟨other, rfl⟩ machine)
  · next call called =>
      split
      · exact .some (.error ⟨other, rfl⟩ machine)
      · next function declared =>
          exact run_entered_agrees (invoke_agrees execute function call.arguments) line other machine

end

/-- A statement does the same on every line, but for the line its fault names. Whatever runs inside
it is the same in both runs, so nothing is said about it. -/
theorem execute_agrees (fuel : Nat) (command : String) (arguments : List String) :
    IgnoresLine fun line => execute fuel ⟨command, arguments, line⟩ := by
  intro line other machine
  cases fuel with
  | zero => exact .none
  | succ fuel =>
      simp only [execute]
      split
      · next plain named => exact .some (plain.run_agrees command arguments line other machine)
      · exact run_if_agrees (execute fuel) line other machine
      · exact run_loop_agrees (execute fuel) fuel line other machine
      · exact run_while_agrees (execute fuel) fuel line other machine
      · exact run_eval_agrees (execute fuel) line other machine
      · exact run_call_agrees (execute fuel) line other machine

end Interpreter

end ScriptSandbox
