import ScriptSandbox.Command.Plain
import ScriptSandbox.Proofs.Expression.Frame

/-!
Where the depth ceiling is not at work. No expression and no command that runs no other statement
fails because too much is active, and none of them touches the depth count.
-/

namespace ScriptSandbox

/-- Whether a fault says that too much is active. -/
def Fault.isLimit : Fault → Bool
  | .tooDeep .. => true
  | _ => false

/-- A result that is not a fault of the depth ceiling. -/
def Unlimited {Result : Type} (result : Except Fault Result) : Prop :=
  ∀ fault, result = .error fault → fault.isLimit = false

theorem unlimited_ok {Result : Type} (result : Result) : Unlimited (.ok result) := by
  intro fault failed
  cases failed

theorem unlimited_error {Result : Type} {fault : Fault} (other : fault.isLimit = false) :
    Unlimited (.error fault : Except Fault Result) := by
  intro raised failed
  cases failed
  exact other

theorem Unlimited.fault {Result : Type} {fault : Fault}
    (unlimited : Unlimited (.error fault : Except Fault Result)) : fault.isLimit = false :=
  unlimited fault rfl

namespace Code

theorem target_unlimited (scope : Scope) (operator : Operator) (line : Nat) (operand : Operand) :
    Unlimited (operand.target scope operator line) := by
  unfold Operand.target
  split
  · exact unlimited_error rfl
  · split
    · exact unlimited_ok _
    · exact unlimited_error rfl

theorem apply_unlimited (scope : Scope) (line : Nat) (operator : Operator) (stack : List Operand)
    (heap : Heap) : Unlimited (apply scope line operator stack heap).1 := by
  -- The four array operators fail where their target does.
  have targets (operator : Operator) (operand : Operand) (fault : Fault)
      (failed : operand.target scope operator line = .error fault) : fault.isLimit = false :=
    target_unlimited scope operator line operand fault failed
  unfold apply
  split
  · split
    · next failed => exact unlimited_error (targets _ _ _ failed)
    · exact unlimited_ok _
  · split
    · next failed => exact unlimited_error (targets _ _ _ failed)
    · exact unlimited_ok _
  · split
    · next failed => exact unlimited_error (targets _ _ _ failed)
    · exact unlimited_ok _
  · split
    · next failed => exact unlimited_error (targets _ _ _ failed)
    · exact unlimited_ok _
  · split
    · exact unlimited_error rfl
    · exact unlimited_ok _
  · exact unlimited_error rfl

theorem run_unlimited (scope : Scope) (line : Nat) (items : List Item) (stack : List Operand)
    (heap : Heap) : Unlimited (run scope line items stack heap).1 := by
  fun_induction run scope line items stack heap with
  | case1 => exact unlimited_ok _
  | case2 _ _ _ _ ih | case3 _ _ _ _ ih => exact ih
  | case4 operator rest stack heap fault changed failed =>
      have applied := apply_unlimited scope line operator stack heap
      rwa [failed] at applied
  | case5 _ _ _ _ _ _ _ ih => exact ih

theorem evaluate_unlimited (scope : Scope) (line : Nat) (items : List Item) (heap : Heap) :
    Unlimited (evaluate scope line items heap).1 := by
  have ran := run_unlimited scope line items [] heap
  unfold evaluate
  split
  · next failed =>
      rw [failed] at ran
      exact unlimited_error ran.fault
  · exact unlimited_ok _
  · exact unlimited_error rfl

end Code

namespace Machine

theorem compile_with_unlimited {answer : Answerer}
    (answers : ∀ capability arguments line machine,
      Unlimited (answer capability arguments line machine).1)
    (line : Nat) (tokens : List String) (yard : Yard) (machine : Machine) :
    Unlimited (compileWith answer line tokens yard machine).1 := by
  fun_induction compileWith answer line tokens yard machine with
  | case1 => exact unlimited_ok _
  | case2 | case3 | case10 | case11 => exact unlimited_error rfl
  | case4 _ _ _ _ _ _ ih | case6 _ _ _ _ _ _ ih | case7 _ _ _ _ _ _ ih => exact ih
  | case8 _ _ _ _ _ ih | case9 _ _ _ _ _ _ _ ih => exact ih
  | case5 _ _ _ _ _ _ _ _ _ ih => exact ih
  | case12 yard machine token rest capability found enough fault asked answered =>
      have unlimited := answers capability (rest.take capability.arity) line machine
      rw [answered] at unlimited
      exact unlimited_error unlimited.fault
  | case13 _ _ _ _ _ _ _ _ _ _ ih => exact ih

theorem evaluate_with_unlimited {answer : Answerer}
    (answers : ∀ capability arguments line machine,
      Unlimited (answer capability arguments line machine).1)
    (tokens : List String) (line : Nat) (machine : Machine) :
    Unlimited (evaluateWith answer tokens line machine).1 := by
  have compiling := compile_with_unlimited answers line tokens .empty machine
  unfold evaluateWith
  split
  · next failed =>
      rw [failed] at compiling
      exact unlimited_error compiling.fault
  · exact unlimited_ok _
  · exact Code.evaluate_unlimited _ line _ _

theorem answer_plain_unlimited (capability : Capability) (arguments : List String) (line : Nat)
    (machine : Machine) : Unlimited (answerPlain capability arguments line machine).1 := by
  cases capability <;> exact unlimited_ok _

theorem argument_unlimited (token : String) (line : Nat) (machine : Machine) :
    Unlimited (argument token line machine).1 :=
  evaluate_with_unlimited answer_plain_unlimited [token] line machine

theorem answer_load_unlimited (key : String) (line : Nat) (machine : Machine) :
    Unlimited (answerLoad key line machine).1 := by
  unfold answerLoad
  dsimp only
  split
  · exact unlimited_error rfl
  · exact unlimited_ok _
  · exact unlimited_ok _

theorem answer_fetch_unlimited (url : String) (line : Nat) (machine : Machine) :
    Unlimited (answerFetch url line machine).1 := by
  unfold answerFetch
  dsimp only
  split
  · exact unlimited_error rfl
  · exact unlimited_ok _

theorem answer_all_unlimited (capability : Capability) (arguments : List String) (line : Nat)
    (machine : Machine) : Unlimited (answerAll capability arguments line machine).1 := by
  have read (token : String) (asked : Machine) (fault : Fault) (after : Machine)
      (failed : argument token line asked = (.error fault, after)) : fault.isLimit = false := by
    have unlimited := argument_unlimited token line asked
    rw [failed] at unlimited
    exact unlimited.fault
  fun_cases answerAll capability arguments line machine with
  | case1 | case3 | case5 | case7 | case8 => exact unlimited_error (read _ _ _ _ ‹_›)
  | case2 => exact answer_load_unlimited _ line _
  | case4 => exact answer_fetch_unlimited _ line _
  | case6 | case9 => exact unlimited_ok _
  | case10 => exact answer_plain_unlimited _ _ _ _

/-- The second machine has the depth and the ceiling of the first. -/
structure Level (machine next : Machine) : Prop where
  depth : next.control.depth = machine.control.depth
  limit : next.control.limit = machine.control.limit

theorem Level.of_control {machine next : Machine} (same : next.control = machine.control) :
    Level machine next :=
  ⟨congrArg Control.depth same, congrArg Control.limit same⟩

theorem level_refl (machine : Machine) : Level machine machine :=
  .of_control rfl

theorem Level.trans {first second third : Machine} (before : Level first second)
    (after : Level second third) : Level first third :=
  ⟨after.depth.trans before.depth, after.limit.trans before.limit⟩

theorem Level.keep {machine next other : Machine} (level : Level machine next)
    (same : other.control = next.control) : Level machine other :=
  level.trans (.of_control same)

/-- A step that leaves the depth count alone and does not fail for the ceiling. -/
structure Settles {Result : Type} (machine : Machine) (result : Except Fault Result)
    (next : Machine) : Prop where
  level : Level machine next
  unlimited : Unlimited result

theorem Settles.of_ok {Result : Type} {machine next : Machine} {result : Result}
    (level : Level machine next) : Settles machine (.ok result) next :=
  ⟨level, unlimited_ok result⟩

theorem Settles.of_error {Result : Type} {machine next : Machine} {fault : Fault}
    (level : Level machine next) (other : fault.isLimit = false) :
    Settles machine (.error fault : Except Fault Result) next :=
  ⟨level, unlimited_error other⟩

theorem Settles.after {Result : Type} {machine middle next : Machine}
    {result : Except Fault Result} (before : Level machine middle)
    (settles : Settles middle result next) : Settles machine result next :=
  ⟨before.trans settles.level, settles.unlimited⟩

theorem evaluate_settles {machine next : Machine} {tokens : List String} {line : Nat}
    {result : Except Fault Value} (evaluated : machine.evaluate tokens line = (result, next)) :
    Settles machine result next := by
  have asks := evaluate_asks tokens line machine
  have unlimited := evaluate_with_unlimited answer_all_unlimited tokens line machine
  have same : evaluateWith answerAll tokens line machine = (result, next) := evaluated
  rw [evaluated] at asks
  rw [same] at unlimited
  exact ⟨.of_control asks.control, unlimited⟩

theorem evaluate_level {machine next : Machine} {tokens : List String} {line : Nat}
    {result : Except Fault Value} (evaluated : machine.evaluate tokens line = (result, next)) :
    Level machine next :=
  (evaluate_settles evaluated).level

theorem evaluate_fails_settled {Result : Type} {machine next : Machine} {tokens : List String}
    {line : Nat} {fault : Fault} (failed : machine.evaluate tokens line = (.error fault, next)) :
    Settles machine (.error fault : Except Fault Result) next :=
  .of_error (evaluate_level failed) (evaluate_settles failed).unlimited.fault

end Machine

theorem Statement.of_pieces_unlimited (line : Nat) (pieces : List (List Char)) :
    Unlimited (ofPieces line pieces) := by
  have words (text : List Char) (line : Nat) : Unlimited (ofWords text line) := by
    unfold ofWords
    split
    · exact unlimited_ok _
    · exact unlimited_error rfl
  have piece (text : List Char) (line : Nat) : Unlimited (ofPiece text line) := by
    unfold ofPiece
    dsimp only
    split
    · split
      · exact unlimited_ok _
      · exact words text line
    · exact words text line
  fun_induction ofPieces line pieces with
  | case1 => exact unlimited_ok _
  | case2 line text rest fault failed => exact unlimited_error (piece text line fault failed)
  | case3 line text rest statement read fault failed ih =>
      rw [failed] at ih
      exact unlimited_error ih.fault
  | case4 => exact unlimited_ok _

theorem Statement.body_statements_unlimited (statement : Statement) (opening : Nat) :
    Unlimited (statement.bodyStatements opening) := by
  unfold bodyStatements
  split
  · exact of_pieces_unlimited 1 _
  · exact unlimited_error rfl

namespace PlainCommand

open Machine

theorem run_log_settles (statement : Statement) (machine : Machine) :
    Settles machine (runLog statement machine).1 (runLog statement machine).2 := by
  unfold runLog
  split
  · exact .of_error (level_refl machine) rfl
  · split
    · next failed => exact evaluate_fails_settled failed
    · next evaluated => exact .of_ok ((evaluate_level evaluated).keep rfl)

theorem run_assign_settles (statement : Statement) (machine : Machine) :
    Settles machine (runAssign statement machine).1 (runAssign statement machine).2 := by
  unfold runAssign
  split
  · split
    · split
      · next failed => exact evaluate_fails_settled failed
      · next evaluated => exact .of_ok ((evaluate_level evaluated).keep rfl)
    · exact .of_error (level_refl machine) rfl
  · exact .of_error (level_refl machine) rfl

theorem run_save_settles (statement : Statement) (machine : Machine) :
    Settles machine (runSave statement machine).1 (runSave statement machine).2 := by
  unfold runSave
  split
  · split
    · next failed => exact evaluate_fails_settled failed
    · next keyValue middle foundKey =>
        have keyLevel := evaluate_level foundKey
        dsimp only
        split
        · next failed => exact .after keyLevel (evaluate_fails_settled failed)
        · next found =>
            have level := keyLevel.trans (evaluate_level found)
            split
            · exact .of_error (level.keep rfl) rfl
            · exact .of_ok (level.keep rfl)
  · exact .of_error (level_refl machine) rfl

theorem run_declare_settles (statement : Statement) (machine : Machine) :
    Settles machine (runDeclare statement machine).1 (runDeclare statement machine).2 := by
  unfold runDeclare
  split
  · exact .of_error (level_refl machine) rfl
  · dsimp only
    split
    · exact .of_error (level_refl machine) rfl
    · split
      · exact .of_error (level_refl machine) rfl
      · next place _ =>
          split
          · next fault failed =>
              exact .of_error (level_refl machine) (Statement.body_statements_unlimited statement place fault failed)
          · exact .of_ok (.of_control rfl)

theorem coordinates_settles (line : Nat) (texts : List (List Char)) (machine : Machine) :
    Settles machine (coordinates line texts machine).1 (coordinates line texts machine).2 := by
  induction texts generalizing machine with
  | nil => exact .of_ok (level_refl machine)
  | cons text rest ih =>
      unfold coordinates
      split
      · next failed => exact evaluate_fails_settled failed
      · next value middle evaluated =>
          have level := evaluate_level evaluated
          have others := ih middle
          dsimp only
          split
          · next failed =>
              rw [failed] at others
              exact .after level (.of_error others.level others.unlimited.fault)
          · next read =>
              rw [read] at others
              exact .of_ok (level.trans others.level)

theorem run_draw_settles (statement : Statement) (machine : Machine) :
    Settles machine (runDraw statement machine).1 (runDraw statement machine).2 := by
  unfold runDraw
  dsimp only
  split
  · exact .of_ok (level_refl machine)
  · split
    · next color x y width height _ _ =>
        have colored : Level machine (machine.record (.fillColor (String.ofList (unquoted color)))) :=
          .of_control rfl
        have read := coordinates_settles statement.line [x, y, width, height]
          (machine.record (.fillColor (String.ofList (unquoted color))))
        split
        · next found =>
            rw [found] at read
            exact .of_error (colored.trans read.level) read.unlimited.fault
        · next found =>
            rw [found] at read
            exact .of_ok ((colored.trans read.level).keep rfl)
        · next found =>
            rw [found] at read
            exact .of_ok ((colored.trans read.level).keep rfl)
    · exact .of_error (level_refl machine) rfl

theorem run_settles (command : PlainCommand) (statement : Statement) (machine : Machine) :
    Settles machine (command.run statement machine).1 (command.run statement machine).2 := by
  cases command with
  | assign => exact run_assign_settles statement machine
  | leaveBody => exact .of_ok (level_refl machine)
  | comment => exact .of_ok (level_refl machine)
  | declare => exact run_declare_settles statement machine
  | draw => exact run_draw_settles statement machine
  | exit => exact .of_ok ⟨rfl, rfl⟩
  | log => exact run_log_settles statement machine
  | save => exact run_save_settles statement machine

end PlainCommand

end ScriptSandbox
