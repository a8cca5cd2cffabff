import Mathlib.Logic.Relation
import ScriptSandbox.Proofs.Expression.Frame
import ScriptSandbox.Proofs.Expression.Operations

/-!
The moments of a run and what can happen from one to the next. A moment has the scope in force, the
scopes of the callers, the heap, and the values held outside of all these, such as operands and
arguments; whatever is bound or pushed is one of them. The evaluation of an expression is a sequence
of such steps, one for each literal, reference and operator.
-/

namespace ScriptSandbox

def Item.literal? : Item → Option Value
  | .literal value => some value
  | _ => none

def Operand.value? : Operand → Option Value
  | .value held => some held
  | .reference _ => none

structure Moment where
  callers : List Scope
  scope : Scope
  heap : Heap
  handed : List Value

namespace Moment

/-- What one literal, reference or operator of an expression does. -/
inductive EvaluationStep : Moment → Moment → Prop
  | scalar (moment : Moment) (value : Value) (plain : value.isHandle = false) :
      EvaluationStep moment { moment with handed := value :: moment.handed }
  | load (moment : Moment) (json : Json) :
      EvaluationStep moment { moment with
        heap := (moment.heap.load json).2, handed := (moment.heap.load json).1 :: moment.handed }
  | read (moment : Moment) (name : String) :
      EvaluationStep moment { moment with handed := moment.scope.resolve name :: moment.handed }
  | operate (moment : Moment) {line : Nat} {operator : Operator} {stack next : List Operand}
      {heap : Heap} (held : stack.filterMap Operand.value? ⊆ moment.handed)
      (applied : Code.apply moment.scope line operator stack moment.heap = (.ok next, heap)) :
      EvaluationStep moment
        { moment with heap, handed := next.filterMap Operand.value? ++ moment.handed }

abbrev Evaluation : Moment → Moment → Prop := Relation.ReflTransGen EvaluationStep

/-- What can happen in a run from one moment to the next. -/
inductive Step : Moment → Moment → Prop
  | evaluate {first later : Moment} (step : EvaluationStep first later) : Step first later
  | assign (moment : Moment) (name : String) {value : Value} (held : value ∈ moment.handed) :
      Step moment { moment with scope := moment.scope.setVariable name value }
  | declare (moment : Moment) (function : Function) :
      Step moment { moment with
        scope := moment.scope.setFunction function.name (moment.heap.newFunction function).1
        heap := (moment.heap.newFunction function).2 }
  | call (moment : Moment) {frame : Scope}
      (held : ∀ name value, frame.bindings.get? name = some value →
        value ∈ moment.handed ∨ moment.scope.bindings.get? name = some value) :
      Step moment { moment with callers := moment.scope :: moment.callers, scope := frame }
  | comeBack (moment : Moment) {caller : Scope} {callers : List Scope}
      (called : moment.callers = caller :: callers) :
      Step moment { moment with callers, scope := caller }

abbrev Steps : Moment → Moment → Prop := Relation.ReflTransGen Step

theorem steps_of_evaluation {first later : Moment} (evaluation : Evaluation first later) :
    Steps first later :=
  Relation.ReflTransGen.mono (fun _ _ step => Step.evaluate step) _ _ evaluation

theorem evaluation_step_handed {first later : Moment} (step : EvaluationStep first later) :
    first.handed ⊆ later.handed := by
  cases step with
  | scalar | load | read => exact List.subset_cons_self _ _
  | operate => exact List.subset_append_right _ _

theorem evaluation_handed {first later : Moment} (evaluation : Evaluation first later) :
    first.handed ⊆ later.handed := by
  induction evaluation with
  | refl => exact List.Subset.refl _
  | tail _ step ih => exact List.Subset.trans ih (evaluation_step_handed step)

end Moment

open Moment

/-- Nothing has to be shown of the value of a fault. -/
theorem of_error_eq_ok {Result : Type} {fault : Fault} {holds : Result → Prop} (value : Result)
    (same : (.error fault : Except Fault Result) = .ok value) : holds value := by
  cases same

namespace Yard

section

variable {Picked : Type} {pick : Item → Option Picked}
  (unpicked : ∀ operator, pick (.operator operator) = none)
include unpicked

/-- Sending on operators leaves everything else in the output where it is. -/
theorem release_picked (arriving : Operator) (output : List Item) (waiting : List Waiting) :
    (release arriving output waiting).output.filterMap pick = output.filterMap pick := by
  fun_induction release arriving output waiting with
  | case1 => rfl
  | case2 output top rest _ ih => rw [ih, List.filterMap_cons_none (unpicked top)]
  | case3 => rfl

theorem close_from_picked {output : List Item} {waiting : List Waiting} {closed : Yard}
    (closes : closeFrom output waiting = some closed) :
    closed.output.filterMap pick = output.filterMap pick := by
  fun_induction closeFrom output waiting with
  | case1 => cases closes
  | case2 =>
      cases closes
      rfl
  | case3 output top rest ih => rw [ih closes, List.filterMap_cons_none (unpicked top)]

theorem drain_picked {output items : List Item} {waiting : List Waiting}
    (drained : drain output waiting = some items) :
    items.filterMap pick = (output.filterMap pick).reverse := by
  fun_induction drain output waiting with
  | case1 output =>
      cases drained
      rw [List.filterMap_reverse]
  | case2 => cases drained
  | case3 output top rest ih => rw [ih drained, List.filterMap_cons_none (unpicked top)]

end

end Yard

theorem Lexeme.scalar_plain {scope : Scope} {token : String} {value : Value}
    (read : Lexeme.ofToken scope token = .ok (.scalar value)) : value.isHandle = false := by
  unfold Lexeme.ofToken at read
  dsimp only at read
  split at read
  · cases read
    rfl
  · split at read
    · cases read
      rfl
    · unfold Lexeme.ofName at read
      repeat' split at read
      all_goals try cases read
      unfold Lexeme.ofRemaining at read
      split at read
      · split at read <;> cases read
      · split at read
        · next constant =>
            cases read
            unfold Lexeme.constant? at constant
            split at constant <;> cases constant <;> rfl
        · split at read <;> cases read

namespace Code

variable {scope : Scope} {line : Nat} {items : List Item} {heap after : Heap}
  {callers : List Scope} {handed : List Value}

/-- Items run one step each; what is left on the stack is handed on. -/
theorem run_steps {stack : List Operand} {result : Except Fault (List Operand)}
    (ran : run scope line items stack heap = (result, after))
    (literals : items.filterMap Item.literal? ⊆ handed)
    (held : stack.filterMap Operand.value? ⊆ handed) :
    ∃ later, Evaluation ⟨callers, scope, heap, handed⟩ ⟨callers, scope, after, later⟩ ∧
      ∀ final, result = .ok final → final.filterMap Operand.value? ⊆ later := by
  fun_induction run scope line items stack heap generalizing handed with
  | case1 stack heap =>
      cases ran
      refine ⟨handed, .refl, fun final same => ?_⟩
      cases same
      exact held
  | case2 value rest stack heap ih =>
      simp only [List.filterMap_cons, Item.literal?, List.cons_subset] at literals
      apply ih ran literals.2
      simp only [List.filterMap_cons, Operand.value?, List.cons_subset]
      exact ⟨literals.1, held⟩
  | case3 name rest stack heap ih =>
      apply ih ran literals
      simp only [List.filterMap_cons, Operand.value?]
      exact held
  | case4 operator rest stack heap fault changed applied =>
      cases ran
      rcases apply_effect applied with ⟨_, -, same⟩ | ⟨_, _, done, -⟩
      · rw [same]
        exact ⟨handed, .refl, of_error_eq_ok⟩
      · cases done
  | case5 operator rest stack heap next changed applied ih =>
      have step := EvaluationStep.operate ⟨callers, scope, heap, handed⟩ held applied
      have still := List.Subset.trans literals (evaluation_step_handed step)
      rcases ih ran still (List.subset_append_left _ _) with ⟨later, steps, left⟩
      exact ⟨later, .head step steps, left⟩

theorem evaluate_steps {result : Except Fault Value}
    (evaluated : evaluate scope line items heap = (result, after))
    (literals : items.filterMap Item.literal? ⊆ handed) :
    ∃ later, Evaluation ⟨callers, scope, heap, handed⟩ ⟨callers, scope, after, later⟩ ∧
      ∀ value, result = .ok value → value ∈ later := by
  unfold evaluate at evaluated
  split at evaluated
  · next fault changed ran =>
      cases evaluated
      rcases run_steps ran literals (List.nil_subset _) with ⟨later, steps, -⟩
      exact ⟨later, steps, of_error_eq_ok⟩
  · next operand changed ran =>
      cases evaluated
      rcases run_steps ran literals (List.nil_subset _) with ⟨later, steps, left⟩
      have held := left _ rfl
      cases operand with
      | value value =>
          refine ⟨later, steps, fun other same => ?_⟩
          cases same
          exact held (by simp [Operand.value?, Operand.resolve])
      | reference name =>
          refine ⟨_, steps.tail (.read _ name), fun other same => ?_⟩
          cases same
          exact List.mem_cons_self
  · next changed _ ran =>
      cases evaluated
      rcases run_steps ran literals (List.nil_subset _) with ⟨later, steps, -⟩
      exact ⟨later, steps, of_error_eq_ok⟩

end Code

namespace Machine

def moment (machine : Machine) (callers : List Scope) (handed : List Value) : Moment :=
  ⟨callers, machine.scope, machine.heap, handed⟩

/-- The second machine comes from the first by steps, at the end of which a result is at hand. -/
def Hands (machine : Machine) (result : Except Fault Value) (next : Machine) : Prop :=
  ∀ callers handed, ∃ after, Evaluation (machine.moment callers handed) (next.moment callers after) ∧
    ∀ value, result = .ok value → value ∈ after

theorem hands_of_same {machine next : Machine} {result : Except Fault Value}
    (scope : next.scope = machine.scope) (heap : next.heap = machine.heap)
    (plain : ∀ value, result = .ok value → value.isHandle = false) :
    machine.Hands result next := by
  intro callers handed
  have same (values : List Value) : next.moment callers values = machine.moment callers values := by
    rw [moment, moment, scope, heap]
  cases result with
  | error fault =>
      refine ⟨handed, ?_, of_error_eq_ok⟩
      rw [same]
  | ok value =>
      refine ⟨value :: handed, ?_, fun other found => ?_⟩
      · rw [same]
        exact .single (.scalar _ value (plain value rfl))
      · cases found
        exact List.mem_cons_self

theorem Hands.then {machine middle next : Machine} {first result : Except Fault Value}
    (before : machine.Hands first middle) (after : middle.Hands result next) :
    machine.Hands result next := by
  intro callers handed
  rcases before callers handed with ⟨between, steps, -⟩
  rcases after callers between with ⟨final, more, given⟩
  exact ⟨final, steps.trans more, given⟩

theorem load_hands (machine : Machine) (json : Json) :
    machine.Hands (.ok (machine.load json).1) (machine.load json).2 := by
  intro callers handed
  refine ⟨_, .single (.load (machine.moment callers handed) json), fun value same => ?_⟩
  cases same
  exact List.mem_cons_self

theorem run_items_hands {line : Nat} {items : List Item} {machine next : Machine}
    {result : Except Fault Value} (ran : runItems line items machine = (result, next))
    {callers : List Scope} {handed : List Value}
    (literals : items.filterMap Item.literal? ⊆ handed) :
    ∃ after, Evaluation (machine.moment callers handed) (next.moment callers after) ∧
      ∀ value, result = .ok value → value ∈ after := by
  cases machine with
  | mk scope control heap host startedAt =>
      unfold runItems at ran
      dsimp only at ran
      cases ran
      exact Code.evaluate_steps rfl literals

section

variable {answer : Answerer} (answers : ∀ capability arguments line machine,
  Hands machine (answer capability arguments line machine).1
    (answer capability arguments line machine).2)
include answers

/-- Compiling hands on what the literals of the items are. -/
theorem compile_with_steps {line : Nat} {tokens : List String} {yard : Yard}
    {machine next : Machine} {result : Except Fault (List Item)} {callers : List Scope}
    {handed : List Value}
    (compiled : compileWith answer line tokens yard machine = (result, next))
    (literals : yard.output.filterMap Item.literal? ⊆ handed) :
    ∃ after, Evaluation (machine.moment callers handed) (next.moment callers after) ∧
      ∀ items, result = .ok items → items.filterMap Item.literal? ⊆ after := by
  fun_induction compileWith answer line tokens yard machine generalizing handed with
  | case1 yard machine items finished =>
      cases compiled
      refine ⟨handed, .refl, fun items same => ?_⟩
      cases same
      rw [Yard.drain_picked (fun _ => rfl) finished, List.reverse_subset]
      exact literals
  | case2 | case3 | case10 | case11 =>
      cases compiled
      exact ⟨handed, .refl, of_error_eq_ok⟩
  | case4 yard machine token rest value found ih =>
      have plain := Lexeme.scalar_plain found
      have step := EvaluationStep.scalar (machine.moment callers handed) value plain
      have more : (yard.operand (.literal value)).output.filterMap Item.literal? ⊆
          value :: handed := List.cons_subset_cons value literals
      rcases ih compiled more with ⟨after, steps, given⟩
      exact ⟨after, .head step steps, given⟩
  | case5 yard machine token rest json found value loaded loading ih =>
      rcases load_hands machine json callers handed with ⟨between, loads, given⟩
      rw [loading] at loads given
      have more : (yard.operand (.literal value)).output.filterMap Item.literal? ⊆ between :=
        List.cons_subset.mpr ⟨given value rfl, List.Subset.trans literals (evaluation_handed loads)⟩
      rcases ih compiled more with ⟨after, steps, last⟩
      exact ⟨after, loads.trans steps, last⟩
  | case6 yard machine token rest name found ih => exact ih compiled literals
  | case7 yard machine token rest operator found ih =>
      apply ih compiled
      rw [← Yard.release_picked (fun _ => rfl) operator yard.output yard.waiting] at literals
      exact literals
  | case8 yard machine token rest found ih => exact ih compiled literals
  | case9 yard machine token rest found closed closes ih =>
      apply ih compiled
      rw [Yard.close_from_picked (fun _ => rfl) closes]
      exact literals
  | case12 yard machine token rest capability found enough fault asked answered =>
      cases compiled
      have hands := answers capability (rest.take capability.arity) line machine
      rw [answered] at hands
      rcases hands callers handed with ⟨after, steps, -⟩
      exact ⟨after, steps, of_error_eq_ok⟩
  | case13 yard machine token rest capability found enough value asked answered ih =>
      have hands := answers capability (rest.take capability.arity) line machine
      rw [answered] at hands
      rcases hands callers handed with ⟨between, asks, given⟩
      have more : (yard.operand (.literal value)).output.filterMap Item.literal? ⊆ between :=
        List.cons_subset.mpr ⟨given value rfl, List.Subset.trans literals (evaluation_handed asks)⟩
      rcases ih compiled more with ⟨after, steps, last⟩
      exact ⟨after, asks.trans steps, last⟩

theorem evaluate_with_hands (tokens : List String) (line : Nat) (machine : Machine) :
    machine.Hands (evaluateWith answer tokens line machine).1
      (evaluateWith answer tokens line machine).2 := by
  intro callers handed
  have none : Yard.empty.output.filterMap Item.literal? ⊆ handed := List.nil_subset _
  unfold evaluateWith
  split
  · next fault next compiled =>
      rcases compile_with_steps answers compiled none with ⟨after, steps, -⟩
      exact ⟨after, steps, of_error_eq_ok⟩
  · next next compiled =>
      rcases compile_with_steps answers compiled none with ⟨after, steps, -⟩
      refine ⟨.null :: after, steps.tail (.scalar _ .null rfl), fun value same => ?_⟩
      cases same
      exact List.mem_cons_self
  · next items middle _ compiled =>
      rcases compile_with_steps answers compiled none with ⟨between, steps, given⟩
      rcases run_items_hands rfl (given items rfl) with ⟨after, more, last⟩
      exact ⟨after, steps.trans more, last⟩

end

theorem answer_plain_hands (capability : Capability) (arguments : List String) (line : Nat)
    (machine : Machine) : machine.Hands (answerPlain capability arguments line machine).1
      (answerPlain capability arguments line machine).2 := by
  cases capability <;>
    exact hands_of_same rfl rfl fun value same => by cases same; rfl

theorem argument_hands {token : String} {line : Nat} {machine next : Machine}
    {result : Except Fault Value} (evaluated : argument token line machine = (result, next)) :
    machine.Hands result next := by
  have hands := evaluate_with_hands answer_plain_hands [token] line machine
  rw [argument] at evaluated
  rw [evaluated] at hands
  exact hands

theorem answer_load_hands (key : String) (line : Nat) (machine : Machine) :
    machine.Hands (answerLoad key line machine).1 (answerLoad key line machine).2 := by
  unfold answerLoad
  dsimp only
  split
  · exact hands_of_same rfl rfl of_error_eq_ok
  · exact hands_of_same rfl rfl fun value same => by cases same; rfl
  · next json _ => exact load_hands { machine with host := (machine.host.load key).2 } json

theorem answer_fetch_hands (url : String) (line : Nat) (machine : Machine) :
    machine.Hands (answerFetch url line machine).1 (answerFetch url line machine).2 := by
  unfold answerFetch
  dsimp only
  split
  · exact hands_of_same rfl rfl of_error_eq_ok
  · next response _ =>
      exact load_hands { machine with host := (machine.host.request url).2 } response.toJson

theorem answer_all_hands (capability : Capability) (arguments : List String) (line : Nat)
    (machine : Machine) : machine.Hands (answerAll capability arguments line machine).1
      (answerAll capability arguments line machine).2 := by
  unfold answerAll
  split
  · next key =>
      split
      · next found => exact argument_hands found
      · next found => exact (argument_hands found).then (answer_load_hands _ line _)
  · next url =>
      split
      · next found => exact argument_hands found
      · next found => exact (argument_hands found).then (answer_fetch_hands _ line _)
  · next number =>
      split
      · next found => exact argument_hands found
      · next found =>
          apply (argument_hands found).then
          exact hands_of_same rfl rfl fun value same => by cases same; rfl
  · next least greatest =>
      split
      · next found => exact argument_hands found
      · next first read found =>
          split
          · next second => exact (argument_hands found).then (argument_hands second)
          · next last both second =>
              apply ((argument_hands found).then (argument_hands second)).then
              refine hands_of_same rfl rfl fun value same => ?_
              cases same
              exact Operator.apply_plain .plus _ _ _
  · exact answer_plain_hands _ _ _ _

theorem evaluate_hands {tokens : List String} {line : Nat} {machine next : Machine}
    {result : Except Fault Value} (evaluated : machine.evaluate tokens line = (result, next)) :
    machine.Hands result next := by
  have hands := evaluate_with_hands answer_all_hands tokens line machine
  rw [evaluate] at evaluated
  rw [evaluated] at hands
  exact hands

end Machine

namespace Heap

mutual

theorem load_functions (heap : Heap) (json : Json) :
    (heap.load json).2.functions = heap.functions := by
  cases json with
  | array items => exact load_items_functions heap items
  | object fields => exact load_fields_functions heap fields
  | _ => rfl

theorem load_items_functions (heap : Heap) (items : List Json) :
    (heap.loadItems items).2.functions = heap.functions := by
  cases items with
  | nil => rfl
  | cons item rest =>
      have first := load_functions heap item
      exact (load_items_functions (heap.load item).2 rest).trans first

theorem load_fields_functions (heap : Heap) (fields : List (String × Json)) :
    (heap.loadFields fields).2.functions = heap.functions := by
  cases fields with
  | nil => rfl
  | cons field rest =>
      have first := load_functions heap field.2
      exact (load_fields_functions (heap.load field.2).2 rest).trans first

end

end Heap

theorem Code.apply_functions {scope : Scope} {line : Nat} {operator : Operator}
    {stack : List Operand} {heap after : Heap} {result : Except Fault (List Operand)}
    (applied : Code.apply scope line operator stack heap = (result, after)) :
    after.functions = heap.functions := by
  rcases Code.apply_effect applied with ⟨fault, -, same⟩ | ⟨value, rest, -, -, effect⟩
  · rw [same]
  · cases effect <;> rfl

namespace Moment

theorem evaluation_functions {first later : Moment} (evaluation : Evaluation first later) :
    later.heap.functions = first.heap.functions := by
  induction evaluation with
  | refl => rfl
  | tail _ step ih =>
      cases step with
      | scalar | read => exact ih
      | load json => exact (Heap.load_functions _ json).trans ih
      | operate held applied => exact (Code.apply_functions applied).trans ih

end Moment

/-- No expression declares a function. -/
theorem Machine.evaluate_functions {tokens : List String} {line : Nat} {machine next : Machine}
    {result : Except Fault Value} (evaluated : machine.evaluate tokens line = (result, next)) :
    next.heap.functions = machine.heap.functions := by
  rcases evaluate_hands evaluated [] [] with ⟨after, evaluation, -⟩
  exact evaluation_functions evaluation

end ScriptSandbox
