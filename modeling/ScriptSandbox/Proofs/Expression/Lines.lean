import ScriptSandbox.Expression.Compile

/-!
The line of a statement is a name in its faults and nothing else. Evaluated under another line, an
expression has the same value and leaves the same machine behind, or fails for the same cause.
-/

namespace ScriptSandbox

namespace Fault

/-- The same cause on another line. -/
def onLine (line : Nat) : Fault → Fault
  | .malformed _ cause => .malformed line cause
  | .misuse _ cause => .misuse line cause
  | .tooDeep _ limit => .tooDeep line limit
  | .refused _ cause => .refused line cause

/-- The faults differ at most in the line they name. -/
def Alike (first second : Fault) : Prop :=
  ∃ line, second = first.onLine line

theorem alike_refl (fault : Fault) : fault.Alike fault := by
  cases fault with
  | malformed line cause => exact ⟨line, rfl⟩
  | misuse line cause => exact ⟨line, rfl⟩
  | tooDeep line limit => exact ⟨line, rfl⟩
  | refused line cause => exact ⟨line, rfl⟩

end Fault

/-- Two results are the same, or two faults that differ at most in their line. -/
inductive ResultsAlike {Result : Type} : Except Fault Result → Except Fault Result → Prop
  | ok (result : Result) : ResultsAlike (.ok result) (.ok result)
  | error {fault other : Fault} (alike : fault.Alike other) :
      ResultsAlike (.error fault) (.error other)

/-- Two steps end in the same state, with results that differ at most in the line of a fault. -/
inductive Agree {Result State : Type} :
    Except Fault Result × State → Except Fault Result × State → Prop
  | ok (result : Result) (state : State) : Agree (.ok result, state) (.ok result, state)
  | error {fault other : Fault} (alike : fault.Alike other) (state : State) :
      Agree (.error fault, state) (.error other, state)

theorem results_alike_refl {Result : Type} (result : Except Fault Result) :
    ResultsAlike result result := by
  cases result with
  | ok result => exact .ok result
  | error fault => exact .error fault.alike_refl

theorem agree_refl {Result State : Type} (outcome : Except Fault Result × State) :
    Agree outcome outcome := by
  rcases outcome with ⟨fault | result, state⟩
  · exact .error fault.alike_refl state
  · exact .ok result state

/-- What goes on from two results is compared for a common one and for two alike faults. -/
@[elab_as_elim]
theorem ResultsAlike.elim {Result : Type} {first second : Except Fault Result}
    {holds : Except Fault Result → Except Fault Result → Prop} (alike : ResultsAlike first second)
    (ok : ∀ result, holds (.ok result) (.ok result))
    (error : ∀ fault other : Fault, fault.Alike other → holds (.error fault) (.error other)) :
    holds first second := by
  cases alike with
  | ok result => exact ok result
  | error alike => exact error _ _ alike

/-- What goes on from two steps is compared for a common ending and for two alike faults. -/
@[elab_as_elim]
theorem Agree.elim {Result State : Type} {first second : Except Fault Result × State}
    {holds : Except Fault Result × State → Except Fault Result × State → Prop}
    (agree : Agree first second) (ok : ∀ result state, holds (.ok result, state) (.ok result, state))
    (error : ∀ (fault other : Fault) state, fault.Alike other →
      holds (.error fault, state) (.error other, state)) : holds first second := by
  cases agree with
  | ok result state => exact ok result state
  | error alike state => exact error _ _ state alike

namespace Code

variable (scope : Scope) (line other : Nat)

theorem target_alike (operator : Operator) (operand : Operand) :
    ResultsAlike (operand.target scope operator line) (operand.target scope operator other) := by
  unfold Operand.target
  split
  · exact .error ⟨other, rfl⟩
  · split
    · exact .ok _
    · exact .error ⟨other, rfl⟩

theorem apply_agrees (operator : Operator) (stack : List Operand) (heap : Heap) :
    Agree (apply scope line operator stack heap) (apply scope other operator stack heap) := by
  have targets := target_alike scope line other
  unfold apply
  split
  · next value array rest =>
      exact (targets .push array).elim (fun handle => .ok _ _) fun _ _ alike => .error alike heap
  · next array rest =>
      exact (targets .pop array).elim (fun handle => .ok _ _) fun _ _ alike => .error alike heap
  · next finish start array rest =>
      exact (targets .slice array).elim (fun handle => .ok _ _) fun _ _ alike => .error alike heap
  · next amount start array rest =>
      exact (targets .splice array).elim (fun handle => .ok _ _) fun _ _ alike => .error alike heap
  · split
    · exact .error ⟨other, rfl⟩ heap
    · exact .ok _ heap
  · exact .error ⟨other, rfl⟩ heap

theorem run_agrees (items : List Item) (stack : List Operand) (heap : Heap) :
    Agree (run scope line items stack heap) (run scope other items stack heap) := by
  induction items generalizing stack heap with
  | nil => exact .ok stack heap
  | cons item rest ih =>
      cases item with
      | literal value => exact ih _ heap
      | reference name => exact ih _ heap
      | operator operator =>
          simp only [run]
          exact (apply_agrees scope line other operator stack heap).elim ih
            fun _ _ changed alike => .error alike changed

theorem evaluate_agrees (items : List Item) (heap : Heap) :
    Agree (evaluate scope line items heap) (evaluate scope other items heap) := by
  unfold evaluate
  refine (run_agrees scope line other items [] heap).elim ?_ ?_
  · intro stack changed
    match stack with
    | [operand] => exact .ok _ changed
    | [] | _ :: _ :: _ => exact .error ⟨other, rfl⟩ changed
  · intro fault raised changed alike
    exact .error alike changed

end Code

namespace Machine

/-- The step does the same for every line, but for the line its faults name. -/
def IgnoresLine {Result : Type} (step : Nat → Machine → Except Fault Result × Machine) : Prop :=
  ∀ line other machine, Agree (step line machine) (step other machine)

section

variable {answer : Answerer}
  (answers : ∀ capability arguments, IgnoresLine (answer capability arguments))
include answers

theorem compile_with_agrees (line other : Nat) (tokens : List String) (yard : Yard)
    (machine : Machine) :
    Agree (compileWith answer line tokens yard machine)
      (compileWith answer other tokens yard machine) := by
  fun_induction compileWith answer line tokens yard machine with
  | case1 yard machine items finished =>
      simp only [compileWith, finished]
      exact .ok items machine
  | case2 yard machine unfinished =>
      simp only [compileWith, unfinished]
      exact .error ⟨other, rfl⟩ machine
  | case3 yard machine token rest cause failed =>
      simp only [compileWith, failed]
      exact .error ⟨other, rfl⟩ machine
  | case4 yard machine token rest value found ih =>
      simpa only [compileWith, found] using ih
  | case5 yard machine token rest json found value loaded loading ih =>
      simpa only [compileWith, found, loading] using ih
  | case6 yard machine token rest name found ih =>
      simpa only [compileWith, found] using ih
  | case7 yard machine token rest operator found ih =>
      simpa only [compileWith, found] using ih
  | case8 yard machine token rest found ih =>
      simpa only [compileWith, found] using ih
  | case9 yard machine token rest found closed closing ih =>
      simpa only [compileWith, found, closing] using ih
  | case10 yard machine token rest found unclosed =>
      simp only [compileWith, found, unclosed]
      exact .error ⟨other, rfl⟩ machine
  | case11 yard machine token rest capability found few =>
      simp only [compileWith, found, few, if_true]
      exact .error ⟨other, rfl⟩ machine
  | case12 yard machine token rest capability found enough fault asked answered =>
      have agree := answers capability (rest.take capability.arity) line other machine
      rw [answered] at agree
      simp only [compileWith, found, enough, if_false]
      generalize answer capability (rest.take capability.arity) other machine = answered at agree
      cases agree with
      | error alike state => exact .error alike asked
  | case13 yard machine token rest capability found enough value asked answered ih =>
      have agree := answers capability (rest.take capability.arity) line other machine
      rw [answered] at agree
      simp only [compileWith, found, enough, if_false]
      generalize answer capability (rest.take capability.arity) other machine = answered at agree
      cases agree with
      | ok result state => exact ih

theorem evaluate_with_agrees (tokens : List String) : IgnoresLine (evaluateWith answer tokens) := by
  intro line other machine
  unfold evaluateWith
  refine (compile_with_agrees answers line other tokens .empty machine).elim ?_ ?_
  · intro items compiled
    cases items with
    | nil => exact agree_refl _
    | cons item rest =>
        simp only [runItems]
        exact (Code.evaluate_agrees compiled.scope line other (item :: rest) compiled.heap).elim
          (fun value changed => .ok value _) fun _ _ changed alike => .error alike _
  · intro fault raised compiled alike
    exact .error alike compiled

end

theorem answer_plain_agrees (capability : Capability) (arguments : List String) :
    IgnoresLine (answerPlain capability arguments) := by
  intro line other machine
  cases capability <;> exact .ok _ _

theorem argument_agrees (token : String) : IgnoresLine (argument token) :=
  evaluate_with_agrees answer_plain_agrees [token]

theorem answer_load_agrees (key : String) : IgnoresLine (answerLoad key) := by
  intro line other machine
  unfold answerLoad
  dsimp only
  split
  · exact .error ⟨other, rfl⟩ _
  · exact .ok _ _
  · exact .ok _ _

theorem answer_fetch_agrees (url : String) : IgnoresLine (answerFetch url) := by
  intro line other machine
  unfold answerFetch
  dsimp only
  split
  · exact .error ⟨other, rfl⟩ _
  · exact .ok _ _

theorem answer_all_agrees (capability : Capability) (arguments : List String) :
    IgnoresLine (answerAll capability arguments) := by
  intro line other machine
  have read (token : String) (start : Machine) := argument_agrees token line other start
  match capability, arguments with
  | .load, [key] =>
      simp only [answerAll]
      exact (read key machine).elim (fun value found => answer_load_agrees _ line other found)
        fun _ _ found alike => .error alike found
  | .fetch, [url] =>
      simp only [answerAll]
      exact (read url machine).elim (fun value found => answer_fetch_agrees _ line other found)
        fun _ _ found alike => .error alike found
  | .round, [number] =>
      simp only [answerAll]
      exact (read number machine).elim (fun value found => .ok _ found)
        fun _ _ found alike => .error alike found
  | .random, [least, greatest] =>
      simp only [answerAll]
      refine (read least machine).elim ?_ ?_
      · intro lower found
        dsimp only
        exact (read greatest found).elim (fun upper both => .ok _ _)
          fun _ _ both alike => .error alike both
      · intro fault raised found alike
        exact .error alike found
  | .elapsed, _ | .width, _ | .height, _ => exact agree_refl _
  | .load, [] | .load, _ :: _ :: _ | .fetch, [] | .fetch, _ :: _ :: _ | .round, []
  | .round, _ :: _ :: _ | .random, [] | .random, [_] | .random, _ :: _ :: _ :: _ =>
      exact agree_refl _

theorem evaluate_agrees (tokens : List String) : IgnoresLine (evaluate tokens) :=
  evaluate_with_agrees answer_all_agrees tokens

end Machine

end ScriptSandbox
