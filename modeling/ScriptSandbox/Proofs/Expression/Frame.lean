import ScriptSandbox.Expression.Compile

/-!
What the evaluation of an expression can do to its machine. It may change the heap and it may put
questions to the host. The scope in force and the control state stay as they were, and nothing is
written, drawn or saved.
-/

namespace ScriptSandbox

/-- Whether an event only tells the script something. -/
def Event.isQuestion : Event → Bool
  | .request _ | .load _ | .readClock | .draw => true
  | _ => false

namespace Machine

/-- A relation of machines that loading data and asking the host keep, from one step to the next. -/
structure Carried (relation : Machine → Machine → Prop) : Prop where
  refl : ∀ machine, relation machine machine
  trans : ∀ {first second third}, relation first second → relation second third →
    relation first third
  load : ∀ machine json, relation machine (machine.load json).2
  ask : ∀ (machine : Machine) (host : Host) (event : Event),
    host.events = machine.host.events.push event → event.isQuestion = true →
    host.store = machine.host.store → relation machine { machine with host }

namespace Carried

variable {relation : Machine → Machine → Prop} (carried : Carried relation)
include carried

/-- Compiling is carried over when the answers to the capabilities are. -/
theorem compile_with {answer : Answerer}
    (answers : ∀ capability arguments line machine,
      relation machine (answer capability arguments line machine).2)
    (line : Nat) (tokens : List String) (yard : Yard) (machine : Machine) :
    relation machine (compileWith answer line tokens yard machine).2 := by
  fun_induction compileWith answer line tokens yard machine with
  | case1 | case2 | case3 | case10 | case11 => exact carried.refl _
  | case4 _ _ _ _ _ _ ih | case6 _ _ _ _ _ _ ih | case7 _ _ _ _ _ _ ih => exact ih
  | case8 _ _ _ _ _ ih | case9 _ _ _ _ _ _ _ ih => exact ih
  | case5 yard machine token rest json found value loaded loading ih =>
      have loads := carried.load machine json
      rw [loading] at loads
      exact carried.trans loads ih
  | case12 yard machine token rest capability found enough fault asked answered =>
      have asks := answers capability (rest.take capability.arity) line machine
      rw [answered] at asks
      exact asks
  | case13 yard machine token rest capability found enough value asked answered ih =>
      have asks := answers capability (rest.take capability.arity) line machine
      rw [answered] at asks
      exact carried.trans asks ih

theorem answer_plain (capability : Capability) (arguments : List String) (line : Nat)
    (machine : Machine) : relation machine (answerPlain capability arguments line machine).2 := by
  cases capability
  case elapsed => exact carried.ask machine machine.host.readClock.2 .readClock rfl rfl rfl
  all_goals exact carried.refl machine

theorem answer_load (key : String) (line : Nat) (machine : Machine) :
    relation machine (answerLoad key line machine).2 := by
  have asked := carried.ask machine (machine.host.load key).2 (.load key) rfl rfl rfl
  unfold answerLoad
  dsimp only
  split
  · exact asked
  · exact asked
  · exact carried.trans asked (carried.load _ _)

theorem answer_fetch (url : String) (line : Nat) (machine : Machine) :
    relation machine (answerFetch url line machine).2 := by
  have asked := carried.ask machine (machine.host.request url).2 (.request url) rfl rfl rfl
  unfold answerFetch
  dsimp only
  split
  · exact asked
  · next response _ => exact carried.trans asked (carried.load _ response.toJson)

theorem answer_random (least greatest : Value) (machine : Machine) :
    relation machine (answerRandom least greatest machine).2 :=
  carried.ask machine machine.host.draw.2 .draw rfl rfl rfl

/-- Answering is carried over when the evaluation of single arguments is. -/
theorem answer_all
    (reads : ∀ token line machine, relation machine (argument token line machine).2)
    (capability : Capability) (arguments : List String) (line : Nat) (machine : Machine) :
    relation machine (answerAll capability arguments line machine).2 := by
  unfold answerAll
  split
  · next key =>
      have asked := reads key line machine
      split
      · next found => rwa [found] at asked
      · next found =>
          rw [found] at asked
          exact carried.trans asked (carried.answer_load _ line _)
  · next url =>
      have asked := reads url line machine
      split
      · next found => rwa [found] at asked
      · next found =>
          rw [found] at asked
          exact carried.trans asked (carried.answer_fetch _ line _)
  · next number =>
      have asked := reads number line machine
      split
      · next found => rwa [found] at asked
      · next found => rwa [found] at asked
  · next least greatest =>
      have askedLeast := reads least line machine
      split
      · next found => rwa [found] at askedLeast
      · next first read found =>
          rw [found] at askedLeast
          have askedGreatest := reads greatest line read
          split
          · next second =>
              rw [second] at askedGreatest
              exact carried.trans askedLeast askedGreatest
          · next last both second =>
              rw [second] at askedGreatest
              apply carried.trans (carried.trans askedLeast askedGreatest)
              exact carried.answer_random first last both
  · exact carried.answer_plain _ _ _ _

end Carried

/-- The second machine comes from the first by changes to the heap and questions to the host. -/
structure Asks (before after : Machine) : Prop where
  scope : after.scope = before.scope
  control : after.control = before.control
  events : ∃ questions : List Event,
    after.host.events.toList = before.host.events.toList ++ questions ∧
      ∀ event ∈ questions, event.isQuestion = true

theorem asks_refl (machine : Machine) : Asks machine machine :=
  ⟨rfl, rfl, [], by simp, by simp⟩

theorem Asks.trans {first second third : Machine} (before : Asks first second)
    (after : Asks second third) : Asks first third := by
  obtain ⟨earlier, earlierEvents, earlierQuestions⟩ := before.events
  obtain ⟨later, laterEvents, laterQuestions⟩ := after.events
  refine ⟨after.scope.trans before.scope, after.control.trans before.control,
    earlier ++ later, ?_, ?_⟩
  · rw [laterEvents, earlierEvents, List.append_assoc]
  · intro event member
    rcases List.mem_append.mp member with old | new
    · exact earlierQuestions event old
    · exact laterQuestions event new

theorem asks_heap (machine : Machine) (heap : Heap) : Asks machine { machine with heap } :=
  ⟨rfl, rfl, [], by simp, by simp⟩

theorem asks_host (machine : Machine) (host : Host) (event : Event)
    (recorded : host.events = machine.host.events.push event)
    (question : event.isQuestion = true) : Asks machine { machine with host } := by
  refine ⟨rfl, rfl, [event], ?_, ?_⟩
  · rw [recorded, Array.toList_push]
  · intro other member
    rw [List.mem_singleton.mp member]
    exact question

theorem asks_carried : Carried Asks where
  refl := asks_refl
  trans := Asks.trans
  load machine _ := asks_heap machine _
  ask machine host event recorded question _ := asks_host machine host event recorded question

theorem evaluate_with_asks {answer : Answerer}
    (answers : ∀ capability arguments line machine,
      Asks machine (answer capability arguments line machine).2)
    (tokens : List String) (line : Nat) (machine : Machine) :
    Asks machine (evaluateWith answer tokens line machine).2 := by
  have compiling := asks_carried.compile_with answers line tokens .empty machine
  unfold evaluateWith
  split
  · next found => rwa [found] at compiling
  · next found => rwa [found] at compiling
  · next found =>
      rw [found] at compiling
      exact compiling.trans (asks_heap _ _)

theorem argument_asks (token : String) (line : Nat) (machine : Machine) :
    Asks machine (argument token line machine).2 :=
  evaluate_with_asks asks_carried.answer_plain [token] line machine

theorem answer_all_asks (capability : Capability) (arguments : List String) (line : Nat)
    (machine : Machine) : Asks machine (answerAll capability arguments line machine).2 :=
  asks_carried.answer_all argument_asks capability arguments line machine

theorem asks_of_answered {capability : Capability} {arguments : List String} {line : Nat}
    {machine next : Machine} {result : Except Fault Value}
    (answered : answerAll capability arguments line machine = (result, next)) :
    Asks machine next := by
  have asks := answer_all_asks capability arguments line machine
  rwa [answered] at asks

theorem evaluate_asks (tokens : List String) (line : Nat) (machine : Machine) :
    Asks machine (machine.evaluate tokens line).2 :=
  evaluate_with_asks answer_all_asks tokens line machine

end Machine

end ScriptSandbox
