import ScriptSandbox.Expression.Compile

/-!
Expressions look neither at the control state nor at what was written before. Evaluated under another
depth count, ceiling or halt payload, or behind other events, an expression has the same value, and
the machine afterwards differs in nothing else.
-/

namespace ScriptSandbox.Machine

/-- The step does the same on a changed machine and leaves the change in place. -/
def Ignores {Result : Type} (change : Machine → Machine) (step : Machine → Result × Machine) : Prop :=
  ∀ machine, step (change machine) = ((step machine).1, change (step machine).2)

/-- Puts a question to the host. -/
def ask {Result : Type} (question : Host → Result × Host) (machine : Machine) : Result × Machine :=
  ((question machine.host).1, { machine with host := (question machine.host).2 })

def withHeap (machine : Machine) (heap : Heap) : Machine :=
  { machine with heap }

/-- A change of machines that concerns nothing an expression works with. -/
structure Unseen (change : Machine → Machine) : Prop where
  scope : ∀ machine, (change machine).scope = machine.scope
  heap : ∀ machine, (change machine).heap = machine.heap
  width : ∀ machine, (change machine).host.width = machine.host.width
  height : ∀ machine, (change machine).host.height = machine.host.height
  startedAt : ∀ machine, (change machine).startedAt = machine.startedAt
  replaced : ∀ machine heap, (change machine).withHeap heap = change (machine.withHeap heap)
  clock : Ignores change (ask Host.readClock)
  store : ∀ key, Ignores change (ask (Host.load · key))
  network : ∀ url, Ignores change (ask (Host.request · url))
  random : Ignores change (ask Host.draw)

namespace Unseen

variable {change : Machine → Machine} (unseen : Unseen change)
include unseen

theorem load (machine : Machine) (json : Json) :
    (change machine).load json = ((machine.load json).1, change (machine.load json).2) := by
  have same (machine : Machine) : machine.load json =
      ((machine.heap.load json).1, machine.withHeap (machine.heap.load json).2) := rfl
  rw [same, same, unseen.heap, unseen.replaced]

theorem run_items (line : Nat) (items : List Item) : Ignores change (runItems line items) := by
  intro machine
  have same (machine : Machine) : runItems line items machine =
      ((Code.evaluate machine.scope line items machine.heap).1,
        machine.withHeap (Code.evaluate machine.scope line items machine.heap).2) := rfl
  rw [same, same, unseen.scope, unseen.heap, unseen.replaced]

theorem compile_with {answer : Answerer}
    (answers : ∀ capability arguments line, Ignores change (answer capability arguments line))
    (line : Nat) (tokens : List String) (yard : Yard) :
    Ignores change (compileWith answer line tokens yard) := by
  intro machine
  fun_induction compileWith answer line tokens yard machine with
  | case1 yard machine items finished => simp only [compileWith, finished]
  | case2 yard machine unfinished => simp only [compileWith, unfinished]
  | case3 yard machine token rest cause failed => simp only [compileWith, unseen.scope, failed]
  | case4 yard machine token rest value found ih => simp only [compileWith, unseen.scope, found, ih]
  | case5 yard machine token rest json found value loaded loading ih =>
      simp only [compileWith, unseen.scope, found, unseen.load machine json, loading, ih]
  | case6 yard machine token rest name found ih => simp only [compileWith, unseen.scope, found, ih]
  | case7 yard machine token rest operator found ih => simp only [compileWith, unseen.scope, found, ih]
  | case8 yard machine token rest found ih => simp only [compileWith, unseen.scope, found, ih]
  | case9 yard machine token rest found closed closing ih =>
      simp only [compileWith, unseen.scope, found, closing, ih]
  | case10 yard machine token rest found unclosed =>
      simp only [compileWith, unseen.scope, found, unclosed]
  | case11 yard machine token rest capability found few =>
      simp only [compileWith, unseen.scope, found, few, if_true]
  | case12 yard machine token rest capability found enough fault asked answered =>
      simp only [compileWith, unseen.scope, found, enough, if_false, answers _ _ _ machine, answered]
  | case13 yard machine token rest capability found enough value asked answered ih =>
      simp only [compileWith, unseen.scope, found, enough, if_false, answers _ _ _ machine, answered,
        ih]

theorem evaluate_with {answer : Answerer}
    (answers : ∀ capability arguments line, Ignores change (answer capability arguments line))
    (tokens : List String) (line : Nat) : Ignores change (evaluateWith answer tokens line) := by
  intro machine
  unfold evaluateWith
  rw [unseen.compile_with answers line tokens .empty machine]
  obtain ⟨result, compiled⟩ := compileWith answer line tokens .empty machine
  match result with
  | .error fault => rfl
  | .ok [] => rfl
  | .ok (item :: items) => exact unseen.run_items line (item :: items) compiled

theorem answer_plain (capability : Capability) (arguments : List String) (line : Nat) :
    Ignores change (answerPlain capability arguments line) := by
  intro machine
  cases capability with
  | elapsed =>
      have clock := unseen.clock machine
      have same (machine : Machine) : answerPlain .elapsed arguments line machine =
          (.ok (.number ((ask Host.readClock machine).1 - machine.startedAt)),
            (ask Host.readClock machine).2) := rfl
      rw [same, same, clock, unseen.startedAt]
  | width => rw [answerPlain, answerPlain, unseen.width]
  | height => rw [answerPlain, answerPlain, unseen.height]
  | _ => rfl

theorem argument (token : String) (line : Nat) : Ignores change (argument token line) :=
  unseen.evaluate_with unseen.answer_plain [token] line

theorem answer_load (key : String) (line : Nat) : Ignores change (answerLoad key line) := by
  intro machine
  have same (machine : Machine) : answerLoad key line machine =
      match ask (Host.load · key) machine with
      | (.error cause, next) => (.error (.refused line (.load key cause)), next)
      | (.ok none, next) => (.ok .null, next)
      | (.ok (some json), next) => (.ok (next.load json).1, (next.load json).2) := by
    rw [answerLoad, ask]
    rcases machine.host.load key with ⟨cause | _ | json, asked⟩ <;> rfl
  rw [same, same, unseen.store key machine]
  obtain ⟨found, next⟩ := ask (Host.load · key) machine
  match found with
  | .error cause => rfl
  | .ok none => rfl
  | .ok (some json) =>
      dsimp only
      rw [unseen.load next json]

theorem answer_fetch (url : String) (line : Nat) : Ignores change (answerFetch url line) := by
  intro machine
  have same (machine : Machine) : answerFetch url line machine =
      match ask (Host.request · url) machine with
      | (none, next) => (.error (.refused line (.fetch url)), next)
      | (some response, next) =>
          (.ok (next.load response.toJson).1, (next.load response.toJson).2) := by
    rw [answerFetch, ask]
    rcases machine.host.request url with ⟨_ | response, asked⟩ <;> rfl
  rw [same, same, unseen.network url machine]
  obtain ⟨found, next⟩ := ask (Host.request · url) machine
  match found with
  | none => rfl
  | some response =>
      dsimp only
      rw [unseen.load next response.toJson]

theorem answer_random (least greatest : Value) : Ignores change (answerRandom least greatest) := by
  intro machine
  have same (machine : Machine) : answerRandom least greatest machine =
      (Operator.plus.apply machine.heap (.number ((ask Host.draw machine).1 *
        (machine.heap.numberOf greatest - machine.heap.numberOf least + Number.one))) least,
        (ask Host.draw machine).2) := rfl
  rw [same, same, unseen.random machine, unseen.heap]

theorem answer_all (capability : Capability) (arguments : List String) (line : Nat) :
    Ignores change (answerAll capability arguments line) := by
  intro machine
  match capability, arguments with
  | .load, [key] =>
      simp only [answerAll]
      rw [unseen.argument key line machine]
      obtain ⟨result, read⟩ := Machine.argument key line machine
      cases result with
      | error fault => rfl
      | ok value =>
          dsimp only
          rw [unseen.heap]
          exact unseen.answer_load _ line read
  | .fetch, [url] =>
      simp only [answerAll]
      rw [unseen.argument url line machine]
      obtain ⟨result, read⟩ := Machine.argument url line machine
      cases result with
      | error fault => rfl
      | ok value =>
          dsimp only
          rw [unseen.heap]
          exact unseen.answer_fetch _ line read
  | .round, [number] =>
      simp only [answerAll]
      rw [unseen.argument number line machine]
      obtain ⟨result, read⟩ := Machine.argument number line machine
      cases result with
      | error fault => rfl
      | ok value =>
          dsimp only
          rw [unseen.heap]
  | .random, [least, greatest] =>
      simp only [answerAll]
      rw [unseen.argument least line machine]
      obtain ⟨result, read⟩ := Machine.argument least line machine
      cases result with
      | error fault => rfl
      | ok first =>
          dsimp only
          rw [unseen.argument greatest line read]
          obtain ⟨result, both⟩ := Machine.argument greatest line read
          cases result with
          | error fault => rfl
          | ok second =>
              dsimp only
              rw [unseen.answer_random first second both]
  | .elapsed, arguments | .width, arguments | .height, arguments =>
      simp only [answerAll]
      exact unseen.answer_plain _ arguments line machine
  | .load, [] | .load, _ :: _ :: _ | .fetch, [] | .fetch, _ :: _ :: _ | .round, []
  | .round, _ :: _ :: _ | .random, [] | .random, [_] | .random, _ :: _ :: _ :: _ => rfl

theorem evaluate (tokens : List String) (line : Nat) : Ignores change (evaluate tokens line) :=
  unseen.evaluate_with unseen.answer_all tokens line

end Unseen

def withControl (machine : Machine) (control : Control) : Machine :=
  { machine with control }

theorem unseen_control (control : Control) : Unseen (withControl · control) where
  scope _ := rfl
  heap _ := rfl
  width _ := rfl
  height _ := rfl
  startedAt _ := rfl
  replaced _ _ := rfl
  clock _ := rfl
  store _ _ := rfl
  network _ _ := rfl
  random _ := rfl

theorem evaluate_with_control (tokens : List String) (line : Nat) (machine : Machine)
    (control : Control) : (machine.withControl control).evaluate tokens line =
      ((machine.evaluate tokens line).1, (machine.evaluate tokens line).2.withControl control) :=
  (unseen_control control).evaluate tokens line machine

/-- The machine with other events before its own. -/
def behind (machine : Machine) (earlier : Array Event) : Machine :=
  { machine with host := { machine.host with events := earlier ++ machine.host.events } }

theorem unseen_events (earlier : Array Event) : Unseen (behind · earlier) where
  scope _ := rfl
  heap _ := rfl
  width _ := rfl
  height _ := rfl
  startedAt _ := rfl
  replaced _ _ := rfl
  clock machine := by simp only [ask, behind, Host.readClock, Host.record, Array.append_push]
  store key machine := by simp only [ask, behind, Host.load, Host.record, Array.append_push]
  network url machine := by simp only [ask, behind, Host.request, Host.record, Array.append_push]
  random machine := by simp only [ask, behind, Host.draw, Host.record, Array.append_push]

theorem evaluate_behind (tokens : List String) (line : Nat) (machine : Machine)
    (earlier : Array Event) : (machine.behind earlier).evaluate tokens line =
      ((machine.evaluate tokens line).1, (machine.evaluate tokens line).2.behind earlier) :=
  (unseen_events earlier).evaluate tokens line machine

end ScriptSandbox.Machine
