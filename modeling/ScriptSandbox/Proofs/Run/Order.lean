import ScriptSandbox.Proofs.Run.Depth
import ScriptSandbox.Proofs.Run.Later
import ScriptSandbox.Proofs.Run.Onward

/-!
The statements of a run are executed in an order in time. Of two of them, the one is executed inside
the other, or the one has ended when the other starts; in each case steps lead from the earlier
moment to the later one, in and out of calls.
-/

namespace ScriptSandbox

open Machine

namespace Interpreter

/-- The statement, executed on the machine, has ended when the later machine is come to. -/
def EndsBefore (execute : Executor) (statement : Statement) (machine later : Machine) : Prop :=
  ∃ result next, execute statement machine = some (result, next) ∧ next.Later later

/-- Two executions of statements are one and the same, or one has ended when the other starts. -/
def InTurn (execute : Executor) (first : Statement) (start : Machine) (second : Statement)
    (other : Machine) : Prop :=
  (first = second ∧ start = other) ∨ EndsBefore execute first start other ∨
    EndsBefore execute second other start

theorem EndsBefore.trans {execute : Executor} {statement : Statement} {machine middle later : Machine}
    (ends : EndsBefore execute statement machine middle) (after : middle.Later later) :
    EndsBefore execute statement machine later := by
  rcases ends with ⟨result, next, executed, goes⟩
  exact ⟨result, next, executed, goes.trans after⟩

theorem EndsAhead.before {execute : Executor} {statement : Statement} {machine later : Machine}
    (ends : EndsAhead execute Later statement machine later) :
    EndsBefore execute statement machine later := by
  rcases ends with ⟨result, next, executed, goes⟩
  have reported : next.Later (next.reporting result) := by
    cases result <;> exact later_of_same rfl rfl
  exact ⟨result, next, executed, reported.trans goes⟩

section

variable {execute : Executor} (goes : ∀ statement, GoesOn (execute statement))
include goes

theorem later_onward : Onward execute Later where
  refl _ := later_of_same rfl rfl
  trans := Later.trans
  body := run_body_later goes
  statements := run_statements_later goes
  passes := run_passes_later goes
  holds := run_while_holds_later goes

theorem body_comes_to_later {body : List Statement} {start machine : Machine}
    {statement : Statement} (comes : BodyComesTo execute body start statement machine) :
    start.Later machine := by
  rcases comes with ⟨before, after, -, ran, -⟩
  exact run_body_later goes ran

theorem body_ends {body : List Statement} {start machine final : Machine} {statement : Statement}
    {flow : Flow} (comes : BodyComesTo execute body start statement machine)
    (ran : runBody execute body start = some (flow, final)) :
    EndsBefore execute statement machine final :=
  ((later_onward goes).body_ends comes ran).before

theorem body_in_turn {body : List Statement} {start machine other : Machine}
    {first second : Statement} (one : BodyComesTo execute body start first machine)
    (two : BodyComesTo execute body start second other) :
    InTurn execute first machine second other := by
  induction body generalizing start with
  | nil => exact absurd one body_comes_to_nil
  | cons head rest ih =>
      rcases body_comes_to_cons.mp one with ⟨-, here | ⟨middle, executed, later⟩⟩
      · rcases body_comes_to_cons.mp two with ⟨-, there | ⟨middle, executed, later⟩⟩
        · exact .inl ⟨here.1.trans there.1.symm, here.2.trans there.2.symm⟩
        · rw [here.1, here.2]
          exact .inr (.inl ⟨_, middle, executed, body_comes_to_later goes later⟩)
      · rcases body_comes_to_cons.mp two with ⟨-, there | ⟨again, executedAgain, laterToo⟩⟩
        · rw [there.1, there.2]
          exact .inr (.inr ⟨_, middle, executed, body_comes_to_later goes later⟩)
        · cases executed.symm.trans executedAgain
          exact ih later laterToo

theorem loop_pass_later {body : List Statement} {count passes : Number} {machine start : Machine}
    (pass : LoopPass execute body count passes machine start) : machine.Later start :=
  loop_pass_keeps later_composes (fun statement _ => goes statement) pass

theorem loop_in_turn {body : List Statement} {count passes : Number}
    {machine start startToo inner other : Machine} {first second : Statement}
    (pass : LoopPass execute body count passes machine start)
    (passToo : LoopPass execute body count passes machine startToo)
    (one : BodyComesTo execute body start first inner)
    (two : BodyComesTo execute body startToo second other) :
    InTurn execute first inner second other := by
  induction pass with
  | here =>
      rcases passToo.cases.2.2 with same | ⟨flow, middle, ran, later⟩
      · rw [same] at two
        exact body_in_turn goes one two
      · have after := (loop_pass_later goes later).trans (body_comes_to_later goes two)
        exact .inr (.inl ((body_ends goes one ran).trans after))
  | later _ _ ran pass ih =>
      rcases passToo.cases.2.2 with same | ⟨flow, middle, ranAgain, later⟩
      · rw [same] at two
        have after := (loop_pass_later goes pass).trans (body_comes_to_later goes one)
        exact .inr (.inr ((body_ends goes two ran).trans after))
      · cases ran.symm.trans ranAgain
        exact ih later one

theorem while_pass_later {condition : List String} {line : Nat} {body : List Statement}
    {machine start : Machine} (pass : WhilePass execute condition line body machine start) :
    machine.Later start := by
  induction pass with
  | here _ evaluated _ => exact evaluate_later evaluated
  | later _ evaluated _ ran _ ih =>
      exact ((evaluate_later evaluated).trans (run_body_later goes ran)).trans ih

theorem while_in_turn {condition : List String} {line : Nat} {body : List Statement}
    {machine start startToo inner other : Machine} {first second : Statement}
    (pass : WhilePass execute condition line body machine start)
    (passToo : WhilePass execute condition line body machine startToo)
    (one : BodyComesTo execute body start first inner)
    (two : BodyComesTo execute body startToo second other) :
    InTurn execute first inner second other := by
  induction pass with
  | here _ evaluated _ =>
      rcases passToo.cases with ⟨-, _, _, again, -, same | ⟨flow, middle, ran, later⟩⟩
      · cases evaluated.symm.trans again
        rw [same] at two
        exact body_in_turn goes one two
      · cases evaluated.symm.trans again
        have after := (while_pass_later goes later).trans (body_comes_to_later goes two)
        exact .inr (.inl ((body_ends goes one ran).trans after))
  | later _ evaluated _ ran pass ih =>
      rcases passToo.cases with ⟨-, _, _, again, -, same | ⟨flow, middle, ranAgain, later⟩⟩
      · cases evaluated.symm.trans again
        rw [same] at two
        have after := (while_pass_later goes pass).trans (body_comes_to_later goes one)
        exact .inr (.inr ((body_ends goes two ran).trans after))
      · cases evaluated.symm.trans again
        cases ran.symm.trans ranAgain
        exact ih later one

/-- The first of some statements has ended when all have. -/
theorem first_ends {statement : Statement} {rest : List Statement} {machine final : Machine}
    (running : machine.isHalted = false)
    (ran : runStatements execute (statement :: rest) machine = some final) :
    EndsBefore execute statement machine final :=
  ((later_onward goes).first_ends running ran).before

theorem program_comes_to_later {source : String} {start machine : Machine} {statement : Statement}
    (comes : ProgramComesTo execute source start statement machine) : start.Later machine := by
  rcases comes with ⟨before, after, -, ran, -⟩
  exact run_statements_later goes ran

theorem program_ends {source : String} {start machine final : Machine} {statement : Statement}
    (comes : ProgramComesTo execute source start statement machine)
    (ran : runProgram execute source start = some final) :
    EndsBefore execute statement machine final :=
  ((later_onward goes).program_ends comes ran).before

theorem program_in_turn {source : String} {start machine other : Machine}
    {first second : Statement} (one : ProgramComesTo execute source start first machine)
    (two : ProgramComesTo execute source start second other) :
    InTurn execute first machine second other := by
  rcases one with ⟨before, after, parsed, ran, running⟩
  rcases two with ⟨beforeToo, afterToo, parsedToo, ranToo, runningToo⟩
  have same := Except.ok.inj (parsed.symm.trans parsedToo)
  rcases List.append_eq_append_iff.mp same with ⟨between, split, rest⟩ | ⟨between, split, rest⟩
  · rw [split, run_statements_append ran running] at ranToo
    cases between with
    | nil =>
        cases ranToo
        cases rest
        exact .inl ⟨rfl, rfl⟩
    | cons head between =>
        cases rest
        exact .inr (.inl (first_ends goes running ranToo))
  · rw [split, run_statements_append ranToo runningToo] at ran
    cases between with
    | nil =>
        cases ran
        cases rest
        exact .inl ⟨rfl, rfl⟩
    | cons head between =>
        cases rest
        exact .inr (.inr (first_ends goes runningToo ran))

end

/-- Arguments are evaluated in the caller's scope, which stays as it is. -/
theorem bind_arguments_scope {line : Nat} {parameters : List String}
    {arguments : List (List String)} {frame : Scope} {machine next : Machine}
    {result : Except Fault Scope}
    (bound : bindArguments line parameters arguments frame machine = (result, next)) :
    next.scope = machine.scope := by
  induction parameters generalizing arguments frame machine with
  | nil =>
      cases bound
      rfl
  | cons parameter parameters ih =>
      cases arguments with
      | nil => exact ih bound
      | cons tokens arguments =>
          have asks := evaluate_asks tokens line machine
          unfold bindArguments at bound
          split at bound
          · next evaluated =>
              cases bound
              rw [evaluated] at asks
              exact asks.scope
          · next evaluated =>
              rw [evaluated] at asks
              exact (ih bound).trans asks.scope

end Interpreter

open Interpreter

/-- The scopes of the callers inside an entry. -/
def Activation.callersInside (activation : Activation) (caller : Scope) (callers : List Scope) :
    List Scope :=
  match activation with
  | .call .. => caller :: callers
  | _ => callers

section

variable {execute : Executor} (goes : ∀ statement, GoesOn (execute statement))
include goes

theorem Activation.comes_to_leads {activation : Activation} {line : Nat}
    {entered machine : Machine} {statement : Statement}
    (comes : activation.ComesTo execute line entered statement machine) (callers : List Scope) :
    Leads callers entered (activation.callersInside entered.scope callers) machine := by
  cases activation with
  | ifBlock body => exact body_comes_to_later goes comes callers
  | loopBlock body count =>
      rcases comes with ⟨start, pass, comes⟩
      exact ((loop_pass_later goes pass).trans (body_comes_to_later goes comes)) callers
  | whileBlock body condition =>
      rcases comes with ⟨start, pass, comes⟩
      exact ((while_pass_later goes pass).trans (body_comes_to_later goes comes)) callers
  | call function arguments =>
      rcases comes with ⟨frame, bound, binding, comes⟩
      have called := call_leads binding callers
      rw [bind_arguments_scope binding] at called
      exact called.trans (body_comes_to_later goes comes _)

/-- A statement executed inside an entry has ended when the entry has. -/
theorem Activation.inside_ends {activation : Activation} {fuel line : Nat}
    {entered machine final : Machine} {statement : Statement} {result : Except Fault Unit}
    (comes : activation.ComesTo execute line entered statement machine)
    (ran : activation.inside execute fuel line entered = some (result, final))
    (callers : List Scope) :
    ∃ outcome next, execute statement machine = some (outcome, next) ∧
      Leads (activation.callersInside entered.scope callers) next callers final := by
  rcases (later_onward goes).inside_ends comes ran with
    ⟨last, ends, ⟨other, same⟩ | ⟨function, arguments, frame, bound, call, binding, same⟩⟩
  · rcases ends.before with ⟨outcome, next, executed, later⟩
    refine ⟨outcome, next, executed, ?_⟩
    have inside : activation.callersInside entered.scope callers = callers := by
      cases activation with
      | call function arguments => exact absurd rfl (other function arguments)
      | _ => rfl
    rw [same, inside]
    exact later callers
  · rcases ends.before with ⟨outcome, next, executed, later⟩
    refine ⟨outcome, next, executed, ?_⟩
    rw [call, same, bind_arguments_scope binding]
    exact (later _).trans (return_leads last entered.scope callers)

theorem Activation.in_turn {activation : Activation} {line : Nat}
    {entered machine other : Machine} {first second : Statement}
    (one : activation.ComesTo execute line entered first machine)
    (two : activation.ComesTo execute line entered second other) :
    InTurn execute first machine second other := by
  cases activation with
  | ifBlock body => exact body_in_turn goes one two
  | loopBlock body count =>
      rcases one with ⟨start, pass, one⟩
      rcases two with ⟨startToo, passToo, two⟩
      exact loop_in_turn goes pass passToo one two
  | whileBlock body condition =>
      rcases one with ⟨start, pass, one⟩
      rcases two with ⟨startToo, passToo, two⟩
      exact while_in_turn goes pass passToo one two
  | call function arguments =>
      rcases one with ⟨frame, bound, binding, one⟩
      rcases two with ⟨frameToo, boundToo, bindingToo, two⟩
      cases binding.symm.trans bindingToo
      exact body_in_turn goes one two

end

/-- A statement about to be executed, in a call of some callers. -/
structure Spot where
  callers : List Scope
  point : Point

namespace Spot

/-- Executing the one spot executes the other, with nothing between them. -/
inductive Opens : Spot → Spot → Prop
  | entered {callers : List Scope} {outer inner : Point} {activation : Activation}
      (enters : outer.Enters activation inner) :
      Opens ⟨callers, outer⟩ ⟨activation.callersInside outer.machine.scope callers, inner⟩
  | nested {callers : List Scope} {outer inner : Point} (nests : outer.Nests inner) :
      Opens ⟨callers, outer⟩ ⟨callers, inner⟩

abbrev Inside : Spot → Spot → Prop := Relation.ReflTransGen Opens

def Leads (first later : Spot) : Prop :=
  Machine.Leads first.callers first.point.machine later.callers later.point.machine

/-- The first spot has been executed when the later one is come to. -/
def Over (first later : Spot) : Prop :=
  ∃ result next, first.point.outcome = some (result, next) ∧
    Machine.Leads first.callers next later.callers later.point.machine

end Spot

theorem Statement.Requests.scope {statement : Statement} {machine ready : Machine}
    {activation : Activation} (requests : statement.Requests machine activation ready) :
    ready.scope = machine.scope := by
  have asked {opening : Nat} {value : Value}
      (head : statement.HasHead machine opening value ready) : ready.scope = machine.scope := by
    have asks := Machine.evaluate_asks (statement.arguments.take opening) statement.line machine
    rw [head.evaluated] at asks
    exact asks.scope
  cases requests with
  | ifBlock _ head | loopBlock _ head | whileBlock _ head => exact asked head
  | call => rfl

theorem Statement.Requests.not_nests {statement : Statement} {machine ready other : Machine}
    {activation : Activation} {source : String}
    (requests : statement.Requests machine activation ready) :
    ¬statement.Nests machine source other := by
  intro nests
  cases requests with
  | ifBlock named | loopBlock named | whileBlock named | call named =>
      cases named.symm.trans nests.named

theorem Statement.Nests.unique {statement : Statement} {machine ready other : Machine}
    {source text : String} (nests : statement.Nests machine source ready)
    (again : statement.Nests machine text other) : source = text ∧ ready = other := by
  rcases nests.evaluated with ⟨value, -, same, evaluated⟩
  rcases again.evaluated with ⟨found, -, sameToo, evaluatedToo⟩
  cases evaluated.symm.trans evaluatedToo
  exact ⟨same.trans sameToo.symm, rfl⟩

namespace Spot

theorem opens_leads {outer inner : Spot} (opens : outer.Opens inner) : outer.Leads inner := by
  cases opens with
  | @entered callers _ _ activation enters =>
      cases enters with
      | @intro fuel outer inner machine ready entered start _ requests admitted comes =>
          rcases enter_cases admitted with ⟨-, same⟩
          have entering : ready.Later entered := by
            rw [same]
            exact later_of_same rfl rfl
          have scope : entered.scope = machine.scope := by
            rw [same]
            exact requests.scope
          have within := Activation.comes_to_leads (execute_goes_on _) comes callers
          rw [scope] at within
          exact ((requests.later.trans entering) callers).trans within
  | @nested callers _ _ nests =>
      cases nests with
      | @intro fuel outer inner machine ready start source nests comes =>
          have entering : ready.Later { ready with control := ready.control.setDepth 0 } :=
            later_of_same rfl rfl
          have within := program_comes_to_later (execute_goes_on _) comes
          exact ((nests.later.trans entering).trans within) callers

/-- What is executed inside has ended when the whole has. -/
theorem opens_ends {outer inner : Spot} {result : Except Fault Flow} {next : Machine}
    (opens : outer.Opens inner) (ended : outer.point.outcome = some (result, next)) :
    ∃ found final, inner.point.outcome = some (found, final) ∧
      Machine.Leads inner.callers final outer.callers next := by
  cases opens with
  | @entered callers _ _ activation enters =>
      cases enters with
      | @intro fuel outer inner machine ready entered start _ requests admitted comes =>
          rcases enter_cases admitted with ⟨below, same⟩
          have scope : entered.scope = machine.scope := by
            rw [same]
            exact requests.scope
          have ran : execute (fuel + 1 + 1) outer machine = some (result, next) := ended
          rw [execute_requested requests] at ran
          rcases run_entered_cases ran with ⟨deep, -, -⟩ | ⟨-, done, final, inside, -, left⟩
          · exact absurd below (Nat.not_le.mpr deep)
          · rw [← same] at inside
            rcases Activation.inside_ends (execute_goes_on _) comes inside callers with
              ⟨found, last, executed, leads⟩
            rw [scope] at leads
            refine ⟨found, last, executed, ?_⟩
            rw [left]
            exact leads.trans (later_of_same rfl rfl callers)
  | @nested callers _ _ nests =>
      cases nests with
      | @intro fuel outer inner machine ready start source nests comes =>
          have ran : execute (fuel + 1 + 1) outer machine = some (result, next) := ended
          rw [execute_nested nests] at ran
          rcases Option.map_eq_some_iff.mp ran with ⟨after, nested, same⟩
          cases same
          rcases run_nested_cases nested with ⟨final, program, left⟩
          rcases program_ends (execute_goes_on _) comes program with ⟨found, last, executed, later⟩
          refine ⟨found, last, executed, ?_⟩
          rw [left]
          exact (later.trans (later_of_same rfl rfl)) callers

/-- Two spots are one and the same, or one is over before the other. -/
def InTurn (first second : Spot) : Prop :=
  first = second ∨ first.Over second ∨ second.Over first

theorem in_turn_of_statements {callers : List Scope} {fuel : Nat} {first second : Statement}
    {machine other : Machine}
    (turn : Interpreter.InTurn (execute (fuel + 1)) first machine second other) :
    InTurn ⟨callers, fuel, first, machine⟩ ⟨callers, fuel, second, other⟩ := by
  rcases turn with ⟨same, start⟩ | ⟨result, next, executed, later⟩ |
    ⟨result, next, executed, later⟩
  · rw [same, start]
    exact .inl rfl
  · exact .inr (.inl ⟨result, next, executed, later callers⟩)
  · exact .inr (.inr ⟨result, next, executed, later callers⟩)

theorem opens_in_turn {outer first second : Spot} (one : outer.Opens first)
    (two : outer.Opens second) : InTurn first second := by
  cases one with
  | @entered callers _ _ activation enters =>
      cases enters with
      | @intro fuel outer inner machine ready entered start _ requests admitted comes =>
          cases two with
          | entered entersToo =>
              cases entersToo with
              | intro requestsToo admittedToo comesToo =>
                  rcases requests.unique requestsToo with ⟨same, sameReady⟩
                  subst same
                  subst sameReady
                  cases admitted.symm.trans admittedToo
                  exact in_turn_of_statements (Activation.in_turn (execute_goes_on _) comes comesToo)
          | nested nestsToo =>
              cases nestsToo with
              | intro nests => exact absurd nests requests.not_nests
  | @nested callers _ _ nests =>
      cases nests with
      | @intro fuel outer inner machine ready start source nests comes =>
          cases two with
          | entered entersToo =>
              cases entersToo with
              | intro requests => exact absurd nests requests.not_nests
          | nested nestsToo =>
              cases nestsToo with
              | intro again comesToo =>
                  rcases nests.unique again with ⟨same, sameReady⟩
                  subst same
                  subst sameReady
                  exact in_turn_of_statements (program_in_turn (execute_goes_on _) comes comesToo)

theorem Leads.trans {first second third : Spot} (before : first.Leads second)
    (after : second.Leads third) : first.Leads third :=
  Machine.Leads.trans before after

theorem leads_refl (spot : Spot) : spot.Leads spot :=
  later_of_same rfl rfl spot.callers

theorem Over.trans {first second third : Spot} (past : first.Over second)
    (after : second.Leads third) : first.Over third := by
  rcases past with ⟨result, next, ended, leads⟩
  exact ⟨result, next, ended, leads.trans after⟩

theorem Over.leads {first second : Spot} (past : first.Over second) : first.Leads second := by
  rcases past with ⟨result, next, ended, leads⟩
  exact (execute_goes_on _ _ _ _ _ ended first.callers).trans leads

theorem inside_leads {outer inner : Spot} (inside : outer.Inside inner) : outer.Leads inner := by
  induction inside with
  | refl => exact leads_refl outer
  | tail _ opens ih => exact ih.trans (opens_leads opens)

theorem inside_ends {outer inner : Spot} {result : Except Fault Flow} {next : Machine}
    (inside : outer.Inside inner) (ended : outer.point.outcome = some (result, next)) :
    ∃ found final, inner.point.outcome = some (found, final) ∧
      Machine.Leads inner.callers final outer.callers next := by
  induction inside with
  | refl => exact ⟨result, next, ended, later_of_same rfl rfl outer.callers⟩
  | tail _ opens ih =>
      rcases ih with ⟨found, final, endedToo, leads⟩
      rcases opens_ends opens endedToo with ⟨last, after, endedLast, more⟩
      exact ⟨last, after, endedLast, more.trans leads⟩

/-- What is inside of a spot that is over is over as well. -/
theorem Over.inside {outer inner later : Spot} (past : outer.Over later)
    (inside : outer.Inside inner) : inner.Over later := by
  rcases past with ⟨result, next, ended, leads⟩
  rcases inside_ends inside ended with ⟨found, final, endedToo, more⟩
  exact ⟨found, final, endedToo, more.trans leads⟩

/-- One spot lies inside the other, or is over before it. -/
def InOrder (first second : Spot) : Prop :=
  first.Inside second ∨ second.Inside first ∨ first.Over second ∨ second.Over first

theorem InOrder.symm {first second : Spot} (order : InOrder first second) :
    InOrder second first := by
  rcases order with inside | inside | before | after
  · exact .inr (.inl inside)
  · exact .inl inside
  · exact .inr (.inr (.inr before))
  · exact .inr (.inr (.inl after))

/-- What lies inside one of two spots in turn is in order with the other. -/
theorem InTurn.in_order {first second inner : Spot} (turn : InTurn first second)
    (inside : second.Inside inner) : InOrder first inner := by
  rcases turn with same | before | after
  · rw [same]
    exact .inl inside
  · exact .inr (.inr (.inl (before.trans (inside_leads inside))))
  · exact .inr (.inr (.inr (after.inside inside)))

theorem in_order_of_opens {outer first second : Spot} (order : InOrder outer second)
    (opens : outer.Opens first) : InOrder first second := by
  rcases order with inside | inside | before | after
  · rcases Relation.ReflTransGen.cases_head inside with same | ⟨sibling, opensToo, rest⟩
    · rw [← same]
      exact .inr (.inl (.single opens))
    · exact (opens_in_turn opens opensToo).in_order rest
  · exact .inr (.inl (inside.tail opens))
  · exact .inr (.inr (.inl (before.inside (.single opens))))
  · exact .inr (.inr (.inr (after.trans (opens_leads opens))))

theorem InOrder.leads {first second : Spot} (order : InOrder first second) :
    first.Leads second ∨ second.Leads first := by
  rcases order with inside | inside | before | after
  · exact .inl (inside_leads inside)
  · exact .inr (inside_leads inside)
  · exact .inl before.leads
  · exact .inr after.leads

end Spot

section

variable {fuel limit : Nat} {source : String} {host : Host}

/-- A spot of a run: a statement of the program, or one inside of such a statement. -/
inductive Visited (fuel limit : Nat) (source : String) (host : Host) : Spot → Prop
  | program {statement : Statement} {machine : Machine}
      (comes : ProgramComesTo (execute (fuel + 1)) source (Machine.start limit host) statement
        machine) : Visited fuel limit source host ⟨[], fuel, statement, machine⟩
  | opened {outer inner : Spot} (visited : Visited fuel limit source host outer)
      (opens : outer.Opens inner) : Visited fuel limit source host inner

theorem executed_visited {frames : List Frame} {point : Point}
    (executed : Executed fuel limit source host frames point) :
    ∃ callers, Visited fuel limit source host ⟨callers, point⟩ := by
  induction executed with
  | program comes => exact ⟨[], .program comes⟩
  | entered _ enters ih =>
      rcases ih with ⟨callers, visited⟩
      exact ⟨_, visited.opened (.entered enters)⟩
  | nested _ nests ih =>
      rcases ih with ⟨callers, visited⟩
      exact ⟨callers, visited.opened (.nested nests)⟩

theorem start_leads {spot : Spot} (visited : Visited fuel limit source host spot) :
    Machine.Leads [] (Machine.start limit host) spot.callers spot.point.machine := by
  induction visited with
  | program comes => exact program_comes_to_later (execute_goes_on _) comes []
  | opened _ opens ih => exact ih.trans (Spot.opens_leads opens)

/-- A run that ends has passed all its spots by then. -/
theorem visited_ends {spot : Spot} {final : Machine} (visited : Visited fuel limit source host spot)
    (ended : runProgram (execute (fuel + 1)) source (Machine.start limit host) = some final) :
    ∃ result next, spot.point.outcome = some (result, next) ∧
      Machine.Leads spot.callers next [] final := by
  induction visited with
  | program comes =>
      rcases program_ends (execute_goes_on _) comes ended with ⟨result, next, executed, later⟩
      exact ⟨result, next, executed, later []⟩
  | opened _ opens ih =>
      rcases ih with ⟨result, next, finished, leads⟩
      rcases Spot.opens_ends opens finished with ⟨found, last, finishedInside, more⟩
      exact ⟨found, last, finishedInside, more.trans leads⟩

/-- Of two spots of one run, one lies inside the other or is over before it. -/
theorem visited_in_order {first second : Spot} (one : Visited fuel limit source host first)
    (two : Visited fuel limit source host second) : Spot.InOrder first second := by
  induction one with
  | program comes =>
      induction two with
      | program comesToo =>
          have turn := program_in_turn (execute_goes_on _) comes comesToo
          exact (Spot.in_turn_of_statements turn).in_order .refl
      | opened _ opens ih => exact (Spot.in_order_of_opens ih.symm opens).symm
  | opened _ opens ih => exact Spot.in_order_of_opens ih opens

end

end ScriptSandbox
