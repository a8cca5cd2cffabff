import ScriptSandbox.Proofs.Run.Order

/-!
Records never change. At every moment of a run nothing outside of a record gives access to an array
inside it, so no operator ever gets hold of one. From its making on, a record keeps its keys, their
order and all that lies inside it, and no way leads from it back to itself.
-/

namespace ScriptSandbox

open Machine Moment

theorem Scope.Outside.evolve {scope : Scope} {before after : Heap} (outside : scope.Outside before)
    (evolves : before.Evolves after) : scope.Outside after :=
  fun name value bound => evolves.outer (outside name value bound)

theorem Scope.Outside.set_variable {scope : Scope} {heap : Heap} (outside : scope.Outside heap)
    {value : Value} (outer : heap.Outer value) (name : String) :
    (scope.setVariable name value).Outside heap := by
  intro other found bound
  by_cases same : other = name
  · rw [same, Scope.setVariable, Table.get_set_self] at bound
    cases bound
    exact outer
  · rw [Scope.setVariable, Table.get_set_other _ _ _ _ same] at bound
    exact outside other found bound

namespace Moment

/-- All that a run can get hold of at a moment lies outside of records. -/
structure Separate (moment : Moment) : Prop where
  heap : moment.heap.Separated
  scope : moment.scope.Outside moment.heap
  callers : ∀ scope ∈ moment.callers, scope.Outside moment.heap
  handed : ∀ value ∈ moment.handed, moment.heap.Outer value

theorem Separate.evolve {moment : Moment} {heap : Heap} (separate : moment.Separate)
    (evolves : moment.heap.Evolves heap) (separated : heap.Separated) (values : List Value)
    (outer : ∀ value ∈ values, heap.Outer value) :
    Separate { moment with heap, handed := values ++ moment.handed } := by
  constructor
  · exact separated
  · exact separate.scope.evolve evolves
  · exact fun scope member => (separate.callers scope member).evolve evolves
  · intro value member
    rcases List.mem_append.mp member with new | old
    · exact outer value new
    · exact evolves.outer (separate.handed value old)

theorem Separate.hand {moment : Moment} (separate : moment.Separate) {value : Value}
    (outer : moment.heap.Outer value) :
    Separate { moment with handed := value :: moment.handed } := by
  apply separate.evolve moment.heap.evolves_refl separate.heap [value]
  intro other member
  rw [List.mem_singleton.mp member]
  exact outer

theorem evaluation_step_separate {first later : Moment} (step : EvaluationStep first later)
    (separate : first.Separate) : later.Separate ∧ first.heap.Evolves later.heap := by
  have same := first.heap.evolves_refl
  cases step with
  | scalar value plain => exact ⟨separate.hand (first.heap.outer_of_plain plain), same⟩
  | load json =>
      have loaded := Heap.load_loaded separate.heap json
      have evolves := loaded.evolves separate.heap
      exact ⟨separate.evolve evolves loaded.separated [_] loaded.outer, evolves⟩
  | read name => exact ⟨separate.hand (separate.scope.resolve name), same⟩
  | @operate line operator stack next heap held applied =>
      have outer (value : Value) (member : .value value ∈ stack) : first.heap.Outer value := by
        apply separate.handed
        apply held
        exact List.mem_filterMap.mpr ⟨_, member, rfl⟩
      rcases Code.apply_separated separate.heap separate.scope outer applied with
        ⟨evolves, separated, left⟩
      refine ⟨separate.evolve evolves separated _ ?_, evolves⟩
      intro value member
      rcases List.mem_filterMap.mp member with ⟨operand, there, shown⟩
      cases operand with
      | value item =>
          cases shown
          exact left next rfl _ there
      | reference name => cases shown

/-- One step keeps the records apart and changes nothing inside them. -/
theorem step_separate {first later : Moment} (step : Step first later) (separate : first.Separate) :
    later.Separate ∧ first.heap.Evolves later.heap := by
  have same := first.heap.evolves_refl
  cases step with
  | evaluate step => exact evaluation_step_separate step separate
  | assign name held =>
      refine ⟨⟨separate.heap, ?_, separate.callers, separate.handed⟩, same⟩
      exact separate.scope.set_variable (separate.handed _ held) name
  | declare function =>
      -- The containers are as before, so what is said of them is said of the same ones.
      have evolves : first.heap.Evolves (first.heap.newFunction function).2 :=
        ⟨same.has, same.kept, same.unsealed⟩
      have separated : (first.heap.newFunction function).2.Separated :=
        ⟨separate.heap.closed, separate.heap.apart, separate.heap.grounded⟩
      have outside : Scope.Outside (first.scope.setFunction function.name
          (first.heap.newFunction function).1) (first.heap.newFunction function).2 :=
        separate.scope.evolve evolves
      have after := separate.evolve evolves separated [] nofun
      exact ⟨⟨separated, outside, after.callers, after.handed⟩, evolves⟩
  | @call frame held =>
      refine ⟨⟨separate.heap, ?_, ?_, separate.handed⟩, same⟩
      · intro name value bound
        rcases held name value bound with handed | shared
        · exact separate.handed value handed
        · exact separate.scope name value shared
      · intro scope member
        rcases List.mem_cons.mp member with caller | further
        · rw [caller]
          exact separate.scope
        · exact separate.callers scope further
  | @comeBack caller callers called =>
      refine ⟨⟨separate.heap, ?_, ?_, separate.handed⟩, same⟩
      · apply separate.callers
        rw [called]
        exact List.mem_cons_self
      · intro scope member
        apply separate.callers
        rw [called]
        exact List.mem_cons_of_mem _ member

theorem steps_separate {first later : Moment} (steps : Steps first later)
    (separate : first.Separate) : later.Separate ∧ first.heap.Evolves later.heap := by
  induction steps with
  | refl => exact ⟨separate, first.heap.evolves_refl⟩
  | tail _ step ih =>
      rcases step_separate step ih.1 with ⟨after, evolves⟩
      exact ⟨after, ih.2.trans evolves separate.heap⟩

/-- A moment with the scope and the heap of a machine. -/
def Shows (moment : Moment) (machine : Machine) : Prop :=
  moment.scope = machine.scope ∧ moment.heap = machine.heap

theorem start_separate (limit : Nat) (host : Host) :
    Separate ((Machine.start limit host).moment [] []) := by
  have empty (container : Container) : ¬Heap.empty.Has container := by
    cases container <;> exact Nat.not_lt_zero _
  refine ⟨⟨?_, ?_, ?_⟩, nofun, nofun, nofun⟩
  · intro outer inner holds
    exact absurd (Heap.has_of_holds holds) (empty outer)
  · intro handle _ value member
    exact absurd (Heap.lt_of_mem_items member) (empty (.array handle))
  · exact fun record => Heap.acc_of_no_parts (empty (.record record))

end Moment

/-- Steps from the start of a run lead past the one machine to the other. -/
def Passes (start first later : Machine) : Prop :=
  ∃ earlier after : Moment, Steps (start.moment [] []) earlier ∧ Steps earlier after ∧
    earlier.Shows first ∧ after.Shows later

theorem Machine.Leads.passes {start first later : Machine} {callers others : List Scope}
    (before : Leads [] start callers first) (after : Leads callers first others later) :
    Passes start first later := by
  rcases before [] with ⟨handed, steps⟩
  rcases after handed with ⟨more, further⟩
  exact ⟨first.moment callers handed, later.moment others more, steps, further, ⟨rfl, rfl⟩, rfl, rfl⟩

section

variable {fuel limit : Nat} {source : String} {host : Host}

/-- Of two statements that a run executes, steps lead from the one to the other. -/
theorem executed_passes {frames others : List Frame} {first second : Point}
    (one : Executed fuel limit source host frames first)
    (two : Executed fuel limit source host others second) :
    Passes (Machine.start limit host) first.machine second.machine ∨
      Passes (Machine.start limit host) second.machine first.machine := by
  rcases executed_visited one with ⟨callers, visited⟩
  rcases executed_visited two with ⟨callersToo, visitedToo⟩
  rcases (visited_in_order visited visitedToo).leads with before | after
  · exact .inl ((start_leads visited).passes before)
  · exact .inr ((start_leads visitedToo).passes after)

theorem outcome_passes {frames : List Frame} {point : Point} {result : Except Fault Flow}
    {next : Machine} (executed : Executed fuel limit source host frames point)
    (ended : point.outcome = some (result, next)) :
    Passes (Machine.start limit host) point.machine next := by
  rcases executed_visited executed with ⟨callers, visited⟩
  exact (start_leads visited).passes
    (Interpreter.execute_goes_on _ _ _ _ _ ended callers)

theorem end_passes {frames : List Frame} {point : Point} {final : Machine}
    (executed : Executed fuel limit source host frames point)
    (ended : Interpreter.runProgram (Interpreter.execute (fuel + 1)) source
      (Machine.start limit host) = some final) :
    Passes (Machine.start limit host) point.machine final := by
  rcases executed_visited executed with ⟨callers, visited⟩
  rcases visited_ends visited ended with ⟨result, next, finished, leads⟩
  have after := Interpreter.execute_goes_on _ _ _ _ _ finished callers
  exact (start_leads visited).passes (after.trans leads)

end

/-- Records are immutable and lie on no cycle. The statements that a run executes, their outcomes and
the end of the run are moments on one way of steps from the start. Along every such way a record keeps
its keys in order and everything inside it, and with it its snapshot; no operator finds its array
inside of a record, and no record holds itself. -/
theorem records_never_change (limit : Nat) (source : String) (host : Host) :
    (∀ fuel frames point, Executed fuel limit source host frames point →
      (∀ others other, Executed fuel limit source host others other →
        Passes (Machine.start limit host) point.machine other.machine ∨
          Passes (Machine.start limit host) other.machine point.machine) ∧
      (∀ result next, point.outcome = some (result, next) →
        Passes (Machine.start limit host) point.machine next) ∧
      (∀ final, Interpreter.runProgram (Interpreter.execute (fuel + 1)) source
          (Machine.start limit host) = some final →
        Passes (Machine.start limit host) point.machine final)) ∧
    (∀ first later, Steps ((Machine.start limit host).moment [] []) first → Steps first later →
      ∀ record, first.heap.Has (.record record) →
        later.heap.Has (.record record) ∧
        later.heap.fields record = first.heap.fields record ∧
        (∀ inner, first.heap.Within (.record record) inner →
          first.heap.SameContents later.heap inner) ∧
        later.heap.snapshot (.record record) = first.heap.snapshot (.record record)) ∧
    (∀ moment, Steps ((Machine.start limit host).moment [] []) moment → ∀ record,
      (∀ operator line operand handle,
        Operand.target moment.scope operator line operand = .ok handle →
          ¬moment.heap.Within (.record record) (.array handle)) ∧
      ¬Relation.TransGen moment.heap.Holds (.record record) (.record record)) := by
  have separate := start_separate limit host
  refine ⟨?_, ?_, ?_⟩
  · intro fuel frames point executed
    refine ⟨?_, ?_, ?_⟩
    · exact fun others other executedToo => executed_passes executed executedToo
    · exact fun result next ended => outcome_passes executed ended
    · exact fun final ended => end_passes executed ended
  · intro first later before after record has
    have between := (steps_separate before separate).1
    have evolves := (steps_separate after between).2
    have same := evolves.same_within between.heap has
    exact ⟨evolves.has _ has, same _ .refl, same, Heap.snapshot_congr same⟩
  · intro moment steps record
    have now := (steps_separate steps separate).1
    constructor
    · intro operator line operand handle target within
      rcases Operand.target_bound target with ⟨name, bound⟩
      exact (now.scope name _ bound).2 ⟨record, within⟩
    · exact Heap.not_within_self_of_acc (now.heap.grounded record)

/-- A record with an array inside it, bound by the first statement, through the second. -/
theorem records_never_change_literal :
    ∃ point next, Executed 0 1 "var r = \x7b\"k\":[1]\x7d; var s = ref:r"
        (Host.standalone .zero .zero .empty 0) [] point ∧
      point.outcome = some (.ok .next, next) ∧
      point.machine.heap.Within (.record 0) (.array 0) ∧
      next.heap.snapshot (.record 0) = point.machine.heap.snapshot (.record 0) := by
  let start := Machine.start 1 (Host.standalone .zero .zero .empty 0)
  let first : Statement := ⟨"var", ["r", "=", "\x7b\"k\":[1]\x7d"], 1⟩
  let second : Statement := ⟨"var", ["s", "=", "ref:r"], 2⟩
  let middle := (PlainCommand.run .assign first start).2
  let next := (PlainCommand.run .assign second middle).2
  have bound : PlainCommand.run .assign first start = (.ok .next, middle) :=
    Prod.ext (ok_of_to_option (by decide +kernel)) rfl
  have copied : PlainCommand.run .assign second middle = (.ok .next, next) :=
    Prod.ext (ok_of_to_option (by decide +kernel)) rfl
  have ran : Interpreter.runStatements (Interpreter.execute 1) [first] start = some middle := by
    have executed : Interpreter.execute 1 first start = some (.ok .next, middle) :=
      congrArg some bound
    rw [Interpreter.runStatements, executed]
    rfl
  have comes : Interpreter.ProgramComesTo (Interpreter.execute 1)
      "var r = \x7b\"k\":[1]\x7d; var s = ref:r" start second middle :=
    ⟨[first], [], ok_of_to_option (by decide +kernel), ran, by decide +kernel⟩
  have executed := Executed.program comes
  have ended : Point.outcome ⟨0, second, middle⟩ = some (.ok .next, next) := congrArg some copied
  rcases records_never_change 1 _ _ with ⟨run, kept, -⟩
  rcases (run 0 [] _ executed).2.1 _ next ended with ⟨earlier, after, before, steps, shows, showsNext⟩
  have has : middle.heap.Has (.record 0) := by
    show 0 < middle.heap.records.size
    decide +kernel
  have inside : middle.heap.Holds (.record 0) (.array 0) := by
    show Value.array 0 ∈ (middle.heap.fields 0).map Prod.snd
    decide +kernel
  have same := (kept earlier after before steps 0 (shows.2 ▸ has)).2.2.2
  rw [shows.2, showsNext.2] at same
  exact ⟨_, next, executed, ended, .single inside, same⟩

end ScriptSandbox
