import Mathlib.Algebra.Order.Floor.Div
import ScriptSandbox.Host.Standalone
import ScriptSandbox.Proofs.Number.Whole
import ScriptSandbox.Proofs.Run.Termination

/-!
How often a `loop` runs its body. The count is read once, before the first pass. One that is no
number or not above zero makes no pass; one up to 2^53 makes as many passes as the least whole number
that it does not exceed, unless a pass halts the run and so is the last.
-/

namespace ScriptSandbox

namespace Number

/-- The least whole number that a number from zero on does not exceed; 0 for any other number. -/
def ceiling : Number → Nat
  | .finite false rank => magnitude rank ⌈/⌉ unitsPerOne
  | _ => 0

/-- Counting up from zero stays below a number as long as it stays below its ceiling. -/
theorem of_nat_less_iff {value : Nat} (fits : value ≤ twoTo 53) (rank : Fin rankCount) :
    (ofNat value).less (.finite false rank) = true ↔ value < ceiling (.finite false rank) := by
  obtain ⟨counted, shown, units⟩ := of_nat_counted fits
  have above : ceiling (.finite false rank) ≤ value ↔ magnitude rank ≤ unitsPerOne * value :=
    ceilDiv_le_iff_le_mul units_pos
  calc (ofNat value).less (.finite false rank) = true
      ↔ counted.val < rank.val := by
        rw [shown]
        exact less_finite.trans Int.ofNat_lt
    _ ↔ magnitude counted < magnitude rank := magnitude_strict.lt_iff_lt.symm
    _ ↔ ¬magnitude rank ≤ unitsPerOne * value := by rw [units, Nat.mul_comm, Nat.not_le]
    _ ↔ value < ceiling (.finite false rank) := by rw [← above, Nat.not_le]

/-- Infinity is above every finite number. -/
theorem not_at_most_infinite (rank : Fin rankCount) :
    atMost (.infinite false) (.finite false rank) = false := by
  have above : compare? (.infinite false) (.finite false rank) = some .gt :=
    congrArg some (compare_gt_iff_gt.mpr (Int.ofNat_lt.mpr rank.isLt))
  rw [atMost, less, equals, above]
  rfl

/-- A number above zero and not above 2^53 is finite, and its ceiling is not above 2^53 either. -/
theorem ceiling_bounds {count : Number} (positive : zero.less count = true)
    (bounded : count.atMost (ofNat (twoTo 53)) = true) :
    ∃ rank, count = .finite false rank ∧ 0 < count.ceiling ∧ count.ceiling ≤ twoTo 53 := by
  obtain ⟨greatest, shown, units⟩ := of_nat_counted (Nat.le_refl (twoTo 53))
  rw [shown] at bounded
  cases count with
  | nan => cases positive
  | infinite negative =>
      cases negative with
      | true => cases positive
      | false =>
          rw [not_at_most_infinite] at bounded
          cases bounded
  | finite negative rank =>
      cases negative with
      | true =>
          rw [zero, less_finite] at positive
          simp only [Bool.false_eq_true, if_false, if_true, zeroRank] at positive
          omega
      | false =>
          refine ⟨rank, rfl, ?_, ?_⟩
          · rw [← of_nat_zero, of_nat_less_iff (Nat.zero_le _)] at positive
            exact positive
          · have less := magnitude_strict.le_iff_le.mpr (at_most_finite.mp bounded)
            rw [units, Nat.mul_comm] at less
            exact (ceilDiv_le_iff_le_mul units_pos).mpr less

end Number

namespace Interpreter

/-- A body runs a number of times in sequence, every time on a machine that is not halted. -/
inductive RunsTimes (execute : Executor) (body : List Statement) : Nat → Machine → Machine → Prop
  | none (machine : Machine) : RunsTimes execute body 0 machine machine
  | again {times : Nat} {machine middle final : Machine} {flow : Flow}
      (running : machine.isHalted = false)
      (ran : runBody execute body machine = some (flow, middle))
      (others : RunsTimes execute body times middle final) :
      RunsTimes execute body (times + 1) machine final

/-- The passes end with the last one that a count allows for, or before it on a halted machine. -/
def PassesEnd (count passed : Nat) (final : Machine) : Prop :=
  passed = count ∨ passed < count ∧ final.isHalted = true

section

variable {execute : Executor} {body : List Statement} {rank : Fin Number.rankCount}
  (fits : Number.ceiling (.finite false rank) ≤ twoTo 53)
include fits

/-- A pass follows as long as the ceiling is not reached and the run is not halted. -/
theorem pass_follows_iff {passed : Nat} (reached : passed ≤ Number.ceiling (.finite false rank))
    (machine : Machine) :
    ((Number.ofNat passed).less (.finite false rank) && !machine.isHalted) = true ↔
      passed < Number.ceiling (.finite false rank) ∧ machine.isHalted = false := by
  rw [Bool.and_eq_true, Number.of_nat_less_iff (by omega), Bool.not_eq_true']

theorem passes_end_of_stops {passed : Nat} {machine : Machine}
    (reached : passed ≤ Number.ceiling (.finite false rank))
    (stops : ¬((Number.ofNat passed).less (.finite false rank) && !machine.isHalted) = true) :
    PassesEnd (Number.ceiling (.finite false rank)) passed machine := by
  rw [pass_follows_iff fits reached] at stops
  by_cases last : passed = Number.ceiling (.finite false rank)
  · exact .inl last
  · have below : passed < Number.ceiling (.finite false rank) := by omega
    right
    constructor
    · exact below
    · exact eq_true_of_ne_false fun running => stops ⟨below, running⟩

/-- The passes that a run makes are counted in whole numbers. The induction is on the fuel, one unit
of which every pass takes. -/
theorem run_passes_times {fuel passed : Nat} {machine final : Machine}
    (reached : passed ≤ Number.ceiling (.finite false rank))
    (ran : runPasses execute body (.finite false rank) fuel (.ofNat passed) machine = some final) :
    ∃ times, RunsTimes execute body times machine final ∧
      PassesEnd (Number.ceiling (.finite false rank)) (passed + times) final := by
  by_cases goes : ((Number.ofNat passed).less (.finite false rank) && !machine.isHalted) = true
  · have ⟨below, running⟩ := (pass_follows_iff fits reached machine).mp goes
    cases fuel with
    | zero =>
        rw [runPasses, if_pos goes] at ran
        cases ran
    | succ fuel =>
        rw [runPasses, if_pos goes, Number.of_nat_add_one (Nat.lt_of_lt_of_le below fits)] at ran
        split at ran
        · cases ran
        · next flow middle pass =>
            obtain ⟨times, others, ends⟩ := run_passes_times below ran
            refine ⟨times + 1, .again running pass others, ?_⟩
            rw [← Nat.add_assoc, Nat.add_right_comm]
            exact ends
  · rw [run_passes_stopped goes] at ran
    rw [← Option.some.inj ran]
    exact ⟨0, .none machine, passes_end_of_stops fits reached goes⟩

theorem run_passes_of_times {times passed fuel : Nat} {machine final : Machine}
    (runs : RunsTimes execute body times machine final)
    (ends : PassesEnd (Number.ceiling (.finite false rank)) (passed + times) final)
    (enough : times ≤ fuel) :
    runPasses execute body (.finite false rank) fuel (.ofNat passed) machine = some final := by
  induction runs generalizing passed fuel with
  | none machine =>
      apply run_passes_stopped
      rcases ends with last | ⟨below, halted⟩
      · have full : passed = Number.ceiling (.finite false rank) := last
        rw [pass_follows_iff fits (Nat.le_of_eq full)]
        omega
      · rw [halted, Bool.not_true, Bool.and_false]
        exact Bool.false_ne_true
  | @again times machine middle final flow running ran others ih =>
      have below : passed < Number.ceiling (.finite false rank) := by
        rcases ends with last | ⟨less, -⟩ <;> omega
      cases fuel with
      | zero => omega
      | succ fuel =>
          rw [runPasses, if_pos ((pass_follows_iff fits below.le machine).mpr ⟨below, running⟩), ran,
            Number.of_nat_add_one (by omega)]
          apply ih
          · rw [Nat.add_right_comm]
            exact ends
          · omega

end

theorem runs_times_extends {execute other : Executor} (extension : Extends execute other)
    {body : List Statement} {times : Nat} {machine final : Machine}
    (runs : RunsTimes execute body times machine final) :
    RunsTimes other body times machine final := by
  induction runs with
  | none machine => exact .none machine
  | again running ran others ih => exact .again running (run_body_extends extension ran) ih

/-- On a machine that is not halted there is a first pass, so passes that end early end with the one
that halted the run. -/
theorem RunsTimes.pos {execute : Executor} {body : List Statement} {times count : Nat}
    {machine final : Machine} (runs : RunsTimes execute body times machine final)
    (ends : PassesEnd count times final) (above : 0 < count) (running : machine.isHalted = false) :
    0 < times := by
  cases runs with
  | none machine =>
      rcases ends with last | ⟨-, halted⟩
      · omega
      · rw [running] at halted
        cases halted
  | again => exact Nat.succ_pos _

section

variable {statement : Statement} {machine ready : Machine} {opening : Nat} {value : Value}
  {body : List Statement} {count : Number} (named : statement.command = "loop")
  (head : statement.HasHead machine opening value ready)
  (counted : count = Number.ofTextStart (ready.heap.textOf value))
  (read : statement.bodyStatements opening = .ok body)
  (room : machine.control.depth + 1 ≤ machine.control.limit)
include named head counted read room

/-- To execute a `loop` with a count that is not at most zero is to make its passes one level
deeper. -/
theorem execute_loop (positive : count.atMost .zero = false) (fuel : Nat) :
    execute (fuel + 1) statement machine =
      (runPasses (execute fuel) body count fuel .zero ready.raised).map
        fun final => (.ok .next, final.leave) := by
  have command : Command.ofName? statement.command = some .loopBlock := by
    rw [named]
    rfl
  have requests := Statement.Requests.loopBlock command head counted positive read
  rw [← requests.control] at room
  rw [execute_requested requests, run_entered_within room, Activation.inside, Option.map_map]
  rfl

/-- A count that is no number is not at most zero, so the block is entered; nothing is below it. -/
theorem execute_loop_none (none : count = .nan ∨ count.atMost .zero = true) (fuel : Nat) :
    execute (fuel + 1) statement machine = some (.ok .next, ready) := by
  rcases none with unknown | low
  · have positive : count.atMost .zero = false := by
      rw [unknown]
      rfl
    have stops : ¬(Number.zero.less count && !ready.raised.isHalted) = true := by
      rw [unknown]
      exact Bool.false_ne_true
    rw [execute_loop named head counted read room positive, run_passes_stopped stops]
    rfl
  · rw [counted] at low
    simp only [execute, named, Command.ofName?, runLoop, with_head_of_has_head head, low, if_true]

theorem execute_loop_iff (positive : Number.zero.less count = true)
    (bounded : count.atMost (.ofNat (twoTo 53)) = true) (result : Except Fault Flow)
    (next : Machine) :
    (∃ fuel, execute fuel statement machine = some (result, next)) ↔
      ∃ fuel times final, RunsTimes (execute fuel) body times ready.raised final ∧
        PassesEnd count.ceiling times final ∧ (ready.isHalted = false → 0 < times) ∧
        result = .ok .next ∧ next = final.leave := by
  obtain ⟨rank, rfl, above, fits⟩ := Number.ceiling_bounds positive bounded
  have asks : Number.atMost (.finite false rank) .zero = false := by
    rw [Number.zero, Number.less_finite] at positive
    rw [← Bool.not_eq_true, Number.at_most_zero]
    simp only [Bool.false_eq_true, if_false, Number.zeroRank, false_or] at positive ⊢
    omega
  have passes := execute_loop named head counted read room asks
  rw [← Number.of_nat_zero] at passes
  constructor
  · rintro ⟨fuel, ran⟩
    cases fuel with
    | zero => cases ran
    | succ fuel =>
        rw [passes] at ran
        obtain ⟨final, made, same⟩ := Option.map_eq_some_iff.mp ran
        obtain ⟨times, runs, ends⟩ := run_passes_times fits (Nat.zero_le _) made
        rw [Nat.zero_add] at ends
        cases same
        exact ⟨fuel, times, final, runs, ends, runs.pos ends above, rfl, rfl⟩
  · rintro ⟨fuel, times, final, runs, ends, -, rfl, rfl⟩
    -- Besides the fuel of its statements every pass takes a unit of the `loop`'s own.
    have more := runs_times_extends (execute_extends (Nat.le_max_left fuel times)) runs
    rw [← Nat.zero_add times] at ends
    refine ⟨max fuel times + 1, ?_⟩
    rw [passes, run_passes_of_times fits more ends (Nat.le_max_right fuel times)]
    rfl

end

end Interpreter

open Interpreter

/-- A `loop` with a body that can be read, below the ceiling. Its count is read once, from the value
before the block. A count that is no number or not above zero changes nothing more; one up to 2^53
runs the body as often as its ceiling says, one level deeper, or until a pass has halted the run.
What a pass changes has no part in the count. -/
theorem loop_runs_count_times {statement : Statement} {machine ready : Machine} {opening : Nat}
    {value : Value} {body : List Statement} (named : statement.command = "loop")
    (head : statement.HasHead machine opening value ready)
    (read : statement.bodyStatements opening = .ok body)
    (room : machine.control.depth + 1 ≤ machine.control.limit) :
    let count := Number.ofTextStart (ready.heap.textOf value)
    (count = .nan ∨ count.atMost .zero = true →
      ∀ fuel, execute (fuel + 1) statement machine = some (.ok .next, ready)) ∧
    (Number.zero.less count = true → count.atMost (.ofNat (twoTo 53)) = true →
      ∀ result next, (∃ fuel, execute fuel statement machine = some (result, next)) ↔
        ∃ fuel times final, RunsTimes (execute fuel) body times ready.raised final ∧
          PassesEnd count.ceiling times final ∧ (ready.isHalted = false → 0 < times) ∧
          result = .ok .next ∧ next = final.leave) := by
  intro count
  constructor
  · exact execute_loop_none named head rfl read room
  · exact execute_loop_iff named head rfl read room

/-- The body of three passes overwrites the variable that the count of 2.5 comes from. -/
theorem loop_runs_count_times_overwritten :
    let statement : Statement := ⟨"loop", ["ref:n", "\x7b", "var n = 9", "\x7d"], 1⟩
    let machine : Machine :=
      { Machine.start 1 (Host.standalone .zero .zero .empty 0) with
        scope := ⟨[("n", .string "2.5 times")], []⟩ }
    let ready := (machine.evaluate ["ref:n"] 1).2
    ∃ fuel final, RunsTimes (execute fuel) [⟨"var", ["n", "=", "9"], 1⟩] 3 ready.raised final ∧
      final.leave.scope.bindings = [("n", .number (.ofNat 9))] ∧
      execute 5 statement machine = some (.ok .next, final.leave) := by
  intro statement machine ready
  have value : (machine.evaluate ["ref:n"] 1).1 = .ok (.string "2.5 times") :=
    ok_of_to_option (by decide +kernel)
  have head : statement.HasHead machine 1 (.string "2.5 times") ready :=
    ⟨by decide, by decide, Prod.ext value rfl⟩
  have read : statement.bodyStatements 1 = .ok [⟨"var", ["n", "=", "9"], 1⟩] :=
    ok_of_to_option (by decide +kernel)
  have counted := (loop_runs_count_times rfl head read (by decide)).2 (by decide +kernel)
    (by decide +kernel)
  have ends : (execute 5 statement machine).map (fun outcome =>
      (outcome.1.toOption, outcome.2.isHalted, outcome.2.scope.bindings)) =
        some (some .next, false, [("n", .number (.ofNat 9))]) := by
    decide +kernel
  obtain ⟨⟨result, next⟩, ran, left⟩ := Option.map_eq_some_iff.mp ends
  simp only [Prod.mk.injEq] at left
  obtain ⟨fuel, times, final, runs, last, -, same, rfl⟩ := (counted result next).mp ⟨5, ran⟩
  have three : Number.ceiling (Number.ofTextStart (ready.heap.textOf (.string "2.5 times"))) = 3 := by
    decide +kernel
  rw [three] at last
  rcases last with rfl | ⟨-, halted⟩
  · rw [same] at ran
    exact ⟨fuel, final, runs, left.2.2, ran⟩
  · have running : final.isHalted = false := left.2.1
    rw [running] at halted
    cases halted

end ScriptSandbox
