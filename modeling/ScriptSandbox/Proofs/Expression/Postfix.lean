import Mathlib.Data.List.Forall2
import ScriptSandbox.Proofs.Expression.Tree

/-!
Compiled items and operator trees. The evaluation of items succeeds exactly on the post-order
listings of single trees whose array operators name their arrays, and then it computes what the
tree means.
-/

namespace ScriptSandbox

namespace OperatorTree

/-- The array a tree names: it must be a reference to a variable that holds one. -/
def array? (scope : Scope) : OperatorTree Operand → Option Nat
  | .leaf (.reference name) =>
      match scope.bindings.get? name with
      | some (.array handle) => some handle
      | _ => none
  | _ => none

/-- Whether the first child of every array operator names an array. -/
def Targeted (scope : Scope) : OperatorTree Operand → Prop
  | .leaf _ => True
  | .unary operator _ only =>
      (operator.actsOnArray = true → (only.array? scope).isSome) ∧ only.Targeted scope
  | .binary operator _ left right =>
      (operator.actsOnArray = true → (left.array? scope).isSome) ∧
        left.Targeted scope ∧ right.Targeted scope
  | .ternary operator _ first second third =>
      (operator.actsOnArray = true → (first.array? scope).isSome) ∧
        first.Targeted scope ∧ second.Targeted scope ∧ third.Targeted scope

/-- The direct meaning of a tree: children from left to right, then the operator. A reference is
left as it is until the operator above it is applied. -/
def reduce (scope : Scope) : OperatorTree Operand → Heap → Option (Operand × Heap)
  | .leaf operand, heap => some (operand, heap)
  | .unary _ _ only, heap =>
      match only.reduce scope heap, only.array? scope with
      | some (_, after), some handle =>
          some (.value ((after.items handle).back?.getD .null),
            after.modifyItems handle fun items => items.pop)
      | _, _ => none
  | .binary operator _ left right, heap =>
      match left.reduce scope heap with
      | none => none
      | some (first, between) =>
          match right.reduce scope between, operator.actsOnArray, left.array? scope with
          | some (second, after), true, some handle =>
              some (.value (.array handle),
                after.modifyItems handle fun items => items.push (second.resolve scope))
          | some (second, after), false, _ =>
              some (.value (operator.apply after (first.resolve scope) (second.resolve scope)), after)
          | _, _, _ => none
  | .ternary operator _ first second third, heap =>
      match first.reduce scope heap with
      | none => none
      | some (_, untouched) =>
          match second.reduce scope untouched with
          | none => none
          | some (start, between) =>
              match third.reduce scope between, first.array? scope with
              | some (finish, after), some handle =>
                  let low := after.numberOf (start.resolve scope)
                  let high := after.numberOf (finish.resolve scope)
                  if operator = .slice then
                    let copied := after.newArray (Code.sliced (after.items handle) low high)
                    some (.value copied.1, copied.2)
                  else
                    some (.value (.array handle),
                      after.modifyItems handle fun items => Code.spliced items low high)
              | _, _ => none

/-- The value of a tree; a reference at its root is read at the end. -/
def evaluate (scope : Scope) (tree : OperatorTree Operand) (heap : Heap) : Option (Value × Heap) :=
  (tree.reduce scope heap).map fun reduced => (reduced.1.resolve scope, reduced.2)

end OperatorTree

namespace Code

theorem reduce_of_array {scope : Scope} {tree : OperatorTree Operand} {handle : Nat}
    (named : tree.array? scope = some handle) (operator : Operator) (line : Nat) {heap after : Heap}
    {operand : Operand} (reduced : tree.reduce scope heap = some (operand, after)) :
    operand.target scope operator line = .ok handle ∧ after = heap := by
  unfold OperatorTree.array? at named
  split at named
  · next name =>
      cases reduced
      split at named
      · next held bound =>
          cases named
          exact ⟨by rw [Operand.target, bound], rfl⟩
      · cases named
  · cases named

theorem run_item (scope : Scope) (line : Nat) (operand : Operand) (rest : List Item)
    (stack : List Operand) (heap : Heap) :
    run scope line (operand.toItem :: rest) stack heap =
      run scope line rest (operand :: stack) heap := by
  cases operand <;> rfl

theorem run_operator {scope : Scope} {line : Nat} {operator : Operator} {stack next : List Operand}
    {heap changed : Heap} (applied : apply scope line operator stack heap = (.ok next, changed))
    (rest : List Item) :
    run scope line (.operator operator :: rest) stack heap = run scope line rest next changed := by
  simp only [run, applied]

theorem apply_plain {operator : Operator} (two : operator.arity = 2)
    (plain : operator.actsOnArray = false) (scope : Scope) (line : Nat) (left right : Operand)
    (rest : List Operand) (heap : Heap) :
    apply scope line operator (right :: left :: rest) heap =
      (.ok (.value (operator.apply heap (left.resolve scope) (right.resolve scope)) :: rest), heap) := by
  cases operator
  case push => cases plain
  all_goals first | rfl | cases two

/-- The items of a tree put its meaning on the stack, whatever stands below and follows. -/
theorem run_postorder (scope : Scope) (line : Nat) (tree : OperatorTree Operand)
    (targeted : tree.Targeted scope) (heap : Heap) :
    ∃ operand final, tree.reduce scope heap = some (operand, final) ∧
      ∀ rest stack, run scope line (tree.postorder ++ rest) stack heap =
        run scope line rest (operand :: stack) final := by
  induction tree generalizing heap with
  | leaf operand =>
      exact ⟨operand, heap, rfl, fun rest stack => run_item scope line operand rest stack heap⟩
  | unary operator one only ih =>
      obtain ⟨array, after, reduced, ran⟩ := ih targeted.2 heap
      cases operator <;> cases one
      obtain ⟨handle, named⟩ := Option.isSome_iff_exists.mp (targeted.1 rfl)
      obtain ⟨found, -⟩ := reduce_of_array named .pop line reduced
      refine ⟨.value ((after.items handle).back?.getD .null),
        after.modifyItems handle fun items => items.pop, ?_, ?_⟩
      · simp only [OperatorTree.reduce, reduced, named]
      · intro rest stack
        simp only [OperatorTree.postorder, List.append_assoc, ran]
        exact run_operator (by simp only [apply, found]) rest
  | binary operator two left right ihLeft ihRight =>
      obtain ⟨first, between, reducedLeft, ranLeft⟩ := ihLeft targeted.2.1 heap
      obtain ⟨second, after, reducedRight, ranRight⟩ := ihRight targeted.2.2 between
      cases acts : operator.actsOnArray with
      | true =>
          obtain ⟨handle, named⟩ := Option.isSome_iff_exists.mp (targeted.1 acts)
          obtain ⟨found, -⟩ := reduce_of_array named operator line reducedLeft
          refine ⟨.value (.array handle),
            after.modifyItems handle fun items => items.push (second.resolve scope), ?_, ?_⟩
          · simp only [OperatorTree.reduce, reducedLeft, reducedRight, named, acts]
          · intro rest stack
            rw [OperatorTree.postorder, List.append_assoc, List.append_assoc, ranLeft, ranRight]
            cases operator <;> cases two <;> cases acts
            exact run_operator (by simp only [apply, found]) rest
      | false =>
          refine ⟨.value (operator.apply after (first.resolve scope) (second.resolve scope)), after,
            ?_, ?_⟩
          · simp only [OperatorTree.reduce, reducedLeft, reducedRight, acts]
          · intro rest stack
            rw [OperatorTree.postorder, List.append_assoc, List.append_assoc, ranLeft, ranRight]
            exact run_operator (apply_plain two acts scope line first second stack after) rest
  | ternary operator three array start finish ihArray ihStart ihFinish =>
      obtain ⟨first, untouched, reducedArray, ranArray⟩ := ihArray targeted.2.1 heap
      obtain ⟨second, between, reducedStart, ranStart⟩ := ihStart targeted.2.2.1 untouched
      obtain ⟨third, after, reducedFinish, ranFinish⟩ := ihFinish targeted.2.2.2 between
      have ran : ∀ rest stack,
          run scope line ((OperatorTree.ternary operator three array start finish).postorder ++ rest)
            stack heap =
          run scope line (.operator operator :: rest) (third :: second :: first :: stack) after := by
        intro rest stack
        simp only [OperatorTree.postorder, List.append_assoc, List.singleton_append]
        rw [ranArray, ranStart, ranFinish]
      cases operator with
      | slice =>
          obtain ⟨handle, named⟩ := Option.isSome_iff_exists.mp (targeted.1 rfl)
          obtain ⟨found, -⟩ := reduce_of_array named .slice line reducedArray
          let copied := after.newArray (sliced (after.items handle)
            (after.numberOf (second.resolve scope)) (after.numberOf (third.resolve scope)))
          refine ⟨.value copied.1, copied.2, ?_, ?_⟩
          · simp only [OperatorTree.reduce, reducedArray, reducedStart, reducedFinish, named]
            rfl
          · intro rest stack
            rw [ran]
            exact run_operator (by simp only [apply, found]; rfl) rest
      | splice =>
          obtain ⟨handle, named⟩ := Option.isSome_iff_exists.mp (targeted.1 rfl)
          obtain ⟨found, -⟩ := reduce_of_array named .splice line reducedArray
          refine ⟨.value (.array handle), after.modifyItems handle fun items => spliced items
            (after.numberOf (second.resolve scope)) (after.numberOf (third.resolve scope)), ?_, ?_⟩
          · simp only [OperatorTree.reduce, reducedArray, reducedStart, reducedFinish, named]
            rfl
          · intro rest stack
            rw [ran]
            exact run_operator (by simp only [apply, found]) rest
      | _ => cases three

/-- How an operand on the stack stands for the tree it came from: a leaf as it is, and any other
tree as a value. -/
def StandsFor : OperatorTree Operand → Operand → Prop
  | .leaf held, operand => operand = held
  | _, operand => ∃ value, operand = .value value

theorem array_of_target {scope : Scope} {tree : OperatorTree Operand} {operand : Operand}
    {operator : Operator} {line handle : Nat} (stands : StandsFor tree operand)
    (found : operand.target scope operator line = .ok handle) : (tree.array? scope).isSome := by
  cases tree with
  | leaf held =>
      cases stands
      cases operand with
      | value value => cases found
      | reference name =>
          simp only [Operand.target] at found
          split at found
          · next held bound => rw [OperatorTree.array?, bound, Option.isSome_some]
          · cases found
  | _ =>
      obtain ⟨value, rfl⟩ := stands
      cases found

/-- What an operator that succeeds takes from the stack and leaves on it. -/
theorem apply_cases {scope : Scope} {line : Nat} {operator : Operator} {stack next : List Operand}
    {heap changed : Heap} (applied : apply scope line operator stack heap = (.ok next, changed)) :
    ∃ taken rest value, stack = taken ++ rest ∧ taken.length = operator.arity ∧
      next = .value value :: rest ∧
      (operator.actsOnArray = true → ∃ array handle, taken.getLast? = some array ∧
        array.target scope operator line = .ok handle) := by
  unfold apply at applied
  split at applied
  · next value array rest =>
      split at applied
      · cases applied
      · next handle found =>
          cases applied
          exact ⟨[value, array], rest, _, rfl, rfl, rfl, fun _ => ⟨array, handle, rfl, found⟩⟩
  · next array rest =>
      split at applied
      · cases applied
      · next handle found =>
          cases applied
          exact ⟨[array], rest, _, rfl, rfl, rfl, fun _ => ⟨array, handle, rfl, found⟩⟩
  · next finish start array rest =>
      split at applied
      · cases applied
      · next handle found =>
          cases applied
          exact ⟨[finish, start, array], rest, _, rfl, rfl, rfl, fun _ => ⟨array, handle, rfl, found⟩⟩
  · next amount start array rest =>
      split at applied
      · cases applied
      · next handle found =>
          cases applied
          exact ⟨[amount, start, array], rest, _, rfl, rfl, rfl, fun _ => ⟨array, handle, rfl, found⟩⟩
  · next right left rest _ _ _ _ =>
      split at applied
      · cases applied
      · next plain =>
          cases applied
          refine ⟨[right, left], rest, _, rfl, ?_, rfl, fun acts => absurd acts plain⟩
          cases operator
          all_goals first | rfl | exact absurd rfl plain
  · cases applied

/-- The items behind a stack of trees, the newest tree first. -/
def listing : List (OperatorTree Operand) → List Item
  | [] => []
  | tree :: older => listing older ++ tree.postorder

/-- A stack together with the trees its operands came from, and all array operators in them named
their arrays. -/
def Represents (scope : Scope) (forest : List (OperatorTree Operand)) (stack : List Operand) : Prop :=
  List.Forall₂ (fun tree operand => StandsFor tree operand ∧ tree.Targeted scope) forest stack

theorem Represents.leaf {scope : Scope} {forest : List (OperatorTree Operand)} {stack : List Operand}
    (represents : Represents scope forest stack) (operand : Operand) :
    Represents scope (.leaf operand :: forest) (operand :: stack) :=
  .cons ⟨rfl, trivial⟩ represents

theorem arity_bounds (operator : Operator) : 1 ≤ operator.arity ∧ operator.arity ≤ 3 := by
  cases operator <;> decide

/-- An operator that succeeds joins the newest trees under itself. -/
theorem apply_represents {scope : Scope} {line : Nat} {operator : Operator}
    {stack next : List Operand} {heap changed : Heap} {forest : List (OperatorTree Operand)}
    (applied : apply scope line operator stack heap = (.ok next, changed))
    (represents : Represents scope forest stack) :
    ∃ grown, Represents scope grown next ∧ listing grown = listing forest ++ [.operator operator] := by
  obtain ⟨taken, rest, value, rfl, count, rfl, acts⟩ := apply_cases applied
  have bounds := arity_bounds operator
  have named : ∀ tree operand, taken.getLast? = some operand → StandsFor tree operand →
      operator.actsOnArray = true → (tree.array? scope).isSome := by
    intro tree operand last stands array
    obtain ⟨target, handle, same, found⟩ := acts array
    rw [last] at same
    cases same
    exact array_of_target stands found
  match taken, count, represents with
  | [], few, _ =>
      simp only [List.length_nil] at few
      omega
  | [_], one, .cons ⟨stands, targeted⟩ older =>
      refine ⟨.unary operator one.symm _ :: _, .cons ⟨⟨value, rfl⟩, ?_, targeted⟩ older, ?_⟩
      · exact named _ _ rfl stands
      · simp [listing, OperatorTree.postorder]
  | [_, _], two, .cons ⟨_, rightTargeted⟩ (.cons ⟨stands, leftTargeted⟩ older) =>
      refine ⟨.binary operator two.symm _ _ :: _,
        .cons ⟨⟨value, rfl⟩, ?_, leftTargeted, rightTargeted⟩ older, ?_⟩
      · exact named _ _ rfl stands
      · simp [listing, OperatorTree.postorder]
  | [_, _, _], three, .cons ⟨_, thirdTargeted⟩ (.cons ⟨_, secondTargeted⟩
      (.cons ⟨stands, firstTargeted⟩ older)) =>
      refine ⟨.ternary operator three.symm _ _ _ :: _,
        .cons ⟨⟨value, rfl⟩, ?_, firstTargeted, secondTargeted, thirdTargeted⟩ older, ?_⟩
      · exact named _ _ rfl stands
      · simp [listing, OperatorTree.postorder]
  | _ :: _ :: _ :: _ :: _, many, _ =>
      simp only [List.length_cons] at many
      omega

/-- Running items grows the trees by exactly these items. -/
theorem run_represents {scope : Scope} {line : Nat} {items : List Item} {stack final : List Operand}
    {heap changed : Heap} {forest : List (OperatorTree Operand)}
    (ran : run scope line items stack heap = (.ok final, changed))
    (represents : Represents scope forest stack) :
    ∃ grown, Represents scope grown final ∧ listing grown = listing forest ++ items := by
  fun_induction run scope line items stack heap generalizing forest with
  | case1 =>
      cases ran
      exact ⟨forest, represents, by simp⟩
  | case2 value rest stack heap ih =>
      obtain ⟨grown, shown, same⟩ := ih ran (represents.leaf (.value value))
      exact ⟨grown, shown, by simp [same, listing, OperatorTree.postorder, Operand.toItem]⟩
  | case3 name rest stack heap ih =>
      obtain ⟨grown, shown, same⟩ := ih ran (represents.leaf (.reference name))
      exact ⟨grown, shown, by simp [same, listing, OperatorTree.postorder, Operand.toItem]⟩
  | case4 => cases ran
  | case5 operator rest stack heap next changed applied ih =>
      obtain ⟨joined, joinedShown, joinedSame⟩ := apply_represents applied represents
      obtain ⟨grown, shown, same⟩ := ih ran joinedShown
      exact ⟨grown, shown, by simp [same, joinedSame]⟩

/-- Items evaluate to a value exactly when they list one tree whose array operators name their
arrays; value and heap are then those of the tree. -/
theorem evaluate_accepts_postorder (scope : Scope) (line : Nat) (items : List Item) (heap : Heap) :
    ((∃ value, (evaluate scope line items heap).1 = .ok value) ↔
      ∃ tree : OperatorTree Operand, tree.postorder = items ∧ tree.Targeted scope) ∧
    ∀ tree : OperatorTree Operand, tree.postorder = items → tree.Targeted scope →
      ∃ value final, tree.evaluate scope heap = some (value, final) ∧
        evaluate scope line items heap = (.ok value, final) := by
  have computes : ∀ tree : OperatorTree Operand, tree.postorder = items → tree.Targeted scope →
      ∃ value final, tree.evaluate scope heap = some (value, final) ∧
        evaluate scope line items heap = (.ok value, final) := by
    rintro tree rfl targeted
    obtain ⟨operand, final, reduced, ran⟩ := run_postorder scope line tree targeted heap
    have ranAll := ran [] []
    rw [List.append_nil] at ranAll
    refine ⟨operand.resolve scope, final, ?_, ?_⟩
    · simp only [OperatorTree.evaluate, reduced, Option.map_some]
    · simp only [evaluate, ranAll, run]
  refine ⟨⟨?_, ?_⟩, computes⟩
  · rintro ⟨value, succeeded⟩
    unfold evaluate at succeeded
    split at succeeded
    · cases succeeded
    · next operand final ran =>
        obtain ⟨grown, represents, same⟩ := run_represents ran .nil
        match grown, represents with
        | [tree], .cons ⟨_, targeted⟩ .nil => exact ⟨tree, by simpa [listing] using same, targeted⟩
    · cases succeeded
  · rintro ⟨tree, listed, targeted⟩
    obtain ⟨value, final, -, evaluated⟩ := computes tree listed targeted
    exact ⟨value, by rw [evaluated]⟩

/-- The last item of an array goes back into the same array, which is on both sides of the tree. -/
theorem evaluate_accepts_postorder_aliased :
    ∃ value final,
      (OperatorTree.binary .push rfl (.leaf (.reference "a"))
        (.unary .pop rfl (.leaf (.reference "a")))).evaluate ⟨[("a", .array 0)], []⟩
          ⟨#[#[.null, .bool true]], #[], #[]⟩ = some (value, final) ∧
      evaluate ⟨[("a", .array 0)], []⟩ 1
        [.reference "a", .reference "a", .operator .pop, .operator .push]
        ⟨#[#[.null, .bool true]], #[], #[]⟩ = (.ok value, final) :=
  (evaluate_accepts_postorder _ 1 _ _).2 _ rfl (by
    refine ⟨fun _ => ?_, trivial, fun _ => ?_, trivial⟩
    · decide +kernel
    · decide +kernel)

end Code

end ScriptSandbox
