import ScriptSandbox.Expression.Code
import ScriptSandbox.Proofs.Value.Separation

/-!
What an operator does to the heap. It fails and leaves the heap alone, or it computes a scalar, or it
changes or copies an array that a variable is bound to; nothing else in the heap is touched. Items
only move between such arrays, so what is sealed in a record stays there.
-/

namespace ScriptSandbox

theorem Operator.apply_plain (operator : Operator) (heap : Heap) (left right : Value) :
    (operator.apply heap left right).isHandle = false := by
  cases operator with
  | plus =>
      unfold Operator.apply
      dsimp only
      split <;> rfl
  | _ => rfl

theorem Operand.target_reference {scope : Scope} {operator : Operator} {line handle : Nat}
    {array : Operand} (target : array.target scope operator line = .ok handle) :
    ∃ name, array = .reference name ∧ scope.bindings.get? name = some (.array handle) := by
  cases array with
  | value held => cases target
  | reference name =>
      unfold Operand.target at target
      dsimp only at target
      split at target
      · next bound =>
          cases target
          exact ⟨name, rfl, bound⟩
      · cases target

theorem Operand.target_bound {scope : Scope} {operator : Operator} {line handle : Nat}
    {array : Operand} (target : array.target scope operator line = .ok handle) :
    ∃ name, scope.bindings.get? name = some (.array handle) := by
  obtain ⟨name, -, bound⟩ := target_reference target
  exact ⟨name, bound⟩

namespace Code

theorem mem_of_mem_extract {items : Array Value} {first last : Nat} {item : Value}
    (member : item ∈ items.extract first last) : item ∈ items := by
  rcases Array.mem_extract_iff_getElem.mp member with ⟨index, bound, rfl⟩
  exact Array.getElem_mem _

theorem mem_of_mem_pop {items : Array Value} {item : Value} (member : item ∈ items.pop) :
    item ∈ items := by
  rw [← Array.mem_toList_iff, Array.toList_pop] at member
  exact Array.mem_toList_iff.mp ((List.dropLast_sublist _).subset member)

theorem mem_of_mem_spliced {items : Array Value} {start amount : Number} {item : Value}
    (member : item ∈ spliced items start amount) : item ∈ items := by
  rcases Array.mem_append.mp member with before | behind
  · exact mem_of_mem_extract before
  · exact mem_of_mem_extract behind

/-- The value an operator leaves and the heap behind it. -/
inductive Effect (scope : Scope) (line : Nat) (operator : Operator) (stack : List Operand)
    (heap : Heap) : Value → Heap → Prop
  | scalar {value : Value} (plain : value.isHandle = false) :
      Effect scope line operator stack heap value heap
  | change {array : Operand} {handle : Nat} {value : Value} {change : Array Value → Array Value}
      (target : array.target scope operator line = .ok handle)
      (left : value = .array handle ∨ value = .null ∨ value ∈ heap.items handle)
      (items : ∀ item ∈ change (heap.items handle),
        item ∈ heap.items handle ∨ ∃ operand ∈ stack, item = operand.resolve scope) :
      Effect scope line operator stack heap value (heap.modifyItems handle change)
  | copy {array : Operand} {handle : Nat} {copied : Array Value}
      (target : array.target scope operator line = .ok handle)
      (items : ∀ item ∈ copied, item ∈ heap.items handle) :
      Effect scope line operator stack heap (heap.newArray copied).1 (heap.newArray copied).2

theorem apply_effect {scope : Scope} {line : Nat} {operator : Operator} {stack : List Operand}
    {heap after : Heap} {result : Except Fault (List Operand)}
    (applied : apply scope line operator stack heap = (result, after)) :
    (∃ fault, result = .error fault ∧ after = heap) ∨
    (∃ value rest, result = .ok (.value value :: rest) ∧ rest <:+ stack ∧
      Effect scope line operator stack heap value after) := by
  unfold apply at applied
  split at applied
  · next value array rest =>
      split at applied
      · next fault _ =>
          cases applied
          exact .inl ⟨fault, rfl, rfl⟩
      · next handle target =>
          cases applied
          refine .inr ⟨_, rest, rfl, ⟨[value, array], rfl⟩, .change target (.inl rfl) ?_⟩
          intro item member
          rcases Array.mem_push.mp member with old | new
          · exact .inl old
          · exact .inr ⟨value, by simp, new⟩
  · next array rest =>
      split at applied
      · next fault _ =>
          cases applied
          exact .inl ⟨fault, rfl, rfl⟩
      · next handle target =>
          cases applied
          refine .inr ⟨_, rest, rfl, ⟨[array], rfl⟩, .change target (.inr ?_) ?_⟩
          · cases last : (heap.items handle).back? with
            | none => exact .inl rfl
            | some value => exact .inr (Array.mem_of_back? last)
          · intro item member
            exact .inl (mem_of_mem_pop member)
  · next finish start array rest =>
      split at applied
      · next fault _ =>
          cases applied
          exact .inl ⟨fault, rfl, rfl⟩
      · next handle target =>
          cases applied
          exact .inr ⟨_, rest, rfl, ⟨[finish, start, array], rfl⟩, .copy target fun item => mem_of_mem_extract⟩
  · next amount start array rest =>
      split at applied
      · next fault _ =>
          cases applied
          exact .inl ⟨fault, rfl, rfl⟩
      · next handle target =>
          cases applied
          exact .inr ⟨_, rest, rfl, ⟨[amount, start, array], rfl⟩, .change target (.inl rfl) fun item member =>
            .inl (mem_of_mem_spliced member)⟩
  · next right left rest _ _ _ _ =>
      split at applied
      · cases applied
        exact .inl ⟨_, rfl, rfl⟩
      · cases applied
        exact .inr ⟨_, rest, rfl, ⟨[right, left], rfl⟩, .scalar (operator.apply_plain _ _ _)⟩
  · cases applied
    exact .inl ⟨_, rfl, rfl⟩

end Code

namespace Heap

section

variable (heap : Heap) (handle : Nat) (change : Array Value → Array Value)

theorem has_modify_items {container : Container} :
    (heap.modifyItems handle change).Has container ↔ heap.Has container := by
  cases container <;> simp [modifyItems, Has]

theorem same_after_modify_items {container : Container} (other : container ≠ .array handle) :
    heap.SameContents (heap.modifyItems handle change) container := by
  cases container with
  | array different =>
      have differs : handle ≠ different := fun same => other (congrArg _ same.symm)
      simp [SameContents, modifyItems, items, Array.getD_eq_getD_getElem?, Array.getElem?_modify,
        differs]
  | record handle => rfl

theorem items_modify_items {handle : Nat} (has : heap.Has (.array handle)) :
    (heap.modifyItems handle change).items handle = change (heap.items handle) := by
  have made : handle < heap.arrays.size := has
  simp [modifyItems, items, Array.getElem_modify_self, made]

end

theorem outer_of_plain (heap : Heap) {value : Value} (plain : value.isHandle = false) :
    heap.Outer value := by
  cases value with
  | array handle => cases plain
  | record handle => cases plain
  | function handle => cases plain
  | _ => trivial

end Heap

/-- No variable is bound to an array from inside a record. -/
def Scope.Outside (scope : Scope) (heap : Heap) : Prop :=
  ∀ name value, scope.bindings.get? name = some value → heap.Outer value

theorem Scope.Outside.resolve {scope : Scope} {heap : Heap} (outside : scope.Outside heap)
    (name : String) : heap.Outer (scope.resolve name) := by
  unfold Scope.resolve
  split
  · next value bound => exact outside name value bound
  · split <;> trivial

namespace Code

variable {scope : Scope} {line : Nat} {operator : Operator} {stack : List Operand}
  {heap after : Heap} {value : Value}

theorem Effect.separated (effect : Effect scope line operator stack heap value after)
    (separated : heap.Separated) (outside : scope.Outside heap)
    (held : ∀ value, .value value ∈ stack → heap.Outer value) :
    heap.Evolves after ∧ after.Separated ∧ after.Outer value := by
  cases effect with
  | scalar plain => exact ⟨heap.evolves_refl, separated, heap.outer_of_plain plain⟩
  | @change _ handle _ change target left items =>
      rcases Operand.target_bound target with ⟨name, bound⟩
      have array : heap.Outer (.array handle) := outside name _ bound
      have old (item : Value) (member : item ∈ heap.items handle) : heap.Outer item :=
        separated.apart handle array.2 item (Array.mem_toList_iff.mpr member)
      have outer (item : Value)
          (member : item ∈ ((heap.modifyItems handle change).items handle).toList) :
          heap.Outer item := by
        rw [Array.mem_toList_iff, heap.items_modify_items change array.1] at member
        rcases items item member with there | ⟨operand, given, same⟩
        · exact old item there
        · rw [same]
          cases operand with
          | value item => exact held item given
          | reference name => exact outside.resolve name
      obtain ⟨evolves, after, -⟩ := Heap.change_outside separated array.2
        (fun container => (heap.has_modify_items handle change).mpr)
        (fun container => heap.same_after_modify_items handle change) outer
      refine ⟨evolves, after, evolves.outer ?_⟩
      rcases left with same | none | member
      · rw [same]
        exact array
      · rw [none]
        trivial
      · exact old value member
  | @copy _ handle copied target items =>
      rcases Operand.target_bound target with ⟨name, bound⟩
      have array : heap.Outer (.array handle) := outside name _ bound
      apply Heap.new_array_outside separated
      intro item member
      have there := items item (Array.mem_toList_iff.mp member)
      exact separated.apart handle array.2 item (Array.mem_toList_iff.mpr there)

/-- An operator applied to values that may be outside of records leaves such a value and touches no
record. -/
theorem apply_separated (separated : heap.Separated) (outside : scope.Outside heap)
    (held : ∀ value, .value value ∈ stack → heap.Outer value)
    {result : Except Fault (List Operand)}
    (applied : apply scope line operator stack heap = (result, after)) :
    heap.Evolves after ∧ after.Separated ∧
      ∀ next, result = .ok next → ∀ value, .value value ∈ next → after.Outer value := by
  rcases apply_effect applied with ⟨fault, failed, same⟩ | ⟨value, rest, done, suffix, effect⟩
  · rw [same]
    refine ⟨heap.evolves_refl, separated, fun next succeeded => ?_⟩
    rw [failed] at succeeded
    cases succeeded
  · rcases effect.separated separated outside held with ⟨evolves, still, outer⟩
    refine ⟨evolves, still, fun next succeeded other member => ?_⟩
    rw [done] at succeeded
    cases succeeded
    rcases List.mem_cons.mp member with same | kept
    · cases same
      exact outer
    · exact evolves.outer (held other (suffix.subset kept))

end Code

end ScriptSandbox
