import ScriptSandbox.Proofs.Expression.Operations
import ScriptSandbox.Proofs.Value.Copies

/-!
Snapshots are stable. What is loaded from the snapshot of any value has that snapshot again. When the
value has no cycles and holds only data, what is loaded is equal to it by structure and shares no
container with it, so no change to another array ever reaches it.
-/

namespace ScriptSandbox

/-- Which kind of JSON; integers and floats are one, the numbers. -/
def Json.kind : Json → Nat
  | .null => 0
  | .bool _ => 1
  | .integer _ | .float _ => 2
  | .string _ => 3
  | .array _ => 4
  | .object _ => 5

/-- The kind of JSON that a value without cycles is written as. -/
def Value.kind : Value → Nat
  | .null | .function _ => 0
  | .bool _ => 1
  | .number _ => 2
  | .string _ => 3
  | .array _ => 4
  | .record _ => 5

namespace Heap

open Json

variable {heap : Heap}

theorem kind_snapshot {value : Value} (datum : isDatum value = true) :
    (heap.snapshot value).kind = value.kind := by
  cases value with
  | number value =>
      show (ofNumber value).kind = 2
      rcases of_number_cases value with ⟨not, -⟩ | ⟨-, form⟩ | ⟨-, whole, form, -⟩
      · exact absurd datum (by simp [isDatum, not])
      · rw [form]
        rfl
      · rw [form]
        rfl
  | array handle => simp [snapshot, snapshotWithin, Json.kind, Value.kind]
  | record handle => simp [snapshot, snapshotWithin, Json.kind, Value.kind]
  | _ => rfl

/-- Values without cycles that hold only data and have one snapshot. -/
def SameSnapshot (heap : Heap) (left right : Value) : Prop :=
  (heap.Acyclic left ∧ heap.Data left) ∧ (heap.Acyclic right ∧ heap.Data right) ∧
    heap.snapshot left = heap.snapshot right

theorem SameSnapshot.parts {left right : Container} {first second : Value}
    (same : heap.SameSnapshot left.toValue right.toValue) (inLeft : first ∈ heap.parts left)
    (inRight : second ∈ heap.parts right) (alike : heap.snapshot first = heap.snapshot second) :
    heap.SameSnapshot first second :=
  ⟨⟨same.1.1.part inLeft, same.1.2.part inLeft⟩,
    ⟨same.2.1.1.part inRight, same.2.1.2.part inRight⟩, alike⟩

theorem forall_of_map_eq {lefts rights : List Value} {related : Value → Value → Prop}
    {write : Value → Json} (same : lefts.map write = rights.map write)
    (each : ∀ left ∈ lefts, ∀ right ∈ rights, write left = write right → related left right) :
    List.Forall₂ related lefts rights := by
  induction lefts generalizing rights with
  | nil =>
      cases rights with
      | nil => exact .nil
      | cons right rights => cases same
  | cons left lefts ih =>
      cases rights with
      | nil => cases same
      | cons right rights =>
          rcases List.cons_eq_cons.mp same with ⟨first, rest⟩
          refine .cons (each left List.mem_cons_self right List.mem_cons_self first) (ih rest ?_)
          intro left inLeft right inRight
          exact each left (List.mem_cons_of_mem _ inLeft) right (List.mem_cons_of_mem _ inRight)

theorem SameSnapshot.arrays {left right : Nat}
    (same : heap.SameSnapshot (.array left) (.array right)) :
    heap.Matched heap.SameSnapshot (.array left) (.array right) := by
  have items := same.2.2
  rw [same.1.1.snapshot_array, same.2.1.1.snapshot_array] at items
  refine .array (forall_of_map_eq (Json.array.inj items) ?_)
  intro first inLeft second inRight alike
  exact @SameSnapshot.parts heap (.array left) (.array right) _ _ same inLeft inRight alike

theorem SameSnapshot.records {left right : Nat}
    (same : heap.SameSnapshot (.record left) (.record right)) :
    heap.Matched heap.SameSnapshot (.record left) (.record right) := by
  have fields := same.2.2
  rw [same.1.1.snapshot_record, same.2.1.1.snapshot_record] at fields
  have found (key : String) : ((heap.fields left).get? key).map heap.snapshot =
      ((heap.fields right).get? key).map heap.snapshot := by
    rw [← Table.get_map, ← Table.get_map, Json.object.inj fields]
  refine .record (fun key => ?_) fun key first second inLeft inRight => ?_
  · have both := congrArg Option.isSome (found key)
    rw [Option.isSome_map, Option.isSome_map] at both
    exact both
  · have alike := found key
    rw [inLeft, inRight] at alike
    exact @SameSnapshot.parts heap (.record left) (.record right) _ _ same
      (List.mem_map_of_mem (Table.mem_of_get inLeft)) (List.mem_map_of_mem (Table.mem_of_get inRight))
      (Option.some.inj alike)

theorem same_snapshot_is_bisimulation (heap : Heap) : heap.IsBisimulation heap.SameSnapshot := by
  intro left right same
  have kinds : left.kind = right.kind := by
    rw [← kind_snapshot same.1.2.1, ← kind_snapshot same.2.1.2.1, same.2.2]
  have datum := same.1.2.1
  have datumToo := same.2.1.2.1
  cases left with
  | null =>
      cases right with
      | null => exact .null
      | function handle => cases datumToo
      | _ => cases kinds
  | bool first =>
      cases right with
      | bool second =>
          cases Json.bool.inj same.2.2
          exact .bool first
      | _ => cases kinds
  | number first =>
      cases right with
      | number second => exact .number (alike_of_same_json datum same.2.2)
      | _ => cases kinds
  | string first =>
      cases right with
      | string second =>
          cases Json.string.inj same.2.2
          exact .string first
      | _ => cases kinds
  | array first =>
      cases right with
      | array second => exact same.arrays
      | _ => cases kinds
  | record first =>
      cases right with
      | record second => exact same.records
      | _ => cases kinds
  | function handle => cases datum

theorem new_record_well_keyed (keyed : heap.WellKeyed) {entries : Table Value}
    (distinct : entries.Distinct) : (heap.newRecord entries).2.WellKeyed := by
  intro handle
  have makes := new_record_makes heap entries
  by_cases made : handle = heap.records.size
  · have fields : (heap.newRecord entries).2.fields handle = entries := by
      simp [newRecord, fields, made]
    rw [fields]
    exact distinct
  · have kept : (heap.newRecord entries).2.fields handle = heap.fields handle :=
      makes.same (.record handle) fun same => made (Container.record.inj same)
    rw [kept]
    exact keyed handle

theorem load_fields_keys (heap : Heap) (fields : List (String × Json)) :
    (heap.loadFields fields).1.map Prod.fst = fields.map Prod.fst := by
  induction fields generalizing heap with
  | nil => rfl
  | cons field rest ih => exact List.cons_eq_cons.mpr ⟨rfl, ih (heap.load field.2).2⟩

mutual

/-- Objects that name nothing twice are loaded into such records. -/
theorem load_well_keyed {heap : Heap} (keyed : heap.WellKeyed) {room : Nat} {json : Json}
    (shaped : Shaped room json) : (heap.load json).2.WellKeyed := by
  cases json with
  | array items =>
      cases shaped with
      | array each => exact load_items_well_keyed keyed each
  | object fields =>
      cases shaped with
      | object distinct each =>
          apply new_record_well_keyed (load_fields_well_keyed keyed each)
          rw [Table.Distinct, load_fields_keys]
          exact distinct
  | _ => exact keyed

theorem load_items_well_keyed {heap : Heap} (keyed : heap.WellKeyed) {room : Nat}
    {items : List Json} (shaped : ∀ item ∈ items, Shaped room item) : (heap.loadItems items).2.WellKeyed := by
  cases items with
  | nil => exact keyed
  | cons item rest =>
      have each := List.forall_mem_cons.mp shaped
      exact load_items_well_keyed (load_well_keyed keyed each.1) each.2

theorem load_fields_well_keyed {heap : Heap} (keyed : heap.WellKeyed) {room : Nat}
    {fields : List (String × Json)} (shaped : ∀ field ∈ fields, Shaped room field.2) : (heap.loadFields fields).2.WellKeyed := by
  cases fields with
  | nil => exact keyed
  | cons field rest =>
      have each := List.forall_mem_cons.mp shaped
      exact load_fields_well_keyed (load_well_keyed keyed each.1) each.2

end

/-- A push, pop or splice on one of the arrays that may change. -/
inductive Edited (may : Nat → Prop) : Heap → Heap → Prop
  | push {scope : Scope} {line handle : Nat} {item array : Operand} {stack : List Operand}
      {heap : Heap} (target : array.target scope .push line = .ok handle) (allowed : may handle) :
      Edited may heap (Code.apply scope line .push (item :: array :: stack) heap).2
  | pop {scope : Scope} {line handle : Nat} {array : Operand} {stack : List Operand} {heap : Heap}
      (target : array.target scope .pop line = .ok handle) (allowed : may handle) :
      Edited may heap (Code.apply scope line .pop (array :: stack) heap).2
  | splice {scope : Scope} {line handle : Nat} {amount start array : Operand}
      {stack : List Operand} {heap : Heap}
      (target : array.target scope .splice line = .ok handle) (allowed : may handle) :
      Edited may heap (Code.apply scope line .splice (amount :: start :: array :: stack) heap).2

/-- The heap after any number of them. -/
abbrev Edits (may : Nat → Prop) : Heap → Heap → Prop :=
  Relation.ReflTransGen (Edited may)

section

variable {may : Nat → Prop} {before after : Heap} {container : Container}
  (apart : ∀ handle, may handle → container ≠ .array handle)
include apart

theorem Edited.kept (edited : Edited may before after) : before.SameContents after container := by
  cases edited with
  | push target allowed =>
      simp only [Code.apply, target]
      exact same_after_modify_items _ _ _ (apart _ allowed)
  | pop target allowed =>
      simp only [Code.apply, target]
      exact same_after_modify_items _ _ _ (apart _ allowed)
  | splice target allowed =>
      simp only [Code.apply, target]
      exact same_after_modify_items _ _ _ (apart _ allowed)

theorem edits_keep (edits : Edits may before after) : before.SameContents after container := by
  induction edits with
  | refl => exact same_contents_refl before container
  | tail _ edited ih => exact ih.trans (edited.kept apart)

end

/-- Every container in the value was made in this heap. -/
def Closed (heap : Heap) (value : Value) : Prop :=
  ∀ container, heap.Inside value container → heap.Has container

/-- What is loaded from the snapshot of a value has that snapshot again, keys in the same order. When
the value has no cycles and holds only data, what is loaded is equal to it by structure, shares no
container with it, and is as it was after any pushes, pops and splices on arrays of the value, or on
any others but its own. -/
theorem snapshot_stable (heap : Heap) (value : Value) :
    let copied := heap.load (heap.snapshot value)
    copied.2.snapshot copied.1 = heap.snapshot value ∧
      (heap.WellKeyed → heap.Closed value → heap.Acyclic value → heap.Data value →
        copied.2.same copied.1 value = true ∧
        (∀ container, copied.2.Inside value container → ¬copied.2.Inside copied.1 container) ∧
        ∀ later, Edits (fun handle => ¬copied.2.Inside copied.1 (.array handle)) copied.2 later →
          later.snapshot copied.1 = heap.snapshot value ∧
          ∀ container, copied.2.Inside copied.1 container →
            copied.2.SameContents later container) := by
  intro copied
  rcases load_copy heap (heap.snapshot_within_settled _ [] value) with ⟨grows, copy, shown⟩
  refine ⟨shown, fun keyed closed acyclic data => ?_⟩
  have kept (container : Container) (inside : heap.Inside value container) :
      heap.SameContents copied.2 container :=
    grows.same container (closed container inside)
  refine ⟨?_, ?_, ?_⟩
  · have keyedThen : copied.2.WellKeyed := load_well_keyed keyed (snapshot_shaped keyed le_rfl)
    rw [same_iff keyedThen]
    apply bisimilar_of_bisimulation (same_snapshot_is_bisimulation copied.2)
    have still : copied.2.snapshot value = heap.snapshot value := snapshot_of_same kept
    exact ⟨⟨acyclic_of_acc copy.grounded, copy.data⟩, ⟨acyclic.of_same kept, data.of_same kept⟩,
      shown.trans still.symm⟩
  · intro container inside shared
    exact (copy.fresh container shared).2 (closed container (inside_of_same kept inside))
  · intro later edits
    have unchanged (container : Container) (inside : copied.2.Inside copied.1 container) :
        copied.2.SameContents later container := by
      refine edits_keep (fun handle outside same => ?_) edits
      rw [same] at inside
      exact outside inside
    exact ⟨(snapshot_of_same unchanged).trans shown, unchanged⟩

/-- An array that holds another one twice: the copy stays as it is when something is pushed onto the
array. -/
theorem snapshot_stable_pushed :
    let heap : Heap := ⟨#[#[.array 1, .array 1], #[.null]], #[], #[]⟩
    let scope : Scope := ⟨[("list", .array 0)], []⟩
    let copied := heap.load (heap.snapshot (.array 0))
    let later := (Code.apply scope 1 .push [.value .null, .reference "list"] copied.2).2
    copied.2.same copied.1 (.array 0) = true ∧ later.same copied.1 (.array 0) = false ∧
      later.snapshot copied.1 = .array [.array [.null], .array [.null]] := by
  intro heap scope copied later
  have holdsOuter (inner : Container) (holds : heap.Holds (.array 0) inner) : inner = .array 1 := by
    have member : inner.toValue ∈ [Value.array 1, .array 1] := holds
    exact @Container.to_value_inj inner (.array 1) (by simpa [Container.toValue] using member)
  have holdsInner (inner : Container) : ¬heap.Holds (.array 1) inner := by
    intro holds
    have member : inner.toValue ∈ [Value.null] := holds
    cases inner <;> simp [Container.toValue] at member
  have inside (container : Container) (within : heap.Inside (.array 0) container) :
      container = .array 0 ∨ container = .array 1 := by
    rcases @inside_cases heap (.array 0) container within with same | ⟨part, member, inner⟩
    · exact .inl same
    · have second : part = (Container.array 1).toValue := by
        simpa [heap, parts, items, Container.toValue] using member
      rw [second] at inner
      rcases inside_cases inner with same | ⟨part, member, ⟨root, rooted, -⟩⟩
      · exact .inr same
      · exact absurd (holds_of_part member rooted) (holdsInner root)
  have closed : heap.Closed (.array 0) := by
    intro container within
    rcases inside container within with rfl | rfl
    · exact Nat.two_pos
    · exact Nat.one_lt_two
  have grounded (container : Container) (within : heap.Inside (.array 0) container) :
      Acc heap.Below container := by
    have second : Acc heap.Below (.array 1) := .intro _ fun inner holds => absurd holds (holdsInner inner)
    rcases inside container within with rfl | rfl
    · exact .intro _ fun inner holds => holdsOuter inner holds ▸ second
    · exact second
  have data : heap.Data (.array 0) := by
    refine ⟨rfl, fun container within part member => ?_⟩
    rcases inside container within with rfl | rfl
    · have same : part = .array 1 := by simpa [heap, parts, items] using member
      rw [same]
      rfl
    · have same : part = .null := by simpa [heap, parts, items] using member
      rw [same]
      rfl
  have stable := (snapshot_stable heap (.array 0)).2 (by decide) closed (acyclic_of_acc grounded) data
  have outside : ¬copied.2.Inside copied.1 (.array 0) := stable.2.1 _ (inside_self _ (.array 0))
  have edits : Edits (fun handle => ¬copied.2.Inside copied.1 (.array handle)) copied.2 later :=
    .single (.push rfl outside)
  exact ⟨stable.1, by decide +kernel, (stable.2.2 later edits).1⟩

end Heap

end ScriptSandbox
