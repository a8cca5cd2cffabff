import Mathlib.Data.List.Basic
import Mathlib.Logic.Relation
import ScriptSandbox.Value.Snapshot

/-!
What containers hold, directly and further down. Everything that is said of a container here depends
on no more of the heap than can be reached from it, so it survives every change made elsewhere.
-/

namespace ScriptSandbox

def Container.toValue : Container → Value
  | .array handle => .array handle
  | .record handle => .record handle

theorem Container.to_value_inj {first second : Container} (same : first.toValue = second.toValue) :
    first = second := by
  cases first <;> cases second <;> cases same <;> rfl

section

variable {Kind : Type} [DecidableEq Kind] {all opened : List Kind}

/-- How many of all are not among the opened ones. -/
def unopened (all opened : List Kind) : Nat :=
  (all.filter (· ∉ opened)).length

theorem unopened_nil : unopened all [] = all.length := by
  rw [unopened, List.filter_eq_self.mpr (by simp)]

theorem unopened_lt {one : Kind} (member : one ∈ all) (new : one ∉ opened) :
    unopened all (one :: opened) < unopened all opened := by
  have again : all.filter (· ∉ one :: opened) = (all.filter (· ∉ opened)).filter (· ≠ one) := by
    rw [List.filter_filter]
    refine List.filter_congr fun other _ => ?_
    simp [not_or]
  rw [unopened, again, unopened, List.length_filter_lt_length_iff_exists]
  exact ⟨one, by simp [member, new], by simp⟩

end

namespace Heap

theorem lt_of_mem_items {heap : Heap} {handle : Nat} {value : Value}
    (member : value ∈ (heap.items handle).toList) : handle < heap.arrays.size := by
  by_contra outside
  simp [items, Array.getD, outside] at member

theorem lt_of_mem_fields {heap : Heap} {handle : Nat} {field : String × Value}
    (member : field ∈ heap.fields handle) : handle < heap.records.size := by
  by_contra outside
  simp [fields, Array.getD, outside] at member

/-- The values a container holds directly, in order. -/
def parts (heap : Heap) : Container → List Value
  | .array handle => (heap.items handle).toList
  | .record handle => (heap.fields handle).map Prod.snd

/-- The container was made in this heap. -/
def Has (heap : Heap) : Container → Prop
  | .array handle => handle < heap.arrays.size
  | .record handle => handle < heap.records.size

def Holds (heap : Heap) (outer inner : Container) : Prop :=
  inner.toValue ∈ heap.parts outer

/-- The second container is the first or lies somewhere inside it. -/
abbrev Within (heap : Heap) : Container → Container → Prop :=
  Relation.ReflTransGen heap.Holds

/-- The inner container of two is the smaller one. -/
abbrev Below (heap : Heap) (inner outer : Container) : Prop :=
  heap.Holds outer inner

/-- Both heaps hold the same in a container: items, or keys and values in order. -/
def SameContents (before after : Heap) : Container → Prop
  | .array handle => after.items handle = before.items handle
  | .record handle => after.fields handle = before.fields handle

theorem has_of_part {heap : Heap} {container : Container} {part : Value}
    (member : part ∈ heap.parts container) : heap.Has container := by
  cases container with
  | array handle => exact lt_of_mem_items member
  | record handle =>
      rcases List.mem_map.mp member with ⟨field, held, -⟩
      exact lt_of_mem_fields held

theorem has_of_holds {heap : Heap} {outer inner : Container} (holds : heap.Holds outer inner) :
    heap.Has outer :=
  has_of_part holds

theorem parts_of_same {before after : Heap} {container : Container}
    (same : before.SameContents after container) : after.parts container = before.parts container := by
  cases container with
  | array handle => exact congrArg Array.toList same
  | record handle => exact congrArg (List.map Prod.snd) same

theorem holds_iff_of_same {before after : Heap} {outer inner : Container}
    (same : before.SameContents after outer) :
    after.Holds outer inner ↔ before.Holds outer inner := by
  unfold Holds
  rw [parts_of_same same]

theorem SameContents.symm {before after : Heap} {container : Container}
    (same : before.SameContents after container) : after.SameContents before container := by
  cases container with
  | array handle => exact Eq.symm same
  | record handle => exact Eq.symm same

theorem SameContents.trans {first second third : Heap} {container : Container}
    (before : first.SameContents second container) (after : second.SameContents third container) :
    first.SameContents third container := by
  cases container with
  | array handle => exact Eq.trans after before
  | record handle => exact Eq.trans after before

theorem same_contents_refl (heap : Heap) (container : Container) :
    heap.SameContents heap container := by
  cases container <;> rfl

section

variable {before after : Heap} {root : Container}
  (same : ∀ container, before.Within root container → before.SameContents after container)
include same

/-- A change that leaves everything inside a container alone opens no way out of it. -/
theorem within_of_same {container : Container} (within : after.Within root container) :
    before.Within root container := by
  induction within with
  | refl => exact .refl
  | tail _ holds ih => exact ih.tail ((holds_iff_of_same (same _ ih)).mp holds)

theorem within_kept {container : Container} (within : before.Within root container) :
    after.Within root container := by
  induction within with
  | refl => exact .refl
  | tail reached holds ih => exact ih.tail ((holds_iff_of_same (same _ reached)).mpr holds)

end

/-- The container is the value or lies somewhere inside it. -/
def Inside (heap : Heap) (value : Value) (container : Container) : Prop :=
  ∃ root, value = root.toValue ∧ heap.Within root container

theorem inside_self (heap : Heap) (container : Container) :
    heap.Inside container.toValue container :=
  ⟨container, rfl, .refl⟩

section

variable {heap : Heap} {value part : Value} {outer inner container : Container}

theorem holds_of_part (member : part ∈ heap.parts outer) (rooted : part = inner.toValue) :
    heap.Holds outer inner := by
  rw [Holds, ← rooted]
  exact member

theorem inside_part (member : part ∈ heap.parts outer) (inside : heap.Inside part container) :
    heap.Inside outer.toValue container := by
  rcases inside with ⟨root, rooted, within⟩
  exact ⟨outer, rfl, .head (holds_of_part member rooted) within⟩

theorem inside_cases (inside : heap.Inside outer.toValue container) :
    container = outer ∨ ∃ part ∈ heap.parts outer, heap.Inside part container := by
  rcases inside with ⟨root, rooted, within⟩
  cases Container.to_value_inj rooted
  rcases Relation.ReflTransGen.cases_head within with rfl | ⟨inner, holds, rest⟩
  · exact .inl rfl
  · exact .inr ⟨inner.toValue, holds, inner, rfl, rest⟩

theorem inside_trans (inside : heap.Inside value outer) (within : heap.Within outer container) :
    heap.Inside value container := by
  rcases inside with ⟨root, rooted, reached⟩
  exact ⟨root, rooted, reached.trans within⟩

end

theorem inside_of_same {before after : Heap} {value : Value}
    (same : ∀ container, before.Inside value container → before.SameContents after container)
    {container : Container} (inside : after.Inside value container) :
    before.Inside value container := by
  rcases inside with ⟨root, rooted, within⟩
  exact ⟨root, rooted, within_of_same (fun inner reached => same inner ⟨root, rooted, reached⟩) within⟩

/-- What ends in finitely many levels still does after a change elsewhere. -/
theorem acc_of_same {before after : Heap} {root : Container} (grounded : Acc before.Below root)
    (same : ∀ container, before.Within root container → before.SameContents after container) :
    Acc after.Below root := by
  induction grounded with
  | intro root _ ih =>
      apply Acc.intro
      intro inner below
      have holds := (holds_iff_of_same (same root .refl)).mp below
      exact ih inner holds fun container within => same container (.head holds within)

theorem not_within_self_of_acc {heap : Heap} {root : Container} (grounded : Acc heap.Below root) :
    ¬Relation.TransGen heap.Holds root root := by
  induction grounded with
  | intro root _ ih =>
      intro cycle
      rcases Relation.TransGen.head'_iff.mp cycle with ⟨inner, holds, back⟩
      exact ih inner holds (Relation.TransGen.tail' back holds)

def containers (heap : Heap) : List Container :=
  (List.range heap.arrays.size).map .array ++ (List.range heap.records.size).map .record

theorem length_containers (heap : Heap) : heap.containers.length = heap.containerCount := by
  simp [containers, containerCount]

/-- A snapshot starts with room for every container. -/
theorem room_for_all (heap : Heap) : unopened heap.containers [] < heap.containerCount + 1 := by
  rw [unopened_nil, length_containers]
  exact Nat.lt_succ_self _

theorem mem_containers {heap : Heap} {container : Container} :
    container ∈ heap.containers ↔ heap.Has container := by
  cases container <;> simp [containers, Has]

section

variable {before after : Heap} {opened : List Container} {container : Container} {room other : Nat}

/-- Room for the unopened containers is room for those left inside one more of them. -/
theorem room_inside {heap : Heap} (enough : unopened heap.containers opened < room + 1)
    (new : container ∉ opened) (has : heap.Has container) :
    unopened heap.containers (container :: opened) < room := by
  have fewer := unopened_lt (mem_containers.mpr has) new
  omega

/-- The snapshot of a value depends on what lies inside it, and on the rest of the heap not even for
its room. -/
theorem snapshot_within_congr {value : Value}
    (enough : unopened before.containers opened < room)
    (enoughAfter : unopened after.containers opened < other)
    (same : ∀ root, value = root.toValue → ∀ container, before.Within root container →
      before.SameContents after container) :
    before.snapshotWithin room opened value = after.snapshotWithin other opened value := by
  induction room generalizing other opened value with
  | zero => cases enough
  | succ room ih =>
      cases other with
      | zero => cases enoughAfter
      | succ other =>
          -- A part of the container is compared inside one more open container.
          have inside (container : Container) (rooted : value = container.toValue)
              (new : container ∉ opened) {part : Value} (member : part ∈ before.parts container) :
              before.snapshotWithin room (container :: opened) part =
                after.snapshotWithin other (container :: opened) part := by
            have sameHere := same container rooted container .refl
            have memberAfter : part ∈ after.parts container := by
              rw [parts_of_same sameHere]
              exact member
            apply ih (room_inside enough new (has_of_part member))
              (room_inside enoughAfter new (has_of_part memberAfter))
            intro root partRooted inner within
            have holds : before.Holds container root := by
              rw [Holds, ← partRooted]
              exact member
            exact same container rooted inner (.head holds within)
          cases value with
          | null => rfl
          | bool value => rfl
          | number value => rfl
          | string value => rfl
          | function handle => rfl
          | array handle =>
              have contents : after.items handle = before.items handle :=
                same (.array handle) rfl (.array handle) .refl
              rw [snapshotWithin, snapshotWithin, contents]
              split
              · rfl
              · next new =>
                  congr 1
                  apply List.map_congr_left
                  intro part member
                  exact inside (.array handle) rfl (by simpa using new) member
          | record handle =>
              have contents : after.fields handle = before.fields handle :=
                same (.record handle) rfl (.record handle) .refl
              rw [snapshotWithin, snapshotWithin, contents]
              split
              · rfl
              · next new =>
                  congr 1
                  apply List.map_congr_left
                  intro field member
                  congr 1
                  exact inside (.record handle) rfl (by simpa using new)
                    (List.mem_map_of_mem member)

end

theorem snapshot_of_same {before after : Heap} {value : Value}
    (same : ∀ container, before.Inside value container → before.SameContents after container) :
    after.snapshot value = before.snapshot value := by
  symm
  apply snapshot_within_congr before.room_for_all after.room_for_all
  exact fun root rooted container within => same container ⟨root, rooted, within⟩

theorem snapshot_congr {before after : Heap} {root : Container}
    (same : ∀ container, before.Within root container → before.SameContents after container) :
    after.snapshot root.toValue = before.snapshot root.toValue := by
  apply snapshot_of_same
  rintro container ⟨other, rooted, within⟩
  cases Container.to_value_inj rooted
  exact same container within

end Heap

end ScriptSandbox
