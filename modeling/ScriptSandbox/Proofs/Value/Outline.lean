import Mathlib.Data.List.Nodup
import ScriptSandbox.Proofs.Value.Nesting

/-!
Values written out. Snapshots and texts follow a value into its containers and keep a list of those
they are inside of; what they write, before it is spelled, is an outline. The guard ends every
outline, it marks a container exactly where that container is one of its own ancestors, and a value
without cycles has the outline that it has without a guard.
-/

namespace ScriptSandbox

/-- A value written out: values that are not opened as they are, containers with their parts, and a
mark in the place of a container that is not written again. -/
inductive Outline where
  | leaf (value : Value)
  | mark (container : Container)
  | inside (container : Container) (parts : List Outline)

namespace Outline

/-- What is written at a place, given by the number of the part to follow on each level. -/
def at? : List Nat → Outline → Option Outline
  | [], outline => some outline
  | index :: path, .inside _ parts => parts[index]?.bind (at? path)
  | _ :: _, _ => none

/-- The JSON of a value that holds no others. -/
def leafJson : Value → Json
  | .bool value => .bool value
  | .number value => Json.ofNumber value
  | .string value => .string value
  | _ => .null

/-- The outline as JSON, fields in the order of their record. -/
def toJson (heap : Heap) : Outline → Json
  | .leaf value => leafJson value
  | .mark _ => Heap.circular
  | .inside (.array _) parts => .array (parts.map (toJson heap))
  | .inside (.record handle) parts =>
      .object (((heap.fields handle).map Prod.fst).zip (parts.map (toJson heap)))

/-- The outline as text: items with commas between them, and nothing for an item that is `null`. -/
def toText : Outline → String
  | .leaf value => Heap.plainText value
  | .mark _ => ""
  | .inside _ parts =>
      ",".intercalate (parts.map fun part => if part matches .leaf .null then "" else toText part)

end Outline

namespace Heap

variable {heap : Heap} {opens : Container → Prop}

/-- Writing a value out with a guard, inside its ancestors. A container that is one of them is marked,
any other that may be opened is written with each of its parts inside one more ancestor. -/
inductive Outlined (heap : Heap) (opens : Container → Prop) :
    List Container → Value → Outline → Prop
  | leaf {ancestors : List Container} {value : Value}
      (shut : ∀ container, value = container.toValue → ¬opens container) :
      Outlined heap opens ancestors value (.leaf value)
  | mark {ancestors : List Container} {container : Container} (opened : opens container)
      (again : container ∈ ancestors) :
      Outlined heap opens ancestors container.toValue (.mark container)
  | inside {ancestors : List Container} {container : Container} {write : Value → Outline}
      (opened : opens container) (new : container ∉ ancestors)
      (each : ∀ part ∈ heap.parts container,
        Outlined heap opens (container :: ancestors) part (write part)) :
      Outlined heap opens ancestors container.toValue
        (.inside container ((heap.parts container).map write))

/-- Writing a value out without a guard: each container that may be opened is written with its
parts. -/
inductive WrittenOut (heap : Heap) (opens : Container → Prop) : Value → Outline → Prop
  | leaf {value : Value} (shut : ∀ container, value = container.toValue → ¬opens container) :
      WrittenOut heap opens value (.leaf value)
  | inside {container : Container} {write : Value → Outline} (opened : opens container)
      (each : ∀ part ∈ heap.parts container, WrittenOut heap opens part (write part)) :
      WrittenOut heap opens container.toValue
        (.inside container ((heap.parts container).map write))

/-- A value that stands in another one, the path that leads there and the containers on it, outermost
first; only containers that may be opened are gone into. -/
inductive Occurs (heap : Heap) (opens : Container → Prop) :
    Value → List Nat → List Container → Value → Prop
  | here (value : Value) : Occurs heap opens value [] [] value
  | inside {container : Container} {index : Nat} {part found : Value} {path : List Nat}
      {ancestors : List Container} (opened : opens container)
      (held : (heap.parts container)[index]? = some part)
      (occurs : Occurs heap opens part path ancestors found) :
      Occurs heap opens container.toValue (index :: path) (container :: ancestors) found

/-- No container in the value lies inside itself. -/
def Acyclic (heap : Heap) (value : Value) : Prop :=
  ∀ container, heap.Inside value container → ¬Relation.TransGen heap.Holds container container

theorem Acyclic.part {container : Container} {part : Value} (acyclic : heap.Acyclic container.toValue)
    (member : part ∈ heap.parts container) : heap.Acyclic part :=
  fun inner inside => acyclic inner (inside_part member inside)

section

variable {ancestors : List Container} {container : Container} {value : Value}
  {outline other : Outline}

/-- What the guard writes of a container that may be opened. -/
theorem Outlined.of_container (outlined : heap.Outlined opens ancestors container.toValue outline)
    (opened : opens container) :
    (container ∈ ancestors ∧ outline = .mark container) ∨
      (container ∉ ancestors ∧ ∃ write : Value → Outline,
        outline = .inside container ((heap.parts container).map write) ∧
        ∀ part ∈ heap.parts container,
          heap.Outlined opens (container :: ancestors) part (write part)) := by
  generalize rooted : container.toValue = value at outlined
  cases outlined with
  | leaf shut => exact absurd opened (shut container rooted.symm)
  | mark _ again =>
      cases Container.to_value_inj rooted
      exact .inl ⟨again, rfl⟩
  | inside _ new each =>
      cases Container.to_value_inj rooted
      exact .inr ⟨new, _, rfl, each⟩

theorem WrittenOut.of_container (written : heap.WrittenOut opens container.toValue outline)
    (opened : opens container) :
    ∃ write : Value → Outline, outline = .inside container ((heap.parts container).map write) ∧
      ∀ part ∈ heap.parts container, heap.WrittenOut opens part (write part) := by
  generalize rooted : container.toValue = value at written
  cases written with
  | leaf shut => exact absurd opened (shut container rooted.symm)
  | inside _ each =>
      cases Container.to_value_inj rooted
      exact ⟨_, rfl, each⟩

/-- The guard lets at most one outline be written. -/
theorem Outlined.unique (outlined : heap.Outlined opens ancestors value outline)
    (too : heap.Outlined opens ancestors value other) : other = outline := by
  induction outlined generalizing other with
  | leaf shut =>
      cases too with
      | leaf _ => rfl
      | mark opened _ => exact absurd opened (shut _ rfl)
      | inside opened _ _ => exact absurd opened (shut _ rfl)
  | mark opened again =>
      rcases too.of_container opened with ⟨-, same⟩ | ⟨new, -⟩
      · exact same
      · exact absurd again new
  | inside opened new each ih =>
      rcases too.of_container opened with ⟨again, -⟩ | ⟨-, write, same, eachToo⟩
      · exact absurd again new
      · rw [same, List.map_congr_left fun part member => ih part member (eachToo part member)]

theorem WrittenOut.unique (written : heap.WrittenOut opens value outline)
    (too : heap.WrittenOut opens value other) : other = outline := by
  induction written generalizing other with
  | leaf shut =>
      cases too with
      | leaf _ => rfl
      | inside opened _ => exact absurd opened (shut _ rfl)
  | inside opened each ih =>
      rcases too.of_container opened with ⟨write, same, eachToo⟩
      rw [same, List.map_congr_left fun part member => ih part member (eachToo part member)]

/-- With the guard every value has an outline: each level down opens one more of the containers that
there are. -/
theorem outlined_exists (heap : Heap) (opens : Container → Prop) (ancestors : List Container)
    (value : Value) : ∃ outline, heap.Outlined opens ancestors value outline := by
  induction left : unopened heap.containers ancestors using Nat.strongRecOn
    generalizing ancestors value with
  | ind left ih =>
      by_cases goes : ∃ container, value = container.toValue ∧ opens container
      · rcases goes with ⟨container, rfl, opened⟩
        by_cases again : container ∈ ancestors
        · exact ⟨_, .mark opened again⟩
        · -- Only a container that was made has parts, so each part is inside one more of the counted ones.
          have each (part : Value) : ∃ outline, part ∈ heap.parts container →
              heap.Outlined opens (container :: ancestors) part outline := by
            by_cases member : part ∈ heap.parts container
            · have fewer := unopened_lt (mem_containers.mpr (has_of_part member)) again
              rcases ih _ (left ▸ fewer) (container :: ancestors) part rfl with ⟨outline, outlined⟩
              exact ⟨outline, fun _ => outlined⟩
            · exact ⟨.leaf part, fun held => absurd held member⟩
          choose write written using each
          exact ⟨_, .inside opened again written⟩
      · exact ⟨_, .leaf fun container rooted opened => goes ⟨container, rooted, opened⟩⟩

/-- In a value without cycles the guard is never met: all that a part can lie in are its ancestors. -/
theorem Outlined.written_out (outlined : heap.Outlined opens ancestors value outline)
    (acyclic : heap.Acyclic value)
    (around : ∀ root, value = root.toValue → ∀ ancestor ∈ ancestors,
      Relation.TransGen heap.Holds ancestor root) :
    heap.WrittenOut opens value outline := by
  induction outlined with
  | leaf shut => exact .leaf shut
  | mark _ again => exact absurd (around _ rfl _ again) (acyclic _ (heap.inside_self _))
  | @inside ancestors container write opened new each ih =>
      refine .inside opened fun part member => ih part member (acyclic.part member) ?_
      intro root rooted ancestor inside
      have holds := holds_of_part member rooted
      rcases List.mem_cons.mp inside with rfl | outer
      · exact .single holds
      · exact (around container rfl ancestor outer).tail holds

end

section

variable {value found : Value} {path : List Nat} {ancestors opened : List Container}
  {outline : Outline}

/-- Where no container on the way is met twice, what is found there is written inside all of them. -/
theorem Occurs.written (occurs : heap.Occurs opens value path ancestors found)
    (outlined : heap.Outlined opens opened value outline)
    (once : (ancestors.reverse ++ opened).Nodup) :
    ∃ part, outline.at? path = some part ∧
      heap.Outlined opens (ancestors.reverse ++ opened) found part := by
  -- Going down the path moves its containers, outermost first, to the front of the opened ones.
  induction occurs generalizing opened outline with
  | here value => exact ⟨outline, rfl, outlined⟩
  | @inside container index part found path ancestors goes held occurs ih =>
      rw [List.reverse_cons, List.append_assoc, List.singleton_append] at once ⊢
      have new : container ∉ opened := (List.nodup_cons.mp (List.nodup_append.mp once).2.1).1
      rcases outlined.of_container goes with ⟨again, -⟩ | ⟨-, write, rfl, each⟩
      · exact absurd again new
      · rcases ih (each part (List.mem_of_getElem? held)) once with ⟨inner, place, written⟩
        refine ⟨inner, ?_, written⟩
        simpa [Outline.at?, held] using place

/-- Below a mark nothing is written. -/
theorem Occurs.hidden (occurs : heap.Occurs opens value path ancestors found)
    (outlined : heap.Outlined opens opened value outline) (distinct : opened.Nodup)
    (twice : ¬(ancestors.reverse ++ opened).Nodup) : outline.at? path = none := by
  induction occurs generalizing opened outline with
  | here value => exact absurd distinct twice
  | @inside container index part found path ancestors goes held occurs ih =>
      rw [List.reverse_cons, List.append_assoc, List.singleton_append] at twice
      rcases outlined.of_container goes with ⟨-, rfl⟩ | ⟨new, write, rfl, each⟩
      · rfl
      · have below := ih (each part (List.mem_of_getElem? held))
          (List.nodup_cons.mpr ⟨new, distinct⟩) twice
        simpa [Outline.at?, held] using below

/-- Every part of a value that is written out is written out where it stands. -/
theorem Occurs.written_out (occurs : heap.Occurs opens value path ancestors found)
    (written : heap.WrittenOut opens value outline) :
    ∃ part, outline.at? path = some part ∧ heap.WrittenOut opens found part := by
  induction occurs generalizing outline with
  | here value => exact ⟨outline, rfl, written⟩
  | @inside container index part found path ancestors goes held occurs ih =>
      rcases written.of_container goes with ⟨write, rfl, each⟩
      rcases ih (each part (List.mem_of_getElem? held)) with ⟨inner, place, inside⟩
      refine ⟨inner, ?_, inside⟩
      simpa [Outline.at?, held] using place

end

/-- Snapshots open every container. -/
def everywhere (_ : Container) : Prop :=
  True

/-- Texts open arrays only. -/
def inArrays : Container → Prop
  | .array _ => True
  | .record _ => False

theorem not_container_of_shut {value : Value}
    (shut : ∀ container, value = container.toValue → ¬everywhere container) (container : Container) :
    value ≠ container.toValue :=
  fun rooted => shut container rooted trivial

/-- With room for every unopened container a snapshot is the outline as JSON. -/
theorem Outlined.snapshot_within {ancestors : List Container} {value : Value} {outline : Outline}
    (outlined : heap.Outlined everywhere ancestors value outline) {room : Nat}
    (enough : unopened heap.containers ancestors < room) :
    heap.snapshotWithin room ancestors value = outline.toJson heap := by
  induction outlined generalizing room with
  | @leaf ancestors value shut =>
      have no := not_container_of_shut shut
      rw [Outline.toJson]
      cases value with
      | array handle => exact absurd rfl (no (.array handle))
      | record handle => exact absurd rfl (no (.record handle))
      | _ => cases room <;> rfl
  | @mark ancestors container _ again =>
      obtain ⟨room, rfl⟩ := Nat.exists_eq_add_one_of_ne_zero (Nat.ne_zero_of_lt enough)
      rw [Outline.toJson]
      cases container with
      | array handle => simp [Container.toValue, snapshotWithin, again]
      | record handle => simp [Container.toValue, snapshotWithin, again]
  | @inside ancestors container write _ new each ih =>
      obtain ⟨room, rfl⟩ := Nat.exists_eq_add_one_of_ne_zero (Nat.ne_zero_of_lt enough)
      have inner (part : Value) (member : part ∈ heap.parts container) :
          heap.snapshotWithin room (container :: ancestors) part = (write part).toJson heap :=
        ih part member (room_inside enough new (has_of_part member))
      cases container with
      | array handle =>
          rw [Container.toValue, snapshotWithin, if_neg (by simpa using new), Outline.toJson,
            List.map_map]
          exact congrArg Json.array (List.map_congr_left inner)
      | record handle =>
          rw [Container.toValue, snapshotWithin, if_neg (by simpa using new), Outline.toJson,
            List.map_map]
          congr 1
          rw [parts, List.map_map, List.zip_map']
          apply List.map_congr_left
          intro field member
          rw [inner field.2 (List.mem_map_of_mem member)]
          rfl

theorem Outlined.of_shut {ancestors : List Container} {value : Value} {outline : Outline}
    (outlined : heap.Outlined opens ancestors value outline)
    (shut : ∀ container, value = container.toValue → ¬opens container) : outline = .leaf value := by
  cases outlined with
  | leaf _ => rfl
  | mark opened _ => exact absurd opened (shut _ rfl)
  | inside opened _ _ => exact absurd opened (shut _ rfl)

theorem shut_in_arrays {value : Value} (other : ∀ handle, value ≠ .array handle)
    (container : Container) (rooted : value = container.toValue) : ¬inArrays container := by
  cases container with
  | array handle => exact absurd rooted (other handle)
  | record handle => exact id

/-- With room for every unopened array a joined text is the outline as text. -/
theorem Outlined.joined_within {ancestors : List Container} {value : Value} {outline : Outline}
    (outlined : heap.Outlined inArrays ancestors value outline) {room handle : Nat}
    {opened : List Nat} (isArray : value = .array handle) (arrays : ancestors = opened.map .array)
    (enough : unopened (List.range heap.arrays.size) opened < room) :
    heap.joinedWithin room opened handle = outline.toText := by
  induction outlined generalizing room handle opened with
  | leaf shut => exact absurd trivial (shut (.array handle) isArray)
  | @mark ancestors container _ again =>
      obtain ⟨room, rfl⟩ := Nat.exists_eq_add_one_of_ne_zero (Nat.ne_zero_of_lt enough)
      cases @Container.to_value_inj container (.array handle) isArray
      have inside : handle ∈ opened := by simpa [arrays] using again
      simp [joinedWithin, inside, Outline.toText]
  | @inside ancestors container write _ new each ih =>
      obtain ⟨room, rfl⟩ := Nat.exists_eq_add_one_of_ne_zero (Nat.ne_zero_of_lt enough)
      cases @Container.to_value_inj container (.array handle) isArray
      have outside : handle ∉ opened := by simpa [arrays] using new
      rw [joinedWithin, if_neg (by simpa using outside), Outline.toText, List.map_map]
      congr 1
      apply List.map_congr_left
      intro item member
      have written := each item member
      cases item with
      | array inner =>
          have fewer : unopened (List.range heap.arrays.size) (handle :: opened) < room := by
            have less := unopened_lt (List.mem_range.mpr (lt_of_mem_items member)) outside
            omega
          have same := ih (.array inner) member rfl (by rw [arrays, List.map_cons]) fewer
          rcases @Outlined.of_container heap inArrays _ (.array inner) _ written trivial with
            ⟨-, mark⟩ | ⟨-, _, inside, -⟩
          · simp [same, mark]
          · simp [same, inside]
      | _ =>
          simp [written.of_shut (shut_in_arrays nofun), Outline.toText]

/-- What a guard against cycles may do to an outline: it ends it, and it marks containers that lie in
themselves and nothing else. -/
structure CutAtCycles (heap : Heap) (opens : Container → Prop) (value : Value) (outline : Outline) :
    Prop where
  ends : heap.Outlined opens [] value outline
  unique : ∀ other, heap.Outlined opens [] value other → other = outline
  /-- Without cycles it is the one outline that is written without a guard. -/
  plain : heap.Acyclic value → heap.WrittenOut opens value outline ∧
    ∀ other, heap.WrittenOut opens value other → other = outline
  /-- Without cycles a part is written in full wherever it stands. -/
  full : heap.Acyclic value → ∀ path ancestors part,
    heap.Occurs opens value path ancestors part →
    ∃ written, outline.at? path = some written ∧ heap.WrittenOut opens part written
  /-- A container is marked exactly when it is one of its ancestors. -/
  marks : ∀ path ancestors container, opens container →
    heap.Occurs opens value path ancestors container.toValue → ancestors.Nodup →
    (outline.at? path = some (.mark container) ↔ container ∈ ancestors) ∧
      ((∃ parts, outline.at? path = some (.inside container parts)) ↔ container ∉ ancestors)
  /-- Below a mark nothing is written. -/
  below : ∀ path ancestors part, heap.Occurs opens value path ancestors part → ¬ancestors.Nodup →
    outline.at? path = none

theorem Outlined.cut_at_cycles {value : Value} {outline : Outline}
    (outlined : heap.Outlined opens [] value outline) : heap.CutAtCycles opens value outline := by
  have plain (acyclic : heap.Acyclic value) : heap.WrittenOut opens value outline :=
    outlined.written_out acyclic fun _ _ _ none => nomatch none
  constructor
  · exact outlined
  · exact fun other too => outlined.unique too
  · exact fun acyclic => ⟨plain acyclic, fun other too => (plain acyclic).unique too⟩
  · exact fun acyclic path ancestors part occurs => occurs.written_out (plain acyclic)
  · intro path ancestors container opened occurs once
    rcases occurs.written outlined (by simpa [List.nodup_reverse] using once) with ⟨part, place, written⟩
    rw [place]
    rcases written.of_container opened with ⟨again, rfl⟩ | ⟨new, write, rfl, -⟩
    · simpa using again
    · simpa using new
  · intro path ancestors part occurs twice
    exact occurs.hidden outlined List.nodup_nil (by simpa [List.nodup_reverse] using twice)

theorem snapshot_outlined (heap : Heap) (value : Value) :
    ∃ outline, heap.Outlined everywhere [] value outline ∧
      heap.snapshot value = outline.toJson heap := by
  rcases outlined_exists heap everywhere [] value with ⟨outline, outlined⟩
  exact ⟨outline, outlined, outlined.snapshot_within heap.room_for_all⟩

theorem text_outlined (heap : Heap) (value : Value) :
    ∃ outline, heap.Outlined inArrays [] value outline ∧ heap.textOf value = outline.toText := by
  rcases outlined_exists heap inArrays [] value with ⟨outline, outlined⟩
  refine ⟨outline, outlined, ?_⟩
  cases value with
  | array handle =>
      apply outlined.joined_within rfl rfl
      rw [unopened_nil, List.length_range]
      exact Nat.lt_succ_self _
  | _ =>
      rw [outlined.of_shut (shut_in_arrays nofun), Outline.toText]
      rfl

/-- The guards of snapshots and of texts cut a value at its cycles and nowhere else. -/
theorem guards_cut_at_cycles (heap : Heap) (value : Value) :
    (∃ outline, heap.CutAtCycles everywhere value outline ∧
      heap.snapshot value = outline.toJson heap) ∧
    (∃ outline, heap.CutAtCycles inArrays value outline ∧ heap.textOf value = outline.toText) := by
  constructor
  · rcases snapshot_outlined heap value with ⟨outline, outlined, same⟩
    exact ⟨outline, outlined.cut_at_cycles, same⟩
  · rcases text_outlined heap value with ⟨outline, outlined, same⟩
    exact ⟨outline, outlined.cut_at_cycles, same⟩

/-- An array that holds another one twice and then itself: the other one is written both times. -/
theorem guards_cut_at_cycles_self :
    let heap : Heap := ⟨#[#[.array 1, .array 1, .array 0], #[.string "a"]], #[], #[]⟩
    heap.snapshot (.array 0) = .array [.array [.string "a"], .array [.string "a"], circular] ∧
      ∃ outline : Outline, heap.snapshot (.array 0) = outline.toJson heap ∧
        (∃ parts, outline.at? [0] = some (.inside (.array 1) parts)) ∧
        (∃ parts, outline.at? [1] = some (.inside (.array 1) parts)) ∧
        outline.at? [2] = some (.mark (.array 0)) := by
  intro heap
  have item (index : Nat) (container : Container)
      (held : (heap.parts (.array 0))[index]? = some container.toValue) :
      heap.Occurs everywhere (.array 0) [index] [.array 0] container.toValue :=
    @Occurs.inside heap everywhere (.array 0) _ _ _ _ _ trivial held (.here _)
  rcases (guards_cut_at_cycles heap (.array 0)).1 with ⟨outline, cut, same⟩
  refine ⟨rfl, outline, same, ?_, ?_, ?_⟩
  · exact (cut.marks _ _ _ trivial (item 0 (.array 1) rfl) (by decide)).2.mpr (by decide)
  · exact (cut.marks _ _ _ trivial (item 1 (.array 1) rfl) (by decide)).2.mpr (by decide)
  · exact (cut.marks _ _ _ trivial (item 2 (.array 0) rfl) (by decide)).1.mpr (by decide)

end Heap

end ScriptSandbox
