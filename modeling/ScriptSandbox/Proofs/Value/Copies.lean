import ScriptSandbox.Proofs.Number.Counting
import ScriptSandbox.Proofs.Value.Equality
import ScriptSandbox.Proofs.Value.Outline
import ScriptSandbox.Proofs.Value.Separation

/-!
Copies loaded from JSON. JSON in the form that snapshots have is loaded into data made of fresh
containers without cycles, and the snapshot of what is loaded is that JSON again.
-/

namespace ScriptSandbox

theorem Number.Alike.symm {left right : Number} (alike : left.Alike right) : right.Alike left := by
  rcases alike with rfl | ⟨zero, zeroToo⟩
  · exact .inl rfl
  · exact .inr ⟨zeroToo, zero⟩

namespace Json

/-- A number has no JSON, or one that reads back as the number but for the sign of zero. -/
theorem of_number_cases (number : Number) :
    (number.isFinite = false ∧ ofNumber number = .null) ∨
      (number.isFinite = true ∧ ofNumber number = .float number) ∨
      (number.isFinite = true ∧ ∃ value, ofNumber number = .integer value ∧
        (Number.ofInt value).Alike number) := by
  cases number with
  | nan => exact .inl ⟨rfl, rfl⟩
  | infinite negative => exact .inl ⟨rfl, rfl⟩
  | finite negative rank =>
      have finite : (Number.finite negative rank).isFinite = true := rfl
      rw [ofNumber, if_pos finite]
      split
      · next whole =>
          refine .inr (.inr ⟨finite, _, rfl, ?_⟩)
          rw [Number.of_int_whole_part (Bool.and_eq_true_iff.mp whole).1]
          split
          · next none => exact .inr ⟨rfl, by simpa [Number.isZero] using none⟩
          · exact .inl rfl
      · exact .inr (.inl ⟨finite, rfl⟩)

theorem finite_of_json {number : Number} {json : Json} (form : ofNumber number = json)
    (some : json ≠ .null) : number.isFinite = true := by
  rcases of_number_cases number with ⟨-, none⟩ | ⟨finite, -⟩ | ⟨finite, -⟩
  · exact absurd (form.symm.trans none) some
  · exact finite
  · exact finite

theorem of_number_zero {number : Number} (zero : number.isZero = true) : ofNumber number = .integer 0 := by
  cases number with
  | nan => cases zero
  | infinite negative => cases zero
  | finite negative rank =>
      have none : Number.magnitude rank = 0 := by
        have first : rank.val = 0 := by simpa [Number.isZero] using zero
        rw [first, Number.magnitude_zero]
      simp [ofNumber, Number.isFinite, Number.isWhole, Number.wholePart, none, Number.two_to_pos]

theorem of_number_congr {left right : Number} (alike : left.Alike right) :
    ofNumber left = ofNumber right := by
  rcases alike with rfl | ⟨first, second⟩
  · rfl
  · rw [of_number_zero first, of_number_zero second]

/-- Finite numbers with the same JSON are the same but for the sign of zero. -/
theorem alike_of_same_json {left right : Number} (finite : left.isFinite = true)
    (same : ofNumber left = ofNumber right) : left.Alike right := by
  rcases of_number_cases left with ⟨not, -⟩ | ⟨-, float⟩ | ⟨-, value, integer, alike⟩
  · rw [finite] at not
    cases not
  · rcases of_number_cases right with ⟨-, other⟩ | ⟨-, other⟩ | ⟨-, value, other, -⟩
    · rw [float, other] at same
      cases same
    · rw [float, other] at same
      exact .inl (Json.float.inj same)
    · rw [float, other] at same
      cases same
  · rcases of_number_cases right with ⟨-, other⟩ | ⟨-, other⟩ | ⟨-, second, other, alikeToo⟩
    · rw [integer, other] at same
      cases same
    · rw [integer, other] at same
      cases same
    · rw [integer, other] at same
      cases same
      exact alike.symm.trans alikeToo

/-- JSON with every number in the form that it has in a snapshot. -/
inductive Settled : Json → Prop
  | null : Settled .null
  | bool (value : Bool) : Settled (.bool value)
  | integer {value : Int} (form : ofNumber (Number.ofInt value) = .integer value) :
      Settled (.integer value)
  | float {value : Number} (form : ofNumber value = .float value) : Settled (.float value)
  | string (value : String) : Settled (.string value)
  | array {items : List Json} (each : ∀ item ∈ items, Settled item) : Settled (.array items)
  | object {fields : List (String × Json)} (each : ∀ field ∈ fields, Settled field.2) :
      Settled (.object fields)

theorem settled_of_number (number : Number) : Settled (ofNumber number) := by
  rcases of_number_cases number with ⟨-, none⟩ | ⟨-, float⟩ | ⟨-, value, integer, alike⟩
  · rw [none]
    exact .null
  · rw [float]
    exact .float float
  · rw [integer]
    refine .integer ?_
    rw [of_number_congr alike, integer]

end Json

namespace Heap

open Json

variable {heap : Heap}

theorem snapshot_within_settled (heap : Heap) (room : Nat) (opened : List Container) (value : Value) :
    (heap.snapshotWithin room opened value).Settled := by
  induction room generalizing opened value with
  | zero =>
      cases value with
      | null | function => exact .null
      | bool value => exact .bool value
      | number value => exact settled_of_number value
      | string | array | record => exact .string _
  | succ room ih =>
      cases value with
      | null | function => exact .null
      | bool value => exact .bool value
      | number value => exact settled_of_number value
      | string value => exact .string value
      | array handle =>
          rw [snapshotWithin]
          split
          · exact .string _
          · refine .array fun item member => ?_
            rcases List.mem_map.mp member with ⟨part, -, rfl⟩
            exact ih _ part
      | record handle =>
          rw [snapshotWithin]
          split
          · exact .string _
          · refine .object fun field member => ?_
            rcases List.mem_map.mp member with ⟨source, -, rfl⟩
            exact ih _ source.2

section

variable {value : Value} {outline : Outline} {handle : Nat}

theorem Acyclic.snapshot_written_out (acyclic : heap.Acyclic value) :
    ∃ outline, heap.WrittenOut everywhere value outline ∧
      heap.snapshot value = outline.toJson heap := by
  rcases snapshot_outlined heap value with ⟨outline, outlined, same⟩
  exact ⟨outline, outlined.written_out acyclic fun _ _ _ none => (nomatch none), same⟩

theorem WrittenOut.to_json (written : heap.WrittenOut everywhere value outline)
    (acyclic : heap.Acyclic value) : outline.toJson heap = heap.snapshot value := by
  rcases acyclic.snapshot_written_out with ⟨other, too, same⟩
  rw [same, written.unique too]

/-- Without cycles the snapshot of an array is that of its items. -/
theorem Acyclic.snapshot_array (acyclic : heap.Acyclic (.array handle)) :
    heap.snapshot (.array handle) = .array ((heap.items handle).toList.map heap.snapshot) := by
  rcases acyclic.snapshot_written_out with ⟨outline, written, same⟩
  -- The outlines of the items are those they have by themselves, for there is only one.
  rcases @WrittenOut.of_container heap everywhere (.array handle) _ written trivial with
    ⟨write, rfl, each⟩
  rw [same, Outline.toJson, List.map_map]
  congr 1
  apply List.map_congr_left
  intro part member
  exact (each part member).to_json (@Acyclic.part heap (.array handle) part acyclic member)

/-- Without cycles the snapshot of a record is that of its fields. -/
theorem Acyclic.snapshot_record (acyclic : heap.Acyclic (.record handle)) :
    heap.snapshot (.record handle) =
      .object ((heap.fields handle).map fun field => (field.1, heap.snapshot field.2)) := by
  rcases acyclic.snapshot_written_out with ⟨outline, written, same⟩
  rcases @WrittenOut.of_container heap everywhere (.record handle) _ written trivial with
    ⟨write, rfl, each⟩
  rw [same, Outline.toJson, parts, List.map_map, List.map_map, List.zip_map']
  congr 1
  apply List.map_congr_left
  intro field member
  have inside : field.2 ∈ heap.parts (.record handle) := List.mem_map_of_mem member
  have part := (each field.2 inside).to_json (@Acyclic.part heap (.record handle) _ acyclic inside)
  simp [part]

end

/-- A value that is no function and no number but a finite one. -/
def isDatum : Value → Bool
  | .function _ => false
  | .number value => value.isFinite
  | _ => true

/-- The value holds no function, and no number but finite ones. -/
def Data (heap : Heap) (value : Value) : Prop :=
  isDatum value = true ∧
    ∀ container, heap.Inside value container → ∀ part ∈ heap.parts container, isDatum part = true

theorem Data.part {container : Container} {part : Value} (data : heap.Data container.toValue)
    (member : part ∈ heap.parts container) : heap.Data part :=
  ⟨data.2 container (heap.inside_self container) part member,
    fun inner inside => data.2 inner (inside_part member inside)⟩

section

variable {before after : Heap} {value : Value}
  (same : ∀ container, before.Inside value container → before.SameContents after container)
include same

theorem Data.of_same (data : before.Data value) : after.Data value := by
  refine ⟨data.1, fun container inside part member => ?_⟩
  have insideBefore := inside_of_same same inside
  rw [parts_of_same (same container insideBefore)] at member
  exact data.2 container insideBefore part member

theorem Acyclic.of_same (acyclic : before.Acyclic value) : after.Acyclic value := by
  intro container inside cycle
  have kept {other : Container} (path : Relation.TransGen after.Holds container other) :
      Relation.TransGen before.Holds container other := by
    induction path with
    | single holds =>
        exact .single ((holds_iff_of_same (same _ (inside_of_same same inside))).mp holds)
    | tail path holds ih =>
        have reached := inside_of_same same (inside_trans inside path.to_reflTransGen)
        exact ih.tail ((holds_iff_of_same (same _ reached)).mp holds)
  exact acyclic container (inside_of_same same inside) (kept cycle)

end

theorem acyclic_of_acc {value : Value}
    (grounded : ∀ container, heap.Inside value container → Acc heap.Below container) :
    heap.Acyclic value :=
  fun container inside => not_within_self_of_acc (grounded container inside)

/-- The second heap has the containers of the first with what they held, and maybe more. -/
structure Grows (before after : Heap) : Prop where
  has : ∀ container, before.Has container → after.Has container
  same : ∀ container, before.Has container → before.SameContents after container

theorem grows_refl (heap : Heap) : heap.Grows heap :=
  ⟨fun _ has => has, fun container _ => same_contents_refl heap container⟩

theorem Grows.trans {first second third : Heap} (before : first.Grows second)
    (after : second.Grows third) : first.Grows third :=
  ⟨fun container has => after.has container (before.has container has), fun container has =>
    (before.same container has).trans (after.same container (before.has container has))⟩

/-- Data in containers that the base has not, without cycles. -/
structure Copy (base heap : Heap) (value : Value) : Prop where
  fresh : ∀ container, heap.Inside value container → heap.Has container ∧ ¬base.Has container
  grounded : ∀ container, heap.Inside value container → Acc heap.Below container
  data : heap.Data value

section

variable {base middle after : Heap} {value : Value}

theorem Copy.kept (copy : base.Copy heap value) (grows : heap.Grows after) (container : Container)
    (inside : heap.Inside value container) : heap.SameContents after container :=
  grows.same container (copy.fresh container inside).1

theorem Copy.grow (copy : base.Copy heap value) (grows : heap.Grows after) :
    base.Copy after value := by
  have kept := copy.kept grows
  constructor
  · intro container inside
    have fresh := copy.fresh container (inside_of_same kept inside)
    exact ⟨grows.has container fresh.1, fresh.2⟩
  · intro container inside
    have insideBefore := inside_of_same kept inside
    exact acc_of_same (copy.grounded container insideBefore) fun inner within =>
      kept inner (inside_trans insideBefore within)
  · exact copy.data.of_same kept

theorem Copy.over (copy : middle.Copy heap value) (grows : base.Grows middle) :
    base.Copy heap value :=
  ⟨fun container inside => ⟨(copy.fresh container inside).1,
    fun has => (copy.fresh container inside).2 (grows.has container has)⟩, copy.grounded, copy.data⟩

theorem copy_scalar (base heap : Heap) {value : Value} (plain : value.isHandle = false)
    (datum : isDatum value = true) : base.Copy heap value := by
  have none (container : Container) : ¬heap.Inside value container := by
    rintro ⟨root, rfl, -⟩
    cases root <;> cases plain
  exact ⟨fun container inside => absurd inside (none container),
    fun container inside => absurd inside (none container), datum,
    fun container inside => absurd inside (none container)⟩

theorem Makes.grows {made : Container} {values : List Value}
    (makes : heap.Makes after made values) : heap.Grows after := by
  refine ⟨fun container has => (makes.has container).mpr (.inl has), fun container has => ?_⟩
  exact makes.same container (makes.ne_of_has has)

/-- A container made of copies is a copy. -/
theorem Makes.copy {made : Container} {values : List Value} (makes : heap.Makes after made values)
    (grows : base.Grows heap) (each : ∀ value ∈ values, base.Copy heap value) :
    base.Copy after made.toValue := by
  have part (value : Value) (member : value ∈ after.parts made) : base.Copy after value := by
    rw [makes.parts] at member
    exact (each value member).grow makes.grows
  constructor
  · intro container inside
    rcases inside_cases inside with rfl | ⟨value, member, within⟩
    · exact ⟨(makes.has _).mpr (.inr rfl), fun has => makes.new (grows.has _ has)⟩
    · exact (part value member).fresh container within
  · intro container inside
    rcases inside_cases inside with rfl | ⟨value, member, within⟩
    · apply Acc.intro
      intro inner below
      exact (part _ below).grounded inner (after.inside_self inner)
    · exact (part value member).grounded container within
  · refine ⟨by cases made <;> rfl, fun container inside value member => ?_⟩
    rcases inside_cases inside with rfl | ⟨outer, held, within⟩
    · exact (part value member).data.1
    · exact (part outer held).data.2 container within value member

end

/-- An array of copies is a copy, and its snapshot that of its items. -/
theorem new_array_copy {base heap : Heap} {values : List Value} (grows : base.Grows heap)
    (each : ∀ value ∈ values, base.Copy heap value) :
    base.Grows (heap.newArray values.toArray).2 ∧
      base.Copy (heap.newArray values.toArray).2 (heap.newArray values.toArray).1 ∧
      (heap.newArray values.toArray).2.snapshot (heap.newArray values.toArray).1 =
        .array (values.map heap.snapshot) := by
  have makes := new_array_makes heap values.toArray
  have copy := makes.copy grows each
  refine ⟨grows.trans makes.grows, copy, ?_⟩
  have items : ((heap.newArray values.toArray).2.items heap.arrays.size).toList = values :=
    makes.parts
  refine (@Acyclic.snapshot_array _ heap.arrays.size (acyclic_of_acc copy.grounded)).trans ?_
  rw [items]
  congr 1
  apply List.map_congr_left
  intro value member
  exact snapshot_of_same ((each value member).kept makes.grows)

/-- A record of copies is a copy, and its snapshot that of its fields. -/
theorem new_record_copy {base heap : Heap} {entries : List (String × Value)} (grows : base.Grows heap)
    (each : ∀ entry ∈ entries, base.Copy heap entry.2) :
    base.Grows (heap.newRecord entries).2 ∧
      base.Copy (heap.newRecord entries).2 (heap.newRecord entries).1 ∧
      (heap.newRecord entries).2.snapshot (heap.newRecord entries).1 =
        .object (entries.map fun entry => (entry.1, heap.snapshot entry.2)) := by
  have makes := new_record_makes heap entries
  have part (value : Value) (member : value ∈ entries.map Prod.snd) : base.Copy heap value := by
    rcases List.mem_map.mp member with ⟨entry, held, rfl⟩
    exact each entry held
  have copy := makes.copy grows part
  refine ⟨grows.trans makes.grows, copy, ?_⟩
  have fields : (heap.newRecord entries).2.fields heap.records.size = entries := by
    simp [newRecord, fields]
  refine (@Acyclic.snapshot_record _ heap.records.size (acyclic_of_acc copy.grounded)).trans ?_
  rw [fields]
  congr 1
  apply List.map_congr_left
  intro entry member
  rw [snapshot_of_same ((each entry member).kept makes.grows)]

mutual

/-- Settled JSON is loaded into a copy that has it for its snapshot. -/
theorem load_copy (heap : Heap) {json : Json} (settled : json.Settled) :
    heap.Grows (heap.load json).2 ∧ heap.Copy (heap.load json).2 (heap.load json).1 ∧
      (heap.load json).2.snapshot (heap.load json).1 = json := by
  cases json with
  | null => exact ⟨heap.grows_refl, copy_scalar heap heap rfl rfl, rfl⟩
  | bool value => exact ⟨heap.grows_refl, copy_scalar heap heap rfl rfl, rfl⟩
  | string value => exact ⟨heap.grows_refl, copy_scalar heap heap rfl rfl, rfl⟩
  | integer value =>
      cases settled with
      | integer form =>
          have finite := finite_of_json form nofun
          exact ⟨heap.grows_refl, copy_scalar heap heap rfl finite, form⟩
  | float value =>
      cases settled with
      | float form =>
          have finite := finite_of_json form nofun
          exact ⟨heap.grows_refl, copy_scalar heap heap rfl finite, form⟩
  | array items =>
      cases settled with
      | array each =>
          rcases load_items_copy heap each with ⟨grows, copies, shown⟩
          have array := new_array_copy grows copies
          rw [shown] at array
          exact array
  | object fields =>
      cases settled with
      | object each =>
          rcases load_fields_copy heap each with ⟨grows, copies, shown⟩
          have record := new_record_copy grows copies
          rw [shown] at record
          exact record

theorem load_items_copy (heap : Heap) {items : List Json} (settled : ∀ item ∈ items, item.Settled) :
    heap.Grows (heap.loadItems items).2 ∧
      (∀ value ∈ (heap.loadItems items).1, heap.Copy (heap.loadItems items).2 value) ∧
      (heap.loadItems items).1.map (heap.loadItems items).2.snapshot = items := by
  cases items with
  | nil => exact ⟨heap.grows_refl, nofun, rfl⟩
  | cons item rest =>
      have later := List.forall_mem_cons.mp settled
      rcases load_copy heap later.1 with ⟨grows, copy, shown⟩
      rcases load_items_copy (heap.load item).2 later.2 with ⟨growsOn, copies, shownOn⟩
      refine ⟨grows.trans growsOn, ?_, ?_⟩
      · exact List.forall_mem_cons.mpr
          ⟨copy.grow growsOn, fun value member => (copies value member).over grows⟩
      · have first := snapshot_of_same (copy.kept growsOn)
        exact List.cons_eq_cons.mpr ⟨first.trans shown, shownOn⟩

theorem load_fields_copy (heap : Heap) {fields : List (String × Json)}
    (settled : ∀ field ∈ fields, field.2.Settled) :
    heap.Grows (heap.loadFields fields).2 ∧
      (∀ entry ∈ (heap.loadFields fields).1, heap.Copy (heap.loadFields fields).2 entry.2) ∧
      (heap.loadFields fields).1.map
        (fun entry => (entry.1, (heap.loadFields fields).2.snapshot entry.2)) = fields := by
  cases fields with
  | nil => exact ⟨heap.grows_refl, nofun, rfl⟩
  | cons field rest =>
      have later := List.forall_mem_cons.mp settled
      rcases load_copy heap later.1 with ⟨grows, copy, shown⟩
      rcases load_fields_copy (heap.load field.2).2 later.2 with ⟨growsOn, copies, shownOn⟩
      refine ⟨grows.trans growsOn, ?_, ?_⟩
      · exact List.forall_mem_cons.mpr
          ⟨copy.grow growsOn, fun entry member => (copies entry member).over grows⟩
      · have first := snapshot_of_same (copy.kept growsOn)
        exact List.cons_eq_cons.mpr ⟨Prod.ext rfl (first.trans shown), shownOn⟩

end

end Heap

end ScriptSandbox
