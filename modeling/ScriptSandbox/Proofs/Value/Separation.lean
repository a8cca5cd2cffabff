import ScriptSandbox.Proofs.Value.Nesting

/-!
Records and all that lies inside them are sealed off. Nothing outside holds an array from inside a
record, so a change that starts from outside never reaches one: the records of a heap keep their
contents all the way down, and no way leads from a record back to itself.
-/

namespace ScriptSandbox.Heap

/-- A record, or a container somewhere inside one. -/
def Sealed (heap : Heap) (container : Container) : Prop :=
  ∃ record, heap.Within (.record record) container

/-- A value that may be held outside of records: no array from inside one. -/
def Outer (heap : Heap) : Value → Prop
  | .array handle => heap.Has (.array handle) ∧ ¬heap.Sealed (.array handle)
  | .record handle => heap.Has (.record handle)
  | _ => True

structure Separated (heap : Heap) : Prop where
  closed : ∀ outer inner, heap.Holds outer inner → heap.Has inner
  apart : ∀ handle, ¬heap.Sealed (.array handle) →
    ∀ value ∈ (heap.items handle).toList, heap.Outer value
  grounded : ∀ record, Acc heap.Below (.record record)

/-- What a run may do to its heap: containers stay, sealed ones with their contents, and what was
not sealed is not sealed later. -/
structure Evolves (before after : Heap) : Prop where
  has : ∀ container, before.Has container → after.Has container
  kept : ∀ container, before.Has container → before.Sealed container →
    before.SameContents after container
  unsealed : ∀ container, before.Has container → after.Sealed container → before.Sealed container

theorem sealed_record (heap : Heap) (record : Nat) : heap.Sealed (.record record) :=
  ⟨record, .refl⟩

theorem Sealed.within {heap : Heap} {outer inner : Container} (outside : heap.Sealed outer)
    (within : heap.Within outer inner) : heap.Sealed inner := by
  rcases outside with ⟨record, reached⟩
  exact ⟨record, reached.trans within⟩

theorem Outer.has {heap : Heap} {container : Container} (outer : heap.Outer container.toValue) :
    heap.Has container := by
  cases container with
  | array handle => exact outer.1
  | record handle => exact outer

theorem Separated.has_within {heap : Heap} (separated : heap.Separated) {root container : Container}
    (has : heap.Has root) (within : heap.Within root container) : heap.Has container := by
  cases within with
  | refl => exact has
  | tail _ holds => exact separated.closed _ _ holds

/-- An array that was never made lies in no record. -/
theorem Separated.not_sealed_of_new {heap : Heap} (separated : heap.Separated) {handle : Nat}
    (new : ¬heap.Has (.array handle)) : ¬heap.Sealed (.array handle) := by
  intro inside
  rcases inside with ⟨record, within⟩
  cases within with
  | tail _ holds => exact new (separated.closed _ _ holds)

section

variable {before after : Heap}

/-- All that lies in a record keeps its contents. -/
theorem Evolves.same_within (evolves : before.Evolves after) (separated : before.Separated)
    {record : Nat} (has : before.Has (.record record)) (container : Container)
    (within : before.Within (.record record) container) : before.SameContents after container :=
  evolves.kept container (separated.has_within has within) ⟨record, within⟩

theorem Evolves.still_sealed (evolves : before.Evolves after) (separated : before.Separated)
    {container : Container} (inside : before.Sealed container) : after.Sealed container := by
  rcases inside with ⟨record, within⟩
  rcases Relation.ReflTransGen.cases_head within with rfl | ⟨inner, holds, -⟩
  · exact sealed_record after record
  · exact ⟨record, within_kept (evolves.same_within separated (has_of_holds holds)) within⟩

theorem Evolves.outer (evolves : before.Evolves after) {value : Value}
    (outer : before.Outer value) : after.Outer value := by
  cases value with
  | array handle =>
      exact ⟨evolves.has _ outer.1, fun inside => outer.2 (evolves.unsealed _ outer.1 inside)⟩
  | record handle => exact evolves.has (.record handle) outer
  | null => trivial
  | bool value => trivial
  | number value => trivial
  | string value => trivial
  | function handle => trivial

theorem evolves_refl (heap : Heap) : heap.Evolves heap :=
  ⟨fun _ has => has, fun container _ _ => same_contents_refl heap container, fun _ _ inside => inside⟩

theorem Evolves.trans {final : Heap} (first : before.Evolves after) (second : after.Evolves final)
    (separated : before.Separated) : before.Evolves final := by
  constructor
  · intro container has
    exact second.has container (first.has container has)
  · intro container has inside
    exact (first.kept container has inside).trans
      (second.kept container (first.has container has) (first.still_sealed separated inside))
  · intro container has inside
    exact first.unsealed container has (second.unsealed container (first.has container has) inside)

/-- A change to one array outside of all records. -/
theorem change_outside {handle : Nat} (separated : before.Separated)
    (outside : ¬before.Sealed (.array handle))
    (has : ∀ container, before.Has container → after.Has container)
    (same : ∀ container, container ≠ .array handle → before.SameContents after container)
    (outer : ∀ value ∈ (after.items handle).toList, before.Outer value) :
    before.Evolves after ∧ after.Separated ∧
      ∀ container, after.Sealed container → before.Sealed container := by
  have unchanged (record : Nat) (container : Container)
      (within : before.Within (.record record) container) : before.SameContents after container := by
    apply same
    intro changed
    rw [changed] at within
    exact outside ⟨record, within⟩
  have unsealed (container : Container) (inside : after.Sealed container) :
      before.Sealed container := by
    rcases inside with ⟨record, within⟩
    exact ⟨record, within_of_same (unchanged record) within⟩
  have evolves : before.Evolves after := by
    refine ⟨has, ?_, fun container _ inside => unsealed container inside⟩
    intro container _ inside
    rcases inside with ⟨record, within⟩
    exact unchanged record container within
  refine ⟨evolves, ?_, unsealed⟩
  constructor
  · intro outerContainer inner holds
    by_cases changed : outerContainer = .array handle
    · rw [changed] at holds
      exact has inner (outer inner.toValue holds).has
    · exact has inner (separated.closed _ _ ((holds_iff_of_same (same _ changed)).mp holds))
  · intro other free value member
    by_cases changed : other = handle
    · rw [changed] at member
      exact evolves.outer (outer value member)
    · have contents : after.items other = before.items other :=
        same (.array other) fun equal => changed (Container.array.inj equal)
      rw [contents] at member
      have freeBefore : ¬before.Sealed (.array other) := by
        intro inside
        exact free (evolves.still_sealed separated inside)
      exact evolves.outer (separated.apart other freeBefore value member)
  · intro record
    exact acc_of_same (separated.grounded record) (unchanged record)

end

/-- The second heap has one container more than the first, with the given values in it. -/
structure Makes (before after : Heap) (made : Container) (values : List Value) : Prop where
  new : ¬before.Has made
  has : ∀ container, after.Has container ↔ before.Has container ∨ container = made
  same : ∀ container, container ≠ made → before.SameContents after container
  parts : after.parts made = values

theorem new_array_makes (heap : Heap) (values : Array Value) :
    heap.Makes (heap.newArray values).2 (.array heap.arrays.size) values.toList := by
  constructor
  · exact Nat.lt_irrefl _
  · intro container
    cases container with
    | array handle =>
        simp only [newArray, Has, Array.size_push, Container.array.injEq]
        omega
    | record handle => simp [newArray, Has]
  · intro container other
    cases container with
    | array handle =>
        have differs : handle ≠ heap.arrays.size := fun same => other (congrArg _ same)
        simp only [SameContents, newArray, items, Array.getD_eq_getD_getElem?, Array.getElem?_push,
          if_neg differs]
    | record handle => rfl
  · simp [parts, newArray, items]

theorem new_record_makes (heap : Heap) (values : Table Value) :
    heap.Makes (heap.newRecord values).2 (.record heap.records.size) (values.map Prod.snd) := by
  constructor
  · exact Nat.lt_irrefl _
  · intro container
    cases container with
    | array handle => simp [newRecord, Has]
    | record handle =>
        simp only [newRecord, Has, Array.size_push, Container.record.injEq]
        omega
  · intro container other
    cases container with
    | array handle => rfl
    | record handle =>
        have differs : handle ≠ heap.records.size := fun same => other (congrArg _ same)
        simp only [SameContents, newRecord, fields, Array.getD_eq_getD_getElem?,
          Array.getElem?_push, if_neg differs]
  · simp [parts, newRecord, fields]

/-- Values were loaded into fresh containers: the old containers are as before, the new ones hold
only new ones and no cycles, and each of them lies in one of the values. -/
structure Loaded (base heap : Heap) (values : List Value) : Prop where
  separated : heap.Separated
  has : ∀ container, base.Has container → heap.Has container
  old : ∀ container, base.Has container → base.SameContents heap container
  fresh : ∀ outer inner, ¬base.Has outer → heap.Holds outer inner → ¬base.Has inner
  new : ∀ container, container.toValue ∈ values → ¬base.Has container
  outer : ∀ value ∈ values, heap.Outer value
  covered : ∀ container, heap.Has container → ¬base.Has container →
    ∃ root, root.toValue ∈ values ∧ heap.Within root container
  grounded : ∀ container, ¬base.Has container → Acc heap.Below container

section

variable {base heap : Heap} {values : List Value}

theorem Loaded.fresh_within (loaded : base.Loaded heap values) {root container : Container}
    (new : ¬base.Has root) (within : heap.Within root container) : ¬base.Has container := by
  induction within with
  | refl => exact new
  | tail _ holds ih => exact loaded.fresh _ _ ih holds

theorem Loaded.evolves (loaded : base.Loaded heap values) (separated : base.Separated) :
    base.Evolves heap := by
  refine ⟨loaded.has, fun container has _ => loaded.old container has, ?_⟩
  intro container has inside
  rcases inside with ⟨record, within⟩
  by_cases old : base.Has (.record record)
  · refine ⟨record, within_of_same (fun inner reached => ?_) within⟩
    exact loaded.old inner (separated.has_within old reached)
  · exact absurd has (loaded.fresh_within old within)

theorem acc_of_no_parts {container : Container} (new : ¬heap.Has container) :
    Acc heap.Below container := by
  apply Acc.intro
  intro inner below
  exact absurd (has_of_holds below) new

/-- Values that are no containers are loaded into none. -/
theorem loaded_plain (separated : base.Separated)
    (plain : ∀ value ∈ values, value.isHandle = false) : base.Loaded base values := by
  constructor
  · exact separated
  · exact fun _ has => has
  · exact fun container _ => same_contents_refl base container
  · intro outer inner new holds
    exact absurd (has_of_holds holds) new
  · intro container member
    have no := plain _ member
    cases container <;> cases no
  · intro value member
    have no := plain value member
    cases value with
    | array handle => cases no
    | record handle => cases no
    | function handle => cases no
    | _ => trivial
  · intro container has new
    exact absurd has new
  · exact fun container new => acc_of_no_parts new

/-- Values loaded one after another. -/
theorem Loaded.cons {middle : Heap} {value : Value} (first : base.Loaded middle [value])
    (rest : middle.Loaded heap values) : base.Loaded heap (value :: values) := by
  have kept {root : Container} (has : middle.Has root) (container : Container)
      (within : middle.Within root container) : middle.SameContents heap container :=
    rest.old container (first.separated.has_within has within)
  constructor
  · exact rest.separated
  · intro container has
    exact rest.has container (first.has container has)
  · intro container has
    exact (first.old container has).trans (rest.old container (first.has container has))
  · intro outer inner new holds
    by_cases between : middle.Has outer
    · exact first.fresh outer inner new ((holds_iff_of_same (rest.old outer between)).mp holds)
    · intro has
      exact rest.fresh outer inner between holds (first.has inner has)
  · intro container member has
    rcases List.mem_cons.mp member with same | later
    · exact first.new container (List.mem_singleton.mpr same) has
    · exact rest.new container later (first.has container has)
  · intro other member
    rcases List.mem_cons.mp member with rfl | later
    · exact (rest.evolves first.separated).outer (first.outer other (List.mem_singleton.mpr rfl))
    · exact rest.outer other later
  · intro container has new
    by_cases between : middle.Has container
    · rcases first.covered container between new with ⟨root, member, within⟩
      have rootHas : middle.Has root := (first.outer _ member).has
      exact ⟨root, List.mem_cons.mpr (.inl (List.mem_singleton.mp member)),
        within_kept (kept rootHas) within⟩
    · rcases rest.covered container has between with ⟨root, member, within⟩
      exact ⟨root, List.mem_cons_of_mem _ member, within⟩
  · intro container new
    by_cases between : middle.Has container
    · exact acc_of_same (first.grounded container new) (kept between)
    · exact rest.grounded container between

variable {after : Heap} {made : Container}

/-- What lies inside a container made before is as it was. -/
theorem Makes.same_within (makes : heap.Makes after made values) (separated : heap.Separated)
    {root : Container} (differs : root ≠ made) (container : Container)
    (within : heap.Within root container) : heap.SameContents after container := by
  apply makes.same
  cases within with
  | refl => exact differs
  | tail _ holds =>
      intro same
      rw [same] at holds
      exact makes.new (separated.closed _ _ holds)

theorem Makes.holds_iff (makes : heap.Makes after made values) {inner : Container} :
    after.Holds made inner ↔ inner.toValue ∈ values := by
  rw [Holds, makes.parts]

theorem Makes.ne_of_has (makes : heap.Makes after made values) {container : Container}
    (has : heap.Has container) : container ≠ made := by
  intro same
  rw [same] at has
  exact makes.new has

/-- A container made of loaded values ends in finitely many levels, as they do. -/
theorem Loaded.made_grounded (loaded : base.Loaded heap values)
    (makes : heap.Makes after made values) : Acc after.Below made := by
  apply Acc.intro
  intro inner below
  have member := makes.holds_iff.mp below
  have differs := makes.ne_of_has (loaded.outer _ member).has
  exact acc_of_same (loaded.grounded inner (loaded.new inner member))
    (makes.same_within loaded.separated differs)

/-- Loaded values are put into one more container. -/
theorem Loaded.make (loaded : base.Loaded heap values) (makes : heap.Makes after made values)
    (separated : after.Separated) (outer : after.Outer made.toValue) :
    base.Loaded after [made.toValue] := by
  have rootsKept {root : Container} (member : root.toValue ∈ values) : root ≠ made :=
    makes.ne_of_has (loaded.outer _ member).has
  constructor
  · exact separated
  · intro container has
    exact (makes.has container).mpr (.inl (loaded.has container has))
  · intro container has
    have differs := makes.ne_of_has (loaded.has container has)
    exact (loaded.old container has).trans (makes.same container differs)
  · intro outer inner new holds
    by_cases same : outer = made
    · rw [same] at holds
      exact loaded.new inner (makes.holds_iff.mp holds)
    · exact loaded.fresh outer inner new ((holds_iff_of_same (makes.same outer same)).mp holds)
  · intro container member has
    have same := Container.to_value_inj (List.mem_singleton.mp member)
    rw [same] at has
    exact makes.new (loaded.has made has)
  · intro value member
    rw [List.mem_singleton.mp member]
    exact outer
  · intro container has new
    refine ⟨made, List.mem_singleton.mpr rfl, ?_⟩
    rcases (makes.has container).mp has with old | rfl
    · rcases loaded.covered container old new with ⟨root, member, within⟩
      have kept := within_kept (makes.same_within loaded.separated (rootsKept member)) within
      exact .head (makes.holds_iff.mpr member) kept
    · exact .refl
  · intro container new
    by_cases same : container = made
    · rw [same]
      exact loaded.made_grounded makes
    · exact acc_of_same (loaded.grounded container new) (makes.same_within loaded.separated same)

end

/-- A new array of values that may be outside of records is outside of all records. -/
theorem new_array_outside {heap : Heap} (separated : heap.Separated) {values : Array Value}
    (outer : ∀ value ∈ values.toList, heap.Outer value) :
    heap.Evolves (heap.newArray values).2 ∧ (heap.newArray values).2.Separated ∧
      (heap.newArray values).2.Outer (heap.newArray values).1 := by
  have makes := new_array_makes heap values
  have new := separated.not_sealed_of_new makes.new
  have items : ((heap.newArray values).2.items heap.arrays.size).toList = values.toList :=
    makes.parts
  have outside := change_outside separated new
    (fun container has => (makes.has container).mpr (.inl has)) makes.same
    (fun value member => outer value (items ▸ member))
  rcases outside with ⟨evolves, after, unsealed⟩
  exact ⟨evolves, after, (makes.has _).mpr (.inr rfl), fun inside => new (unsealed _ inside)⟩

theorem Loaded.new_array {base heap : Heap} {values : List Value}
    (loaded : base.Loaded heap values) :
    base.Loaded (heap.newArray values.toArray).2 [(heap.newArray values.toArray).1] := by
  have outside := @new_array_outside heap loaded.separated values.toArray loaded.outer
  exact loaded.make (new_array_makes heap values.toArray) outside.2.1 outside.2.2

section

variable {base heap after : Heap} {values : List Value} {record : Nat}

/-- What a new record seals is new, or was sealed before. -/
theorem Loaded.sealed_by_record (loaded : base.Loaded heap values)
    (makes : heap.Makes after (.record record) values) {container : Container}
    (has : heap.Has container) (inside : after.Sealed container) :
    heap.Sealed container ∨ ¬base.Has container := by
  rcases inside with ⟨other, within⟩
  by_cases same : Container.record other = .record record
  · rw [same] at within
    rcases Relation.ReflTransGen.cases_head within with rfl | ⟨root, holds, rest⟩
    · exact absurd has makes.new
    · have member := makes.holds_iff.mp holds
      have differs := makes.ne_of_has (loaded.outer _ member).has
      have before := within_of_same (makes.same_within loaded.separated differs) rest
      exact .inr (loaded.fresh_within (loaded.new root member) before)
  · exact .inl ⟨other, within_of_same (makes.same_within loaded.separated same) within⟩

theorem Loaded.record_seals (loaded : base.Loaded heap values)
    (makes : heap.Makes after (.record record) values) {container : Container}
    (has : heap.Has container) (new : ¬base.Has container) : after.Sealed container := by
  rcases loaded.covered container has new with ⟨root, member, within⟩
  have differs := makes.ne_of_has (loaded.outer _ member).has
  have kept := within_kept (makes.same_within loaded.separated differs) within
  exact ⟨record, .head (makes.holds_iff.mpr member) kept⟩

/-- A new record seals what was loaded for it and nothing else. -/
theorem Loaded.record_separated (old : base.Separated) (loaded : base.Loaded heap values)
    (makes : heap.Makes after (.record record) values) : after.Separated := by
  have grows (container : Container) (has : heap.Has container) : after.Has container :=
    (makes.has container).mpr (.inl has)
  constructor
  · intro outer inner holds
    by_cases same : outer = .record record
    · rw [same] at holds
      exact grows inner (loaded.outer _ (makes.holds_iff.mp holds)).has
    · have before := (holds_iff_of_same (makes.same outer same)).mp holds
      exact grows inner (loaded.separated.closed _ _ before)
  · intro handle free value member
    have contents : after.items handle = heap.items handle := makes.same (.array handle) nofun
    rw [contents] at member
    have has : heap.Has (.array handle) := lt_of_mem_items member
    have unsealed : ¬heap.Sealed (.array handle) := by
      rintro ⟨other, within⟩
      have differs : Container.record other ≠ .record record := by
        rcases Relation.ReflTransGen.cases_head within with same | ⟨inner, holds, -⟩
        · cases same
        · exact makes.ne_of_has (has_of_holds holds)
      exact free ⟨other, within_kept (makes.same_within loaded.separated differs) within⟩
    have outer := loaded.separated.apart handle unsealed value member
    -- An unsealed array is an old one, and an old one holds old ones only.
    have oldArray : base.Has (.array handle) := by
      by_contra new
      exact free (loaded.record_seals makes has new)
    cases value with
    | array inner =>
        have oldInner : base.Has (.array inner) := by
          apply old.closed (.array handle)
          exact (holds_iff_of_same (loaded.old _ oldArray)).mp member
        refine ⟨grows _ outer.1, fun inside => ?_⟩
        rcases loaded.sealed_by_record makes outer.1 inside with before | new
        · exact outer.2 before
        · exact new oldInner
    | record inner => exact grows (.record inner) outer
    | null => trivial
    | bool value => trivial
    | number value => trivial
    | string value => trivial
    | function handle => trivial
  · intro other
    by_cases same : Container.record other = .record record
    · rw [same]
      exact loaded.made_grounded makes
    · exact acc_of_same (loaded.separated.grounded other)
        (makes.same_within loaded.separated same)

end

theorem Loaded.new_record {base heap : Heap} {fields : List (String × Value)}
    (old : base.Separated) (loaded : base.Loaded heap (fields.map Prod.snd)) :
    base.Loaded (heap.newRecord fields).2 [(heap.newRecord fields).1] := by
  have makes := new_record_makes heap fields
  apply loaded.make makes (loaded.record_separated old makes)
  exact (makes.has _).mpr (.inr rfl)

mutual

theorem load_loaded {heap : Heap} (separated : heap.Separated) (json : Json) :
    heap.Loaded (heap.load json).2 [(heap.load json).1] := by
  cases json with
  | array items => exact (load_items_loaded separated items).new_array
  | object fields => exact (load_fields_loaded separated fields).new_record separated
  | _ =>
      apply loaded_plain separated
      intro value member
      rw [List.mem_singleton.mp member]
      rfl

theorem load_items_loaded {heap : Heap} (separated : heap.Separated) (items : List Json) :
    heap.Loaded (heap.loadItems items).2 (heap.loadItems items).1 := by
  cases items with
  | nil => exact loaded_plain separated nofun
  | cons item rest =>
      have first := load_loaded separated item
      exact first.cons (load_items_loaded first.separated rest)

theorem load_fields_loaded {heap : Heap} (separated : heap.Separated)
    (fields : List (String × Json)) :
    heap.Loaded (heap.loadFields fields).2 ((heap.loadFields fields).1.map Prod.snd) := by
  cases fields with
  | nil => exact loaded_plain separated nofun
  | cons field rest =>
      have first := load_loaded separated field.2
      exact first.cons (load_fields_loaded first.separated rest)

end

end ScriptSandbox.Heap
