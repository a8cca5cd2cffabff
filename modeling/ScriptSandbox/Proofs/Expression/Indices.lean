import ScriptSandbox.Proofs.Expression.Effects
import ScriptSandbox.Proofs.Number.Whole

/-!
The index arguments of `slice` and `splice`. Both are cut and clamped in rounded arithmetic; for
every array shorter than 2^53 that gives the exact places, all of them within the array.
-/

namespace ScriptSandbox.Code

open Number

/-- The place of an index in an array, on exact numbers: its whole part, from the end when negative,
and within the array. NaN counts as zero, and the infinite numbers lie at the ends. -/
def index (number : Number) (length : Nat) : Nat :=
  match number with
  | .nan => 0
  | .infinite negative => if negative then 0 else length
  | .finite .. =>
      if number.wholePart < 0 then (length + number.wholePart).toNat
      else min number.wholePart.toNat length

/-- The number of items to remove of those available, on exact numbers: none for NaN and from zero
down, else the whole part. -/
def amount (number : Number) (available : Nat) : Nat :=
  match number with
  | .nan => 0
  | .infinite negative => if negative then 0 else available
  | .finite .. => min number.wholePart.toNat available

theorem index_finite (negative : Bool) (rank : Fin rankCount) (length : Nat) :
    index (.finite negative rank) length =
      if negative = true ∧ magnitude rank / unitsPerOne ≠ 0 then
        length - magnitude rank / unitsPerOne
      else min (magnitude rank / unitsPerOne) length := by
  rw [index, wholePart]
  generalize magnitude rank / unitsPerOne = size
  cases negative with
  | false =>
      have unsigned : ¬(size : Int) < 0 := by omega
      have positive : ¬(false = true ∧ size ≠ 0) := fun signed => Bool.false_ne_true signed.1
      rw [if_neg positive]
      exact if_neg unsigned
  | true =>
      by_cases none : size = 0
      · have unsigned : ¬(true = true ∧ size ≠ 0) := fun signed => signed.2 none
        rw [if_neg unsigned, none]
        rfl
      · have signed : true = true ∧ size ≠ 0 := ⟨rfl, none⟩
        have below : -(size : Int) < 0 := by omega
        have back : ((length : Int) + -(size : Int)).toNat = length - size := by omega
        rw [if_pos signed, ← back]
        exact if_pos below

theorem amount_finite (negative : Bool) (rank : Fin rankCount) (available : Nat) :
    amount (.finite negative rank) available =
      if negative then 0 else min (magnitude rank / unitsPerOne) available := by
  rw [amount, wholePart]
  generalize magnitude rank / unitsPerOne = size
  cases negative with
  | false => rfl
  | true =>
      have none : (-(size : Int)).toNat = 0 := by omega
      simp [none]

theorem place_eq {number whole : Number}
    (cut : (if number.isNaN then Number.zero else number.truncate) = whole) (length : Nat) :
    place number length =
      if whole.less .zero then ((Number.ofNat length + whole).greater .zero).toCount
      else (whole.lesser (.ofNat length)).toCount := by
  rw [← cut]
  rfl

section

variable {length : Nat} (small : length < twoTo 53)
include small

theorem place_whole {number whole : Number} {negative : Bool} {size : Nat}
    (cut : (if number.isNaN then Number.zero else number.truncate) = whole)
    (measures : Measures whole negative size) :
    place number length = if negative = true ∧ size ≠ 0 then length - size else min size length := by
  rw [place_eq cut]
  have counted := of_nat_measures small
  by_cases below : negative = true ∧ size ≠ 0
  · rw [if_pos (measures.less_zero.mpr below), if_pos below]
    rw [below.1] at measures
    exact counted.add_count measures small
  · rw [if_neg (mt measures.less_zero.mp below), if_neg below]
    apply measures.lesser_count _ counted small
    intro signed
    by_contra some
    exact below ⟨signed, some⟩

theorem place_eq_index (number : Number) : place number length = index number length := by
  have counted := of_nat_measures small
  cases number with
  | nan =>
      have unsigned : ¬(false = true ∧ 0 ≠ 0) := fun signed => Bool.false_ne_true signed.1
      rw [@place_whole _ small .nan _ _ _ rfl (zero_measures false), if_neg unsigned]
      exact Nat.zero_min length
  | finite negative rank =>
      rw [index_finite]
      exact place_whole small (if_neg Bool.false_ne_true) (truncate_measures negative rank)
  | infinite negative =>
      cases negative with
      | false =>
          have above : ¬(Number.infinite false).less .zero = true := by decide
          rw [@place_eq (.infinite false) (.infinite false) rfl, if_neg above]
          exact counted.lesser_infinite small
      | true =>
          have below : (Number.infinite true).less .zero = true := by decide
          obtain ⟨rank, shown, -⟩ := counted
          have sum : Number.ofNat length + .infinite true = .infinite true := by
            rw [shown]
            rfl
          rw [@place_eq (.infinite true) (.infinite true) rfl, if_pos below, sum]
          exact greater_zero_count rfl

theorem count_eq_amount (number : Number) : count number length = amount number length := by
  have counted := of_nat_measures small
  cases number with
  | nan => rfl
  | finite negative rank =>
      have cut := truncate_measures negative rank
      rw [amount_finite]
      by_cases none : (Number.finite negative rank).atMost .zero = true
      · have removed : count (.finite negative rank) length = 0 := if_pos none
        rw [removed]
        rcases at_most_zero.mp none with signed | first
        · rw [if_pos signed]
        · rw [first, magnitude_zero, Nat.zero_div, Nat.zero_min, ite_self]
      · have removed : count (.finite negative rank) length =
            ((Number.finite negative rank).truncate.lesser (.ofNat length)).toCount := if_neg none
        have unsigned : ¬negative = true := fun signed => none (at_most_zero.mpr (.inl signed))
        rw [removed, if_neg unsigned]
        exact cut.lesser_count (fun signed => absurd signed unsigned) counted small
  | infinite negative =>
      cases negative with
      | false =>
          have above : ¬((Number.infinite false).isNaN || (Number.infinite false).atMost .zero) = true := by
            decide
          have removed : count (.infinite false) length =
              ((Number.infinite false).lesser (.ofNat length)).toCount := if_neg above
          exact removed.trans (counted.lesser_infinite small)
      | true =>
          have below : ((Number.infinite true).isNaN || (Number.infinite true).atMost .zero) = true := by
            decide
          exact if_pos below

end

theorem index_le (number : Number) (length : Nat) : index number length ≤ length := by
  cases number with
  | nan => exact Nat.zero_le length
  | infinite negative =>
      cases negative with
      | false => exact Nat.le_refl length
      | true => exact Nat.zero_le length
  | finite negative rank =>
      rw [index_finite]
      split
      · exact Nat.sub_le length _
      · exact Nat.min_le_right _ length

theorem amount_le (number : Number) (available : Nat) : amount number available ≤ available := by
  cases number with
  | nan => exact Nat.zero_le available
  | infinite negative =>
      cases negative with
      | false => exact Nat.le_refl available
      | true => exact Nat.zero_le available
  | finite negative rank => exact Nat.min_le_right _ available

/-- The items at the places that pass the test, in order, with places counted from the base. -/
def itemsAt (test : Nat → Bool) (base : Nat) (items : List Value) : List Value :=
  ((items.zipIdx base).filter fun placed => test placed.2).map Prod.fst

section

variable {test : Nat → Bool} {base : Nat}

theorem items_at_append (before behind : List Value) :
    itemsAt test base (before ++ behind) =
      itemsAt test base before ++ itemsAt test (base + before.length) behind := by
  unfold itemsAt
  rw [List.zipIdx_append, List.filter_append, List.map_append]

theorem items_at_all {items : List Value}
    (all : ∀ place, base ≤ place → place < base + items.length → test place = true) :
    itemsAt test base items = items := by
  have kept : ((items.zipIdx base).filter fun placed => test placed.2) = items.zipIdx base := by
    apply List.filter_eq_self.mpr
    intro placed member
    exact all placed.2 (List.le_snd_of_mem_zipIdx member) (List.snd_lt_add_of_mem_zipIdx member)
  rw [itemsAt, kept, List.zipIdx_map_fst]

theorem items_at_none {items : List Value}
    (none : ∀ place, base ≤ place → place < base + items.length → test place = false) :
    itemsAt test base items = [] := by
  have dropped : ((items.zipIdx base).filter fun placed => test placed.2) = [] := by
    apply List.filter_eq_nil_iff.mpr
    intro placed member
    rw [none placed.2 (List.le_snd_of_mem_zipIdx member) (List.snd_lt_add_of_mem_zipIdx member)]
    exact Bool.false_ne_true
  rw [itemsAt, dropped, List.map_nil]

end

/-- The items of a run of places, and all the others. -/
theorem items_at_run (items : List Value) {first count : Nat} (inside : first + count ≤ items.length) :
    itemsAt (fun place => first ≤ place && place < first + count) 0 items =
        (items.drop first).take count ∧
      itemsAt (fun place => place < first || first + count ≤ place) 0 items =
        items.take first ++ items.drop (first + count) := by
  -- Cut at both ends of the run, the list has three parts, and the test is constant on each.
  have parts : items = items.take first ++ ((items.drop first).take count ++
      items.drop (first + count)) := by
    rw [← List.drop_drop, List.take_append_drop, List.take_append_drop]
  have before : (items.take first).length = first := by
    rw [List.length_take]
    omega
  have middle : ((items.drop first).take count).length = count := by
    rw [List.length_take, List.length_drop]
    omega
  constructor
  · nth_rewrite 1 [parts]
    rw [items_at_append, items_at_append, items_at_none, items_at_all, items_at_none,
      List.nil_append, List.append_nil]
    all_goals
      intro place low high
      simp only [before, middle, Nat.zero_add] at low high
      simp only [Bool.and_eq_true, Bool.and_eq_false_iff, decide_eq_true_eq, decide_eq_false_iff_not]
      omega
  · nth_rewrite 1 [parts]
    rw [items_at_append, items_at_append, items_at_all, items_at_none, items_at_all, List.nil_append]
    all_goals
      intro place low high
      simp only [before, middle, Nat.zero_add] at low high
      simp only [Bool.or_eq_true, Bool.or_eq_false_iff, decide_eq_true_eq, decide_eq_false_iff_not]
      omega

section

variable {items : Array Value} (small : items.size < twoTo 53)
include small

theorem sliced_items (start finish : Number) :
    (sliced items start finish).toList =
      itemsAt (fun place => index start items.size ≤ place && place < index finish items.size) 0
        items.toList := by
  rw [sliced, place_eq_index small, place_eq_index small, Array.toList_extract, List.extract_eq_take_drop]
  have first := index_le start items.size
  have last := index_le finish items.size
  generalize index start items.size = low at first
  generalize index finish items.size = high at last
  -- When the finish lies before the start, this is the empty run at the start.
  have inside : low + (high - low) ≤ items.toList.length := by
    rw [Array.length_toList]
    omega
  rw [← (items_at_run items.toList inside).1]
  congr 1
  funext place
  rw [Bool.eq_iff_iff]
  simp only [Bool.and_eq_true, decide_eq_true_eq]
  omega

theorem count_available (start removed : Number) :
    count removed (items.size - index start items.size) =
      amount removed (items.size - index start items.size) :=
  count_eq_amount (by omega) removed

theorem spliced_items (start removed : Number) :
    (spliced items start removed).toList =
      itemsAt (fun place => place < index start items.size ||
        index start items.size + amount removed (items.size - index start items.size) ≤ place) 0
        items.toList := by
  have first := index_le start items.size
  have count := amount_le removed (items.size - index start items.size)
  have inside : index start items.size + amount removed (items.size - index start items.size) ≤
      items.toList.length := by
    rw [Array.length_toList]
    omega
  rw [(items_at_run items.toList inside).2, spliced, place_eq_index small, count_available small,
    Array.toList_append, Array.toList_extract, Array.toList_extract, List.extract_eq_take_drop,
    List.extract_eq_take_drop, List.drop_zero, Nat.sub_zero]
  congr 1
  apply List.take_of_length_le
  rw [List.length_drop, Array.length_toList]

theorem places_inside (start removed : Number) :
    place start items.size ≤ items.size ∧ place removed items.size ≤ items.size ∧
      place start items.size + count removed (items.size - place start items.size) ≤ items.size := by
  rw [place_eq_index small, place_eq_index small, count_available small]
  have first := index_le start items.size
  have last := index_le removed items.size
  have count := amount_le removed (items.size - index start items.size)
  omega

end

/-- On an array shorter than 2^53, `slice` makes a new array of the items from the first index on and
before the second, and changes nothing else; `splice` takes as many items out of the array itself, from
the first index on, as the second operand says. No place they use lies outside of the array. -/
theorem slice_splice_exact {scope : Scope} {heap : Heap} {name : String} {handle : Nat}
    (bound : scope.bindings.get? name = some (.array handle)) (held : heap.Has (.array handle))
    (small : (heap.items handle).size < twoTo 53) (line : Nat) (start second : Operand)
    (rest : List Operand) :
    let items := heap.items handle
    let first := heap.numberOf (start.resolve scope)
    let last := heap.numberOf (second.resolve scope)
    let low := index first items.size
    let high := index last items.size
    let removed := amount last (items.size - low)
    (∃ copy after,
      apply scope line .slice (second :: start :: .reference name :: rest) heap =
        (.ok (.value (.array copy) :: rest), after) ∧
      heap.Makes after (.array copy)
        (itemsAt (fun place => low ≤ place && place < high) 0 items.toList)) ∧
    (∃ after,
      apply scope line .splice (second :: start :: .reference name :: rest) heap =
        (.ok (.value (.array handle) :: rest), after) ∧
      (after.items handle).toList =
        itemsAt (fun place => place < low || low + removed ≤ place) 0 items.toList ∧
      heap.Confined (fun other => other = handle) after) ∧
    place first items.size ≤ items.size ∧ place last items.size ≤ items.size ∧
      place first items.size + count last (items.size - place first items.size) ≤ items.size := by
  intro items first last low high removed
  have target (operator : Operator) :
      (Operand.reference name).target scope operator line = .ok handle := by
    rw [Operand.target, bound]
  refine ⟨⟨heap.arrays.size, (heap.newArray (sliced items first last)).2, ?_, ?_⟩,
    ⟨heap.modifyItems handle fun items => spliced items first last, ?_, ?_, ?_⟩,
    places_inside small first last⟩
  · rw [apply, target]
    rfl
  · rw [← sliced_items small]
    exact heap.new_array_makes _
  · rw [apply, target]
  · rw [heap.items_modify_items _ held]
    exact spliced_items small first last
  · apply heap.modify_items_confined
    rfl

/-- From the third item of four on: two and a half back from the end, without end. -/
theorem slice_splice_exact_open :
    ∃ copy grown changed,
      apply ⟨[("xs", .array 0)], []⟩ 1 .slice
          [.value (.string "Infinity"), .value (.string "-2.5"), .reference "xs"]
          ⟨#[#[.null, .bool true, .bool false, .string "x"]], #[], #[]⟩ =
        (.ok [.value (.array copy)], grown) ∧
      grown.parts (.array copy) = [.bool false, .string "x"] ∧
      apply ⟨[("xs", .array 0)], []⟩ 1 .splice
          [.value (.string "Infinity"), .value (.string "-2.5"), .reference "xs"]
          ⟨#[#[.null, .bool true, .bool false, .string "x"]], #[], #[]⟩ =
        (.ok [.value (.array 0)], changed) ∧
      (changed.items 0).toList = [.null, .bool true] := by
  let scope : Scope := ⟨[("xs", .array 0)], []⟩
  let heap : Heap := ⟨#[#[.null, .bool true, .bool false, .string "x"]], #[], #[]⟩
  have bound : scope.bindings.get? "xs" = some (.array 0) := rfl
  have held : heap.Has (.array 0) := Nat.one_pos
  have small : (heap.items 0).size < twoTo 53 := by decide
  obtain ⟨⟨copy, grown, cut, makes⟩, ⟨changed, taken, left, -⟩, -⟩ :=
    slice_splice_exact bound held small 1 (.value (.string "-2.5")) (.value (.string "Infinity")) []
  refine ⟨copy, grown, changed, cut, ?_, taken, ?_⟩
  · rw [makes.parts]
    decide +kernel
  · rw [left]
    decide +kernel

end ScriptSandbox.Code
