import Mathlib.Data.List.Forall2
import Mathlib.Data.List.Perm.Subperm
import Mathlib.Data.List.ProdSigma
import Mathlib.Logic.Relation
import ScriptSandbox.Proofs.Json.Formed
import ScriptSandbox.Proofs.Value.Nesting
import ScriptSandbox.Value.Equality

/-!
Equality by structure decides bisimilarity. Two values of a heap are bisimilar when some relation
holds between them that goes down with them: equal scalars, one function, containers of one kind
with related parts. The comparison takes the pairs it is inside of for equal and forgets them on the
way out; it ends, because no chain of calls opens a pair of containers twice.
-/

namespace ScriptSandbox

namespace Number

/-- The same number, where the two zeros are one; all NaNs are the same number. -/
def Alike (left right : Number) : Prop :=
  left = right ∨ left.isZero = true ∧ right.isZero = true

theorem Alike.trans {first second third : Number} (before : first.Alike second)
    (after : second.Alike third) : first.Alike third := by
  rcases before with rfl | ⟨zero, middle⟩
  · exact after
  · rcases after with rfl | ⟨-, last⟩
    · exact .inr ⟨zero, middle⟩
    · exact .inr ⟨zero, last⟩

theorem alike_of_place {left right : Number} {place : Int} (first : left.place? = some place)
    (second : right.place? = some place) : left.Alike right := by
  unfold Alike
  cases left <;> cases right <;> grind [place?, isZero, rank_count_pos]

theorem place_of_zero {number : Number} (zero : number.isZero = true) : number.place? = some 0 := by
  cases number with
  | nan => cases zero
  | infinite => cases zero
  | finite negative rank =>
      have none : rank.val = 0 := by simpa [isZero] using zero
      cases negative <;> simp [place?, none]

theorem equals_iff {left right : Number} :
    left.equals right = true ↔ ∃ place, left.place? = some place ∧ right.place? = some place := by
  unfold equals compare?
  cases left.place? with
  | none => simp
  | some first =>
      cases right.place? with
      | none => simp
      | some second => simp [eq_comm (a := second)]

end Number

namespace Heap

theorem same_number_iff {left right : Number} : sameNumber left right = true ↔ left.Alike right := by
  rw [sameNumber, Bool.or_eq_true, Bool.and_eq_true, Number.equals_iff]
  constructor
  · rintro (⟨place, first, second⟩ | ⟨first, second⟩)
    · exact Number.alike_of_place first second
    · refine .inl ?_
      cases left <;> cases first
      cases right <;> cases second
      rfl
  · rintro (rfl | ⟨first, second⟩)
    · cases left with
      | nan => exact .inr ⟨rfl, rfl⟩
      | infinite negative => exact .inl ⟨_, rfl, rfl⟩
      | finite negative rank => exact .inl ⟨_, rfl, rfl⟩
    · exact .inl ⟨0, Number.place_of_zero first, Number.place_of_zero second⟩

/-- Two values whose outermost level is the same and whose parts are related: equal scalars, one
function, arrays item by item, records key by key in any order. -/
inductive Matched (heap : Heap) (related : Value → Value → Prop) : Value → Value → Prop
  | null : Matched heap related .null .null
  | bool (value : Bool) : Matched heap related (.bool value) (.bool value)
  | number {left right : Number} (alike : left.Alike right) :
      Matched heap related (.number left) (.number right)
  | string (value : String) : Matched heap related (.string value) (.string value)
  | function (handle : Nat) : Matched heap related (.function handle) (.function handle)
  | array {left right : Nat}
      (items : List.Forall₂ related (heap.items left).toList (heap.items right).toList) :
      Matched heap related (.array left) (.array right)
  | record {left right : Nat}
      (keys : ∀ key, (heap.fields left).contains key = (heap.fields right).contains key)
      (fields : ∀ key first second, (heap.fields left).get? key = some first →
        (heap.fields right).get? key = some second → related first second) :
      Matched heap related (.record left) (.record right)

/-- The relation goes down with the values it holds between. -/
def IsBisimulation (heap : Heap) (related : Value → Value → Prop) : Prop :=
  ∀ left right, related left right → heap.Matched related left right

/-- Related by the largest relation that goes down with its values. -/
def Bisimilar (heap : Heap) (left right : Value) : Prop :=
  ∃ related, heap.IsBisimulation related ∧ related left right

theorem Matched.mono {heap : Heap} {related other : Value → Value → Prop} {left right : Value}
    (weaker : ∀ left right, related left right → other left right)
    (matched : heap.Matched related left right) : heap.Matched other left right := by
  cases matched with
  | null => exact .null
  | bool value => exact .bool value
  | number alike => exact .number alike
  | string value => exact .string value
  | function handle => exact .function handle
  | array items => exact .array (items.imp weaker)
  | record keys fields =>
      exact .record keys fun key first second found other =>
        weaker first second (fields key first second found other)

theorem bisimilar_of_bisimulation {heap : Heap} {related : Value → Value → Prop}
    (bisimulation : heap.IsBisimulation related) {left right : Value}
    (held : related left right) : heap.Bisimilar left right :=
  ⟨related, bisimulation, held⟩

theorem bisimilar_is_bisimulation (heap : Heap) : heap.IsBisimulation heap.Bisimilar := by
  rintro left right ⟨related, bisimulation, held⟩
  exact (bisimulation left right held).mono fun _ _ => bisimilar_of_bisimulation bisimulation

theorem bisimilar_refl (heap : Heap) (value : Value) : heap.Bisimilar value value := by
  refine ⟨Eq, ?_, rfl⟩
  rintro left right rfl
  cases left with
  | null => exact .null
  | bool value => exact .bool value
  | number value => exact .number (.inl rfl)
  | string value => exact .string value
  | array handle => exact .array (List.forall₂_refl _)
  | record handle =>
      refine .record (fun _ => rfl) fun key first second found other => ?_
      rw [found] at other
      exact Option.some.inj other
  | function handle => exact .function handle

theorem Bisimilar.symm {heap : Heap} {left right : Value} (same : heap.Bisimilar left right) :
    heap.Bisimilar right left := by
  refine ⟨fun right left => heap.Bisimilar left right, ?_, same⟩
  intro right left held
  cases bisimilar_is_bisimulation heap left right held with
  | null => exact .null
  | bool value => exact .bool value
  | number alike =>
      rcases alike with rfl | ⟨first, second⟩
      · exact .number (.inl rfl)
      · exact .number (.inr ⟨second, first⟩)
  | string value => exact .string value
  | function handle => exact .function handle
  | array items => exact .array items.flip
  | record keys fields =>
      exact .record (fun key => (keys key).symm) fun key first second found other =>
        fields key second first other found

theorem forall_comp {related other : Value → Value → Prop} {firsts seconds thirds : List Value}
    (before : List.Forall₂ related firsts seconds) (after : List.Forall₂ other seconds thirds) :
    List.Forall₂ (Relation.Comp related other) firsts thirds := by
  induction before generalizing thirds with
  | nil =>
      cases after
      exact .nil
  | cons held _ ih =>
      cases after with
      | cons heldThen later => exact .cons ⟨_, held, heldThen⟩ (ih later)

theorem Matched.comp {heap : Heap} {related other : Value → Value → Prop}
    {first second third : Value} (before : heap.Matched related first second)
    (after : heap.Matched other second third) :
    heap.Matched (Relation.Comp related other) first third := by
  cases before with
  | null =>
      cases after
      exact .null
  | bool value =>
      cases after
      exact .bool value
  | number alike =>
      cases after with
      | number alikeThen => exact .number (alike.trans alikeThen)
  | string value =>
      cases after
      exact .string value
  | function handle =>
      cases after
      exact .function handle
  | array items =>
      cases after with
      | array itemsThen => exact .array (forall_comp items itemsThen)
  | @record left middle keys fields =>
      cases after with
      | record keysThen fieldsThen =>
          refine .record (fun key => (keys key).trans (keysThen key)) ?_
          intro key first third found other
          have between : (heap.fields middle).contains key = true := by
            rw [← keys key, Table.contains, found]
            rfl
          obtain ⟨second, middleFound⟩ := Option.isSome_iff_exists.mp between
          exact ⟨second, fields key first second found middleFound,
            fieldsThen key second third middleFound other⟩

theorem Bisimilar.trans {heap : Heap} {first second third : Value}
    (before : heap.Bisimilar first second) (after : heap.Bisimilar second third) :
    heap.Bisimilar first third := by
  refine ⟨Relation.Comp heap.Bisimilar heap.Bisimilar, ?_, second, before, after⟩
  rintro left right ⟨middle, leftHeld, rightHeld⟩
  exact (bisimilar_is_bisimulation heap left middle leftHeld).comp
    (bisimilar_is_bisimulation heap middle right rightHeld)

/-- The values match on that many levels. -/
def MatchedTo (heap : Heap) : Nat → Value → Value → Prop
  | 0 => fun _ _ => True
  | depth + 1 => heap.Matched (heap.MatchedTo depth)

theorem matched_to_of_succ {heap : Heap} {depth : Nat} {left right : Value}
    (matched : heap.MatchedTo (depth + 1) left right) : heap.MatchedTo depth left right := by
  induction depth generalizing left right with
  | zero => trivial
  | succ depth ih => exact Matched.mono (fun _ _ => ih) matched

/-- Items that match on every number of levels are related item by item on all of them. -/
theorem forall_of_all_depths {heap : Heap} {lefts rights : List Value}
    (each : ∀ depth, List.Forall₂ (heap.MatchedTo depth) lefts rights) :
    List.Forall₂ (fun left right => ∀ depth, heap.MatchedTo depth left right) lefts rights := by
  induction lefts generalizing rights with
  | nil =>
      cases each 0
      exact .nil
  | cons left lefts ih =>
      cases rights with
      | nil => nomatch each 0
      | cons right rights =>
          refine .cons (fun depth => ?_) (ih fun depth => ?_)
          · cases each depth with
            | cons held _ => exact held
          · cases each depth with
            | cons _ later => exact later

theorem bisimilar_of_matched_to {heap : Heap} {left right : Value}
    (each : ∀ depth, heap.MatchedTo depth left right) : heap.Bisimilar left right := by
  refine ⟨fun left right => ∀ depth, heap.MatchedTo depth left right, ?_, each⟩
  intro left right each
  -- The outermost level gives the shape, all the others what lies below it.
  cases each 1 with
  | null => exact .null
  | bool value => exact .bool value
  | number alike => exact .number alike
  | string value => exact .string value
  | function handle => exact .function handle
  | array items =>
      refine .array (forall_of_all_depths fun depth => ?_)
      cases each (depth + 1) with
      | array items => exact items
  | record keys fields =>
      refine .record keys fun key first second found other depth => ?_
      cases each (depth + 1) with
      | record _ fields => exact fields key first second found other

theorem matched_to_of_bisimilar {heap : Heap} {left right : Value}
    (same : heap.Bisimilar left right) (depth : Nat) : heap.MatchedTo depth left right := by
  induction depth generalizing left right with
  | zero => trivial
  | succ depth ih =>
      exact (bisimilar_is_bisimulation heap left right same).mono fun _ _ held => ih held

/-- The containers of two arrays or of two records. -/
def pair? : Value → Value → Option (Container × Container)
  | .array left, .array right => some (.array left, .array right)
  | .record left, .record right => some (.record left, .record right)
  | _, _ => none

theorem values_of_pair {left right : Value} {pair : Container × Container}
    (met : pair? left right = some pair) : left = pair.1.toValue ∧ right = pair.2.toValue := by
  cases left <;> cases right <;> cases met <;> exact ⟨rfl, rfl⟩

/-- The answer for two values that are not containers of one kind. -/
def scalarsSame : Value → Value → Bool
  | .null, .null => true
  | .bool left, .bool right => left == right
  | .number left, .number right => sameNumber left right
  | .string left, .string right => left == right
  | .function left, .function right => left == right
  | _, _ => false

/-- The parts of the first container, each beside the part of the second that it is compared with;
`none` when the second has more parts or fewer. -/
def beside? (heap : Heap) : Container → Container → Option (List (Value × Option Value))
  | .array left, .array right =>
      if (heap.items left).toList.length = (heap.items right).toList.length then
        some (((heap.items left).toList.zip (heap.items right).toList).map fun items =>
          (items.1, some items.2))
      else none
  | .record left, .record right =>
      if (heap.fields left).length = (heap.fields right).length then
        some ((heap.fields left).map fun field => (field.2, (heap.fields right).get? field.1))
      else none
  | _, _ => none

/-- How a part compares: it must have one beside it that is the same. -/
def partSame (compare : Value → Value → Bool) : Value × Option Value → Bool
  | (value, some other) => compare value other
  | (_, none) => false

/-- The comparison with no bound on its calls: inside the opened pairs, comparing the two values
ends with the answer. Parts are compared in order up to the first that differs. -/
inductive Compared (heap : Heap) : List (Container × Container) → Value → Value → Bool → Prop
  | scalars {opened : List (Container × Container)} {left right : Value} {answer : Bool}
      (plain : pair? left right = none) (decided : scalarsSame left right = answer) :
      Compared heap opened left right answer
  | known {opened : List (Container × Container)} {left right : Value} {pair : Container × Container}
      (met : pair? left right = some pair) (known : pair.1 = pair.2 ∨ pair ∈ opened) :
      Compared heap opened left right true
  | uneven {opened : List (Container × Container)} {left right : Value}
      {pair : Container × Container} (met : pair? left right = some pair)
      (new : ¬(pair.1 = pair.2 ∨ pair ∈ opened)) (uneven : heap.beside? pair.1 pair.2 = none) :
      Compared heap opened left right false
  | equal {opened : List (Container × Container)} {left right : Value} {pair : Container × Container}
      {parts : List (Value × Option Value)} (met : pair? left right = some pair)
      (new : ¬(pair.1 = pair.2 ∨ pair ∈ opened)) (even : heap.beside? pair.1 pair.2 = some parts)
      (given : ∀ part ∈ parts, part.2 ≠ none)
      (each : ∀ value other, (value, some other) ∈ parts →
        Compared heap (pair :: opened) value other true) :
      Compared heap opened left right true
  | lacking {opened : List (Container × Container)} {left right value : Value}
      {pair : Container × Container} {before after : List (Value × Option Value)}
      (met : pair? left right = some pair) (new : ¬(pair.1 = pair.2 ∨ pair ∈ opened))
      (even : heap.beside? pair.1 pair.2 = some (before ++ (value, none) :: after))
      (given : ∀ part ∈ before, part.2 ≠ none)
      (each : ∀ value other, (value, some other) ∈ before →
        Compared heap (pair :: opened) value other true) :
      Compared heap opened left right false
  | unequal {opened : List (Container × Container)} {left right value other : Value}
      {pair : Container × Container} {before after : List (Value × Option Value)}
      (met : pair? left right = some pair) (new : ¬(pair.1 = pair.2 ∨ pair ∈ opened))
      (even : heap.beside? pair.1 pair.2 = some (before ++ (value, some other) :: after))
      (given : ∀ part ∈ before, part.2 ≠ none)
      (each : ∀ value other, (value, some other) ∈ before →
        Compared heap (pair :: opened) value other true)
      (differs : Compared heap (pair :: opened) value other false) :
      Compared heap opened left right false

theorem same_within_plain {heap : Heap} {room : Nat} {opened : List (Container × Container)}
    {left right : Value} (plain : pair? left right = none) :
    heap.sameWithin room opened left right = scalarsSame left right := by
  cases left <;> cases right <;> cases plain <;> cases room <;> rfl

theorem same_within_full {heap : Heap} {opened : List (Container × Container)} {left right : Value}
    {pair : Container × Container} (met : pair? left right = some pair) :
    heap.sameWithin 0 opened left right = true := by
  cases left <;> cases right <;> cases met <;> rfl

/-- One call of the comparison on two containers of one kind. -/
theorem same_within_pair {heap : Heap} {opened : List (Container × Container)}
    {left right : Value} {pair : Container × Container} (met : pair? left right = some pair)
    (room : Nat) :
    heap.sameWithin (room + 1) opened left right =
      if pair.1 = pair.2 ∨ pair ∈ opened then true
      else
        match heap.beside? pair.1 pair.2 with
        | none => false
        | some parts => parts.all (partSame (heap.sameWithin room (pair :: opened))) := by
  cases left <;> cases right <;> cases met
  · next left right =>
      simp only [sameWithin, beside?, Bool.or_eq_true, beq_iff_eq, List.contains_iff_mem,
        Container.array.injEq]
      refine if_congr Iff.rfl rfl ?_
      by_cases even : (heap.items left).toList.length = (heap.items right).toList.length
      · rw [if_pos even, beq_iff_eq.mpr even, Bool.true_and]
        dsimp only
        rw [List.all_map]
        rfl
      · rw [if_neg even, beq_eq_false_iff_ne.mpr even, Bool.false_and]
  · next left right =>
      simp only [sameWithin, beside?, Bool.or_eq_true, beq_iff_eq, List.contains_iff_mem,
        Container.record.injEq]
      refine if_congr Iff.rfl rfl ?_
      by_cases even : (heap.fields left).length = (heap.fields right).length
      · rw [if_pos even, beq_iff_eq.mpr even, Bool.true_and]
        dsimp only
        rw [List.all_map]
        refine congrArg (List.all (heap.fields left)) (funext fun field => ?_)
        rw [Function.comp_apply]
        cases (heap.fields right).get? field.1 <;> rfl
      · rw [if_neg even, beq_eq_false_iff_ne.mpr even, Bool.false_and]

/-- The pairs of containers of one kind that the heap holds. -/
def pairs (heap : Heap) : List (Container × Container) :=
  ((List.range heap.arrays.size ×ˢ List.range heap.arrays.size).map fun pair =>
      (.array pair.1, .array pair.2)) ++
    (List.range heap.records.size ×ˢ List.range heap.records.size).map fun pair =>
      (.record pair.1, .record pair.2)

theorem length_pairs (heap : Heap) : heap.pairs.length = heap.pairCount := by
  simp [pairs, pairCount, List.length_product]

/-- Only pairs that the heap holds have parts to compare. -/
theorem mem_pairs_of_part {heap : Heap} {pair : Container × Container}
    {parts : List (Value × Option Value)} {part : Value × Option Value}
    (even : heap.beside? pair.1 pair.2 = some parts) (member : part ∈ parts) : pair ∈ heap.pairs := by
  obtain ⟨left, right⟩ := pair
  cases left with
  | array left =>
      cases right with
      | record right => cases even
      | array right =>
          simp only [beside?] at even
          split at even
          · next sizes =>
              cases even
              obtain ⟨items, both, rfl⟩ := List.mem_map.mp member
              have first := lt_of_mem_items (List.of_mem_zip both).1
              have second := lt_of_mem_items (List.of_mem_zip both).2
              simp [pairs, first, second]
          · cases even
  | record left =>
      cases right with
      | array right => cases even
      | record right =>
          simp only [beside?] at even
          split at even
          · next sizes =>
              cases even
              obtain ⟨field, held, rfl⟩ := List.mem_map.mp member
              have first := lt_of_mem_fields held
              have second : right < heap.records.size := by
                have some : 0 < (heap.fields right).length := sizes ▸ List.length_pos_of_mem held
                exact lt_of_mem_fields (List.getElem_mem some)
              simp [pairs, first, second]
          · cases even

theorem first_unlike {parts : List (Value × Option Value)} {check : Value × Option Value → Bool}
    (some : parts.all check = false) :
    ∃ before part after, parts = before ++ part :: after ∧ (∀ part ∈ before, check part = true) ∧
      check part = false := by
  induction parts with
  | nil => cases some
  | cons part rest ih =>
      cases checked : check part with
      | false => exact ⟨[], part, rest, rfl, by simp, checked⟩
      | true =>
          have later : rest.all check = false := by simpa [checked] using some
          obtain ⟨before, other, after, rfl, earlier, unlike⟩ := ih later
          exact ⟨part :: before, other, after, rfl, by simpa [checked] using earlier, unlike⟩

theorem part_same_iff {compare : Value → Value → Bool} {parts : List (Value × Option Value)} :
    (∀ part ∈ parts, partSame compare part = true) ↔
      (∀ part ∈ parts, part.2 ≠ none) ∧
        ∀ value other, (value, some other) ∈ parts → compare value other = true := by
  constructor
  · intro all
    refine ⟨fun part member missing => ?_, fun value other member => all (value, some other) member⟩
    obtain ⟨value, beside⟩ := part
    cases missing
    cases all (value, none) member
  · rintro ⟨given, each⟩ ⟨value, beside⟩ member
    cases beside with
    | none => exact absurd rfl (given (value, none) member)
    | some other => exact each value other member

/-- Room for the unopened pairs is room for those left inside one more pair. -/
theorem unopened_inside {heap : Heap} {room : Nat} {opened : List (Container × Container)}
    {pair : Container × Container} {parts : List (Value × Option Value)}
    {part : Value × Option Value} (enough : unopened heap.pairs opened < room + 1)
    (new : ¬(pair.1 = pair.2 ∨ pair ∈ opened)) (even : heap.beside? pair.1 pair.2 = some parts)
    (member : part ∈ parts) : unopened heap.pairs (pair :: opened) < room := by
  have fewer := unopened_lt (mem_pairs_of_part even member) (fun known => new (.inr known))
  omega

/-- With room for every unopened pair, the comparison ends with the answer given within this
room. -/
theorem compared_within {heap : Heap} {room : Nat} {opened : List (Container × Container)}
    (enough : unopened heap.pairs opened < room) (left right : Value) :
    heap.Compared opened left right (heap.sameWithin room opened left right) := by
  induction room generalizing opened left right with
  | zero => cases enough
  | succ room ih =>
      cases met : pair? left right with
      | none => exact .scalars met (same_within_plain met).symm
      | some pair =>
          rw [same_within_pair met]
          split
          · next known => exact .known met known
          · next new =>
              cases even : heap.beside? pair.1 pair.2 with
              | none => exact .uneven met new even
              | some parts =>
                  have inner (value other : Value) (member : (value, some other) ∈ parts) :
                      heap.Compared (pair :: opened) value other
                        (heap.sameWithin room (pair :: opened) value other) :=
                    ih (unopened_inside enough new even member) value other
                  dsimp only
                  cases all : parts.all (partSame (heap.sameWithin room (pair :: opened))) with
                  | true =>
                      obtain ⟨given, each⟩ := part_same_iff.mp (List.all_eq_true.mp all)
                      refine .equal met new even given fun value other member => ?_
                      exact each value other member ▸ inner value other member
                  | false =>
                      obtain ⟨before, ⟨value, beside⟩, after, rfl, earlier, unlike⟩ := first_unlike all
                      obtain ⟨given, each⟩ := part_same_iff.mp earlier
                      have same (value other : Value) (member : (value, some other) ∈ before) :
                          heap.Compared (pair :: opened) value other true :=
                        each value other member ▸ inner value other (List.mem_append_left _ member)
                      cases beside with
                      | none => exact .lacking met new even given same
                      | some other =>
                          have differs : heap.sameWithin room (pair :: opened) value other = false :=
                            unlike
                          exact .unequal met new even given same
                            (differs ▸ inner value other (by simp))

/-- The comparison ends with no other answer. -/
theorem Compared.eq_within {heap : Heap} {opened : List (Container × Container)} {left right : Value}
    {answer : Bool} (compared : heap.Compared opened left right answer) {room : Nat}
    (enough : unopened heap.pairs opened < room) : answer = heap.sameWithin room opened left right := by
  induction compared generalizing room with
  | scalars plain decided => rw [same_within_plain plain, decided]
  | known met known =>
      obtain ⟨room, rfl⟩ := Nat.exists_eq_add_one_of_ne_zero (Nat.ne_zero_of_lt enough)
      rw [same_within_pair met, if_pos known]
  | uneven met new uneven =>
      obtain ⟨room, rfl⟩ := Nat.exists_eq_add_one_of_ne_zero (Nat.ne_zero_of_lt enough)
      rw [same_within_pair met, if_neg new, uneven]
  | equal met new even given each ih =>
      obtain ⟨room, rfl⟩ := Nat.exists_eq_add_one_of_ne_zero (Nat.ne_zero_of_lt enough)
      rw [same_within_pair met, if_neg new, even]
      refine (List.all_eq_true.mpr (part_same_iff.mpr ⟨given, fun value other member => ?_⟩)).symm
      exact (ih value other member (unopened_inside enough new even member)).symm
  | lacking met new even given each ih =>
      obtain ⟨room, rfl⟩ := Nat.exists_eq_add_one_of_ne_zero (Nat.ne_zero_of_lt enough)
      rw [same_within_pair met, if_neg new, even]
      simp [partSame]
  | unequal met new even given each differs ih ihDiffers =>
      obtain ⟨room, rfl⟩ := Nat.exists_eq_add_one_of_ne_zero (Nat.ne_zero_of_lt enough)
      rw [same_within_pair met, if_neg new, even]
      simp [partSame, ← ihDiffers (unopened_inside enough new even (List.mem_append_right _ List.mem_cons_self))]

theorem compared_iff {heap : Heap} {left right : Value} {answer : Bool} :
    heap.Compared [] left right answer ↔ answer = heap.same left right := by
  have enough : unopened heap.pairs [] < heap.pairCount + 1 := by
    rw [unopened_nil, length_pairs]
    exact Nat.lt_succ_self _
  constructor
  · intro compared
    exact compared.eq_within enough
  · rintro rfl
    exact compared_within enough left right

theorem scalars_same_iff {heap : Heap} {related : Value → Value → Prop} {left right : Value}
    (plain : pair? left right = none) :
    scalarsSame left right = true ↔ heap.Matched related left right := by
  constructor
  · intro same
    unfold scalarsSame at same
    split at same
    · exact .null
    · exact beq_iff_eq.mp same ▸ .bool _
    · exact .number (same_number_iff.mp same)
    · exact beq_iff_eq.mp same ▸ .string _
    · exact beq_iff_eq.mp same ▸ .function _
    · cases same
  · intro matched
    cases matched with
    | null => rfl
    | bool value => exact beq_self_eq_true value
    | number alike => exact same_number_iff.mpr alike
    | string value => exact beq_self_eq_true value
    | function handle => exact beq_self_eq_true handle
    | array => cases plain
    | record => cases plain

section

variable {heap : Heap} {related : Value → Value → Prop} {left right : Value}
  {pair : Container × Container}

/-- Records of one size have the same keys once those of the first are among those of the second. -/
theorem same_keys_of_subset {lefts rights : Table Value} (distinct : lefts.Distinct)
    (even : lefts.length = rights.length) (subset : lefts.map Prod.fst ⊆ rights.map Prod.fst)
    (key : String) : lefts.contains key = rights.contains key := by
  have permuted : (lefts.map Prod.fst).Perm (rights.map Prod.fst) :=
    (List.Nodup.subperm distinct subset).perm_of_length_le (by simp [even])
  rw [Bool.eq_iff_iff, Table.contains_iff_mem, Table.contains_iff_mem]
  exact permuted.mem_iff

theorem same_length_of_keys {lefts rights : Table Value} (distinct : lefts.Distinct)
    (distinctRight : rights.Distinct) (keys : ∀ key, lefts.contains key = rights.contains key) :
    lefts.length = rights.length := by
  have permuted : (lefts.map Prod.fst).Perm (rights.map Prod.fst) := by
    refine (List.perm_ext_iff_of_nodup distinct distinctRight).mpr fun key => ?_
    rw [← Table.contains_iff_mem, ← Table.contains_iff_mem, keys key]
  simpa using permuted.length_eq

/-- Containers match when every part has a related one beside it. -/
theorem matched_of_beside (keyed : heap.WellKeyed) {parts : List (Value × Option Value)}
    (met : pair? left right = some pair) (even : heap.beside? pair.1 pair.2 = some parts)
    (given : ∀ part ∈ parts, part.2 ≠ none)
    (each : ∀ value other, (value, some other) ∈ parts → related value other) :
    heap.Matched related left right := by
  cases left <;> cases right <;> cases met
  · next left right =>
      simp only [beside?] at even
      split at even
      · next sizes =>
          cases even
          refine .array (List.forall₂_iff_zip.mpr ⟨sizes, fun member => ?_⟩)
          exact each _ _ (List.mem_map.mpr ⟨_, member, rfl⟩)
      · cases even
  · next left right =>
      simp only [beside?] at even
      split at even
      · next sizes =>
          cases even
          have beside (key : String) (value : Value) (member : (key, value) ∈ heap.fields left) :
              (value, (heap.fields right).get? key) ∈ (heap.fields left).map fun field =>
                (field.2, (heap.fields right).get? field.1) :=
            List.mem_map.mpr ⟨(key, value), member, rfl⟩
          refine .record (same_keys_of_subset (keyed left) sizes ?_) ?_
          · intro key member
            obtain ⟨⟨key, value⟩, held, rfl⟩ := List.mem_map.mp member
            have found := given _ (beside key value held)
            exact Table.contains_iff_mem.mp (Option.isSome_iff_ne_none.mpr found)
          · intro key first second found other
            refine each first second ?_
            have member := beside key first (Table.mem_of_get found)
            rwa [other] at member
      · cases even

/-- Every part of a container has a related one beside it when the containers match. -/
theorem beside_of_matched (keyed : heap.WellKeyed) (met : pair? left right = some pair)
    (matched : heap.Matched related left right) :
    ∃ parts, heap.beside? pair.1 pair.2 = some parts ∧ (∀ part ∈ parts, part.2 ≠ none) ∧
      ∀ value other, (value, some other) ∈ parts → related value other := by
  cases matched with
  | null | bool | number | string | function => cases met
  | @array left right items =>
      cases met
      obtain ⟨sizes, zipped⟩ := List.forall₂_iff_zip.mp items
      refine ⟨_, if_pos sizes, ?_, ?_⟩
      · intro part member
        obtain ⟨both, -, rfl⟩ := List.mem_map.mp member
        exact Option.some_ne_none _
      · intro value other member
        obtain ⟨⟨first, second⟩, both, same⟩ := List.mem_map.mp member
        cases same
        exact zipped both
  | @record left right keys fields =>
      cases met
      refine ⟨_, if_pos (same_length_of_keys (keyed left) (keyed right) keys), ?_, ?_⟩
      · intro part member
        obtain ⟨field, held, rfl⟩ := List.mem_map.mp member
        have found : (heap.fields left).contains field.1 = true :=
          Table.contains_iff_mem.mpr (List.mem_map_of_mem held)
        rw [keys] at found
        exact Option.isSome_iff_ne_none.mp found
      · intro value other member
        obtain ⟨field, held, same⟩ := List.mem_map.mp member
        rw [Prod.mk.injEq] at same
        exact fields field.1 value other (same.1 ▸ Table.get_of_mem (keyed left) held) same.2

end

/-- What compares as equal inside pairs that match on some levels matches on as many. The pair that
is opened matches on one level less by the hypothesis for its own comparison. -/
theorem matched_to_of_compared {heap : Heap} (keyed : heap.WellKeyed) {depth : Nat}
    {opened : List (Container × Container)} {left right : Value}
    (compared : heap.Compared opened left right true)
    (assumed : ∀ pair ∈ opened, heap.MatchedTo depth pair.1.toValue pair.2.toValue) :
    heap.MatchedTo depth left right := by
  induction depth generalizing opened left right with
  | zero => trivial
  | succ depth ih =>
      have lower : ∀ pair ∈ opened, heap.MatchedTo depth pair.1.toValue pair.2.toValue :=
        fun pair member => matched_to_of_succ (assumed pair member)
      cases compared with
      | scalars plain decided => exact (scalars_same_iff plain).mp decided
      | @known _ _ _ pair met known =>
          have values := values_of_pair met
          rw [values.1, values.2]
          rcases known with same | inside
          · rw [same]
            exact matched_to_of_bisimilar (bisimilar_refl heap _) (depth + 1)
          · exact assumed pair inside
      | @equal _ _ _ pair parts met new even given each =>
          refine matched_of_beside keyed met even given fun value other member => ?_
          refine ih (each value other member) fun inside member => ?_
          rcases List.mem_cons.mp member with rfl | earlier
          · have values := values_of_pair met
            rw [← values.1, ← values.2]
            exact ih (.equal met new even given each) lower
          · exact lower inside earlier

theorem same_within_of_bisimilar {heap : Heap} (keyed : heap.WellKeyed) {room : Nat}
    {opened : List (Container × Container)} {left right : Value}
    (same : heap.Bisimilar left right) : heap.sameWithin room opened left right = true := by
  have matched := bisimilar_is_bisimulation heap left right same
  induction room generalizing opened left right with
  | zero =>
      cases met : pair? left right with
      | none => rw [same_within_plain met, scalars_same_iff met]; exact matched
      | some pair => exact same_within_full met
  | succ room ih =>
      cases met : pair? left right with
      | none => rw [same_within_plain met, scalars_same_iff met]; exact matched
      | some pair =>
          obtain ⟨parts, even, given, each⟩ := beside_of_matched keyed met matched
          rw [same_within_pair met, even]
          split
          · rfl
          · refine List.all_eq_true.mpr (part_same_iff.mpr ⟨given, fun value other member => ?_⟩)
            have inner := each value other member
            exact ih inner (bisimilar_is_bisimulation heap value other inner)

theorem same_iff {heap : Heap} (keyed : heap.WellKeyed) {left right : Value} :
    heap.same left right = true ↔ heap.Bisimilar left right := by
  constructor
  · intro same
    have compared : heap.Compared [] left right true := compared_iff.mpr same.symm
    exact bisimilar_of_matched_to fun depth => matched_to_of_compared keyed compared (by simp)
  · exact same_within_of_bisimilar keyed

/-- On a heap of maps, shared and cyclic containers included, the comparison ends with exactly one
answer, and the answer is whether the values are bisimilar: related by the largest relation that
goes down with its values. So equality by structure is an equivalence. -/
theorem same_decides_bisimilarity {heap : Heap} (keyed : heap.WellKeyed) :
    (∀ left right answer, heap.Compared [] left right answer ↔ answer = heap.same left right) ∧
    (∀ left right, heap.same left right = true ↔ heap.Bisimilar left right) ∧
    heap.IsBisimulation heap.Bisimilar ∧
    (∀ related, heap.IsBisimulation related →
      ∀ left right, related left right → heap.Bisimilar left right) ∧
    Equivalence fun left right => heap.same left right = true := by
  refine ⟨fun _ _ _ => compared_iff, fun _ _ => same_iff keyed, bisimilar_is_bisimulation heap,
    fun _ bisimulation _ _ => bisimilar_of_bisimulation bisimulation, ?_⟩
  constructor
  · intro value
    exact (same_iff keyed).mpr (bisimilar_refl heap value)
  · intro left right same
    exact (same_iff keyed).mpr ((same_iff keyed).mp same).symm
  · intro first second third before after
    exact (same_iff keyed).mpr (((same_iff keyed).mp before).trans ((same_iff keyed).mp after))

/-- An array that holds itself, two arrays that hold each other, and two records that name these in
different orders. -/
def twinCycles : Heap :=
  ⟨#[#[.array 0], #[.array 2], #[.array 1]],
    #[[("a", .array 0), ("b", .number .nan)], [("b", .number .nan), ("a", .array 1)]], #[]⟩

/-- The cycles of length one and two unfold to the same tree, and a record is no array. -/
theorem same_decides_bisimilarity_cyclic :
    twinCycles.Bisimilar (.record 0) (.record 1) ∧ ¬twinCycles.Bisimilar (.record 0) (.array 0) := by
  have keyed : twinCycles.WellKeyed := by decide
  have decides := (same_decides_bisimilarity keyed).2.1
  constructor
  · rw [← decides]
    decide
  · rw [← decides]
    decide

end Heap

end ScriptSandbox
