import Mathlib.Order.Compare
import ScriptSandbox.Expression.Binary

/-!
Loose equality and order fit together. Order turns around with its operands, equality does not see
their order, and two values are equal exactly when neither comes first, except that `null` equals only
itself and a handle no other handle. That rests on texts being the same when their code units are.
-/

namespace ScriptSandbox

namespace Text

theorem compare_units_swap (left right : List Nat) :
    compareUnits left right = (compareUnits right left).swap := by
  induction left generalizing right with
  | nil => cases right <;> rfl
  | cons first lefts ih =>
      cases right with
      | nil => rfl
      | cons second rights =>
          simp only [compareUnits]
          rcases Nat.lt_trichotomy first second with less | same | greater
          · simp [less, Nat.lt_asymm less]
          · simp [same, ih rights]
          · simp [greater, Nat.lt_asymm greater]

theorem compare_units_eq_iff {left right : List Nat} :
    compareUnits left right = .eq ↔ left = right := by
  induction left generalizing right with
  | nil => cases right <;> simp [compareUnits]
  | cons first lefts ih =>
      cases right with
      | nil => simp [compareUnits]
      | cons second rights =>
          simp only [compareUnits]
          rcases Nat.lt_trichotomy first second with less | same | greater
          · simp [less, Nat.ne_of_lt less]
          · simp [same, ih]
          · simp [greater, Nat.lt_asymm greater, Nat.ne_of_gt greater]

/-- A character is never the first half of a surrogate pair, so the units of a text say where each of
its characters ends. -/
theorem char_units_append_inj {c other : Char} {rest others : List Nat}
    (same : charUnits c ++ rest = charUnits other ++ others) : c = other ∧ rest = others := by
  have valid (character : Char) : character.toNat < 0xD800 ∨
      0xDFFF < character.toNat ∧ character.toNat < 0x110000 := character.valid
  have first := valid c
  have second := valid other
  unfold charUnits at same
  dsimp only at same
  by_cases short : c.toNat < 0x10000
  · by_cases shortToo : other.toNat < 0x10000
    · rw [if_pos short, if_pos shortToo] at same
      simp only [List.cons_append, List.nil_append, List.cons.injEq] at same
      exact ⟨Char.toNat_inj.mp same.1, same.2⟩
    · rw [if_pos short, if_neg shortToo] at same
      simp only [List.cons_append, List.nil_append, List.cons.injEq] at same
      omega
  · by_cases shortToo : other.toNat < 0x10000
    · rw [if_neg short, if_pos shortToo] at same
      simp only [List.cons_append, List.nil_append, List.cons.injEq] at same
      omega
    · rw [if_neg short, if_neg shortToo] at same
      simp only [List.cons_append, List.nil_append, List.cons.injEq] at same
      refine ⟨Char.toNat_inj.mp ?_, same.2.2⟩
      omega

theorem units_inj {left right : String} : units left = units right ↔ left = right := by
  have characters : ∀ lefts rights : List Char,
      lefts.flatMap charUnits = rights.flatMap charUnits → lefts = rights := by
    have some (c : Char) : charUnits c ≠ [] := by
      unfold charUnits
      dsimp only
      split <;> simp
    intro lefts
    induction lefts with
    | nil =>
        intro rights same
        cases rights with
        | nil => rfl
        | cons c rest => simp [some c] at same
    | cons c rest ih =>
        intro rights same
        cases rights with
        | nil => simp [some c] at same
        | cons other others =>
            rw [List.flatMap_cons, List.flatMap_cons] at same
            rcases char_units_append_inj same with ⟨head, tail⟩
            rw [head, ih others tail]
  constructor
  · intro same
    exact String.toList_injective (characters left.toList right.toList same)
  · exact congrArg units

theorem compare_text_swap (left right : String) :
    compareText left right = (compareText right left).swap :=
  compare_units_swap (units left) (units right)

theorem compare_text_eq_iff {left right : String} : compareText left right = .eq ↔ left = right := by
  rw [compareText, compare_units_eq_iff, units_inj]

end Text

namespace Number

theorem compare_swap (left right : Number) :
    left.compare? right = (right.compare? left).map Ordering.swap := by
  unfold compare?
  cases left.place? with
  | none => cases right.place? <;> rfl
  | some first =>
      cases right.place? with
      | none => rfl
      | some second => simp [Int.compare_swap]

theorem equals_iff_compare {left right : Number} :
    left.equals right = true ↔ left.compare? right = some .eq := by
  simp [equals]

end Number

namespace Heap

section

variable (heap : Heap) (left right : Value)

/-- Two values are compared as texts, or one of them stands for no text and they are compared as
numbers; equality of scalars goes along with order. -/
theorem compared_as :
    (∃ first second, heap.scalar left = .string first ∧ heap.scalar right = .string second ∧
      heap.order? left right = some (Text.compareText first second) ∧
      heap.scalarsEqual (heap.scalar left) (heap.scalar right) = (first == second)) ∨
    ((∀ first second, heap.scalar left = .string first → heap.scalar right ≠ .string second) ∧
      heap.order? left right =
        (heap.numberOf (heap.scalar left)).compare? (heap.numberOf (heap.scalar right)) ∧
      heap.scalarsEqual (heap.scalar left) (heap.scalar right) =
        (heap.numberOf (heap.scalar left)).equals (heap.numberOf (heap.scalar right))) := by
  unfold order? scalarsEqual
  split
  · next first second isText isTextToo =>
      rw [isText, isTextToo]
      exact .inl ⟨first, second, rfl, rfl, rfl, rfl⟩
  · next texts =>
      refine .inr ⟨fun first second isText isTextToo => texts first second isText isTextToo, rfl, ?_⟩
      rfl

/-- Turning the operands around turns the order around. -/
theorem order_swap : heap.order? left right = (heap.order? right left).map Ordering.swap := by
  rcases heap.compared_as left right with
    ⟨first, second, isText, isTextToo, order, -⟩ | ⟨texts, order, -⟩
  · rcases heap.compared_as right left with
      ⟨third, fourth, sameToo, same, back, -⟩ | ⟨none, -, -⟩
    · rw [isText] at same
      rw [isTextToo] at sameToo
      cases same
      cases sameToo
      rw [order, back, Text.compare_text_swap]
      rfl
    · exact absurd isText (none second first isTextToo)
  · rcases heap.compared_as right left with ⟨second, first, isTextToo, isText, -, -⟩ | ⟨-, back, -⟩
    · exact absurd isTextToo (texts first second isText)
    · rw [order, back, Number.compare_swap]

theorem scalars_equal_iff :
    heap.scalarsEqual (heap.scalar left) (heap.scalar right) = true ↔
      heap.order? left right = some .eq := by
  rcases heap.compared_as left right with
    ⟨first, second, -, -, order, equal⟩ | ⟨-, order, equal⟩
  · rw [order, equal, beq_iff_eq, Option.some.injEq, Text.compare_text_eq_iff]
  · rw [order, equal, Number.equals_iff_compare]

theorem order_refl_of_handle {value : Value} (handle : value.isHandle = true) :
    heap.order? value value = some .eq := by
  simp only [order?, scalar, handle, if_true]
  rw [Text.compare_text_eq_iff.mpr rfl]

/-- Values are loosely equal exactly when neither comes first, with `null` beside nothing else and a
handle beside no other handle. -/
theorem loosely_equal_iff :
    heap.looselyEqual left right = true ↔
      heap.order? left right = some .eq ∧ (left = .null ↔ right = .null) ∧
        (left.isHandle = true → right.isHandle = true → left = right) := by
  unfold looselyEqual
  split
  · simp [order?, scalar, Value.isHandle, numberOf]
    decide
  · next other => simpa using fun _ isNull => absurd isNull other
  · next other => simpa using fun _ isNull => absurd isNull other
  · next filled filledToo _ =>
      have nulls : left = .null ↔ right = .null := iff_of_false filled filledToo
      split
      · next handles =>
          rw [Bool.and_eq_true] at handles
          rw [beq_iff_eq]
          constructor
          · intro same
            refine ⟨?_, nulls, fun _ _ => same⟩
            rw [← same]
            exact heap.order_refl_of_handle handles.1
          · intro equal
            exact equal.2.2 handles.1 handles.2
      · next handles =>
          rw [Bool.and_eq_true, not_and] at handles
          rw [scalars_equal_iff]
          constructor
          · intro order
            exact ⟨order, nulls, fun first second => absurd second (handles first)⟩
          · exact And.left

/-- Loose equality does not see which operand comes first. -/
theorem loosely_equal_comm : heap.looselyEqual left right = heap.looselyEqual right left := by
  have eq_swap : heap.order? left right = some .eq ↔ heap.order? right left = some .eq := by
    rw [heap.order_swap left right]
    cases heap.order? right left with
    | none => simp
    | some order => cases order <;> simp
  rw [Bool.eq_iff_iff, loosely_equal_iff, loosely_equal_iff, eq_swap]
  constructor
  · rintro ⟨order, nulls, handles⟩
    exact ⟨order, nulls.symm, fun first second => (handles second first).symm⟩
  · rintro ⟨order, nulls, handles⟩
    exact ⟨order, nulls.symm, fun first second => (handles second first).symm⟩

end

/-- Loose equality kind by kind: a boolean counts as its number, and beside a scalar a handle counts as
its text. -/
theorem loosely_equal_by_kinds (heap : Heap) (left right : Value) :
    heap.looselyEqual left right =
      match left, right with
      | .null, .null => true
      | .null, _ => false
      | _, .null => false
      | .number left, .number right => left.equals right
      | .string left, .string right => left == right
      | .bool left, .bool right => left == right
      | .number left, .string right => left.equals (Number.ofText right)
      | .string left, .number right => (Number.ofText left).equals right
      | .bool left, right => heap.looselyEqual (.number (heap.numberOf (.bool left))) right
      | left, .bool right => heap.looselyEqual left (.number (heap.numberOf (.bool right)))
      | .array left, .array right => left == right
      | .record left, .record right => left == right
      | .function left, .function right => left == right
      | left, right =>
          if left.isHandle && !right.isHandle then
            heap.looselyEqual (.string (heap.textOf left)) right
          else if right.isHandle && !left.isHandle then
            heap.looselyEqual left (.string (heap.textOf right))
          else false := by
  cases left with
  | null => cases right <;> rfl
  | bool left =>
      cases right with
      | bool right =>
          have numbers : Number.zero.equals .zero = true ∧ Number.zero.equals .one = false ∧
              Number.one.equals .zero = false ∧ Number.one.equals .one = true := by
            decide +kernel
          show (heap.numberOf (.bool left)).equals (heap.numberOf (.bool right)) = (left == right)
          cases left <;> cases right <;> simp [numberOf, numbers]
      | _ => rfl
  | number left => cases right <;> rfl
  | string left => cases right <;> rfl
  | array left =>
      cases right with
      | array right => simp [looselyEqual, Value.isHandle, Bool.beq_eq_decide_eq]
      | _ => rfl
  | record left =>
      cases right with
      | record right => simp [looselyEqual, Value.isHandle, Bool.beq_eq_decide_eq]
      | _ => rfl
  | function left =>
      cases right with
      | function right => simp [looselyEqual, Value.isHandle, Bool.beq_eq_decide_eq]
      | _ => rfl

/-- Equality and order of any two values cohere, and so do the operators made of them: equal values
are at most and at least each other and neither is less or greater, and each comparison is the opposite
one with its operands turned around. -/
theorem comparisons_cohere (heap : Heap) (left right : Value) :
    heap.order? left right = (heap.order? right left).map Ordering.swap ∧
      heap.looselyEqual left right = heap.looselyEqual right left ∧
      (heap.looselyEqual left right = true ↔
        heap.order? left right = some .eq ∧ (left = .null ↔ right = .null) ∧
          (left.isHandle = true → right.isHandle = true → left = right)) ∧
      (Operator.equal.apply heap left right = .bool true →
        Operator.atMost.apply heap left right = .bool true ∧
          Operator.atLeast.apply heap left right = .bool true ∧
          Operator.less.apply heap left right = .bool false ∧
          Operator.greater.apply heap left right = .bool false) ∧
      Operator.less.apply heap left right = Operator.greater.apply heap right left ∧
      Operator.atMost.apply heap left right = Operator.atLeast.apply heap right left := by
  have order := heap.order_swap left right
  refine ⟨order, heap.loosely_equal_comm left right, heap.loosely_equal_iff left right, ?_, ?_⟩
  · intro equal
    simp only [Operator.apply, Value.bool.injEq, loosely_equal_iff] at equal
    simp [Operator.apply, equal.1]
  · simp only [Operator.apply, order, Value.bool.injEq]
    cases heap.order? right left with
    | none => simp
    | some back => cases back <;> simp

/-- An array of one text is equal to that text, so it is at most and at least it. -/
theorem comparisons_cohere_singleton :
    let heap : Heap := ⟨#[#[.string "a"]], #[], #[]⟩
    Operator.equal.apply heap (.array 0) (.string "a") = .bool true ∧
      Operator.atMost.apply heap (.array 0) (.string "a") = .bool true ∧
      Operator.atLeast.apply heap (.array 0) (.string "a") = .bool true ∧
      Operator.less.apply heap (.array 0) (.string "a") = .bool false ∧
      Operator.greater.apply heap (.array 0) (.string "a") = .bool false := by
  intro heap
  have equal : Operator.equal.apply heap (.array 0) (.string "a") = .bool true := by decide
  exact ⟨equal, (comparisons_cohere heap (.array 0) (.string "a")).2.2.2.1 equal⟩

end Heap

end ScriptSandbox
