import ScriptSandbox.Number.Arithmetic
import ScriptSandbox.Text.Units
import ScriptSandbox.Value.Text

/-!
Three ways to compare values: by structure, loosely as `==` does, and in order as `<` does.
-/

namespace ScriptSandbox.Heap

/-- Equal numbers, or both NaN. -/
def sameNumber (left right : Number) : Bool :=
  left.equals right || (left.isNaN && right.isNaN)

/-- Equality by structure inside pairs of containers already under comparison, which count as
equal. With `room` left for as many pairs as are not, running out of room means the pair is one of
them. -/
def sameWithin (heap : Heap) : Nat → List (Container × Container) → Value → Value → Bool
  | _, _, .null, .null => true
  | _, _, .bool left, .bool right => left == right
  | _, _, .number left, .number right => sameNumber left right
  | _, _, .string left, .string right => left == right
  | _, _, .function left, .function right => left == right
  | 0, _, .array _, .array _ => true
  | 0, _, .record _, .record _ => true
  | room + 1, opened, .array left, .array right =>
      if left == right || opened.contains (.array left, .array right) then true
      else
        let lefts := (heap.items left).toList
        let rights := (heap.items right).toList
        let inside := (Container.array left, Container.array right) :: opened
        lefts.length == rights.length &&
          (lefts.zip rights).all fun pair => sameWithin heap room inside pair.1 pair.2
  | room + 1, opened, .record left, .record right =>
      if left == right || opened.contains (.record left, .record right) then true
      else
        let lefts := heap.fields left
        let rights := heap.fields right
        let inside := (Container.record left, Container.record right) :: opened
        lefts.length == rights.length &&
          lefts.all fun field =>
            match rights.get? field.1 with
            | some other => sameWithin heap room inside field.2 other
            | none => false
  | _, _, _, _ => false

/-- Equality by structure, cycles included. -/
def same (heap : Heap) (left right : Value) : Bool :=
  sameWithin heap (heap.pairCount + 1) [] left right

/-- The scalar that stands for a value in comparisons: a handle turns into its text. -/
def scalar (heap : Heap) (value : Value) : Value :=
  if value.isHandle then .string (heap.textOf value) else value

/-- Equality of scalars: two texts as texts, everything else as numbers. -/
def scalarsEqual (heap : Heap) (left right : Value) : Bool :=
  match left, right with
  | .string left, .string right => left == right
  | _, _ => (heap.numberOf left).equals (heap.numberOf right)

/-- Loose equality. `null` equals only itself, and of two handles each equals only itself. -/
def looselyEqual (heap : Heap) (left right : Value) : Bool :=
  match left, right with
  | .null, .null => true
  | .null, _ => false
  | _, .null => false
  | _, _ =>
      if left.isHandle && right.isHandle then left == right
      else scalarsEqual heap (heap.scalar left) (heap.scalar right)

/-- Order of values: two texts by UTF-16 units, everything else as numbers; `none` when a NaN takes
part. -/
def order? (heap : Heap) (left right : Value) : Option Ordering :=
  match heap.scalar left, heap.scalar right with
  | .string left, .string right => some (Text.compareText left right)
  | left, right => (heap.numberOf left).compare? (heap.numberOf right)

end ScriptSandbox.Heap
