import ScriptSandbox.Number.Layout
import ScriptSandbox.Number.Literal
import ScriptSandbox.Value.Basic

/-!
Values as text and as numbers. An array is its items joined by commas, with nothing for `null` and
nothing for an array met again inside itself.
-/

namespace ScriptSandbox.Heap

def plainText : Value → String
  | .null => "null"
  | .bool true => "true"
  | .bool false => "false"
  | .number value => value.toText
  | .string value => value
  | .array _ => ""
  | .record _ | .function _ => "[object Object]"

/-- The items of an array joined by commas. The arrays being joined further out are open; with
`room` left for as many arrays as are not, running out of room means the array is open. -/
def joinedWithin (heap : Heap) : Nat → List Nat → Nat → String
  | 0, _, _ => ""
  | room + 1, opened, handle =>
      if opened.contains handle then ""
      else
        ",".intercalate ((heap.items handle).toList.map fun item =>
          match item with
          | .null => ""
          | .array inner => joinedWithin heap room (handle :: opened) inner
          | other => plainText other)

def joined (heap : Heap) (handle : Nat) : String :=
  joinedWithin heap (heap.arrays.size + 1) [] handle

/-- The text a value turns into when it is joined to a text. -/
def textOf (heap : Heap) : Value → String
  | .array handle => heap.joined handle
  | other => plainText other

/-- The number a value turns into. Records and functions have none, an array has that of its
text. -/
def numberOf (heap : Heap) : Value → Number
  | .null => .zero
  | .bool true => .one
  | .bool false => .zero
  | .number value => value
  | .string value => Number.ofText value
  | .array handle => Number.ofText (heap.joined handle)
  | .record _ | .function _ => .nan

end ScriptSandbox.Heap
