import ScriptSandbox.Json.Print
import ScriptSandbox.Value.Text

/-!
Snapshots: a value copied out of the heap as JSON, and JSON copied into the heap as fresh
containers. A container met again inside itself is written as a mark, a function as `null`.
-/

namespace ScriptSandbox.Heap

def circular : Json := .string "[Circular]"

/-- The snapshot of a value inside the open containers. With `room` left for as many containers as
are not open, running out of room means the container is open. -/
def snapshotWithin (heap : Heap) : Nat → List Container → Value → Json
  | _, _, .null => .null
  | _, _, .bool value => .bool value
  | _, _, .number value => Json.ofNumber value
  | _, _, .string value => .string value
  | _, _, .function _ => .null
  | 0, _, .array _ => circular
  | 0, _, .record _ => circular
  | room + 1, opened, .array handle =>
      if opened.contains (.array handle) then circular
      else
        .array ((heap.items handle).toList.map
          (snapshotWithin heap room (.array handle :: opened)))
  | room + 1, opened, .record handle =>
      if opened.contains (.record handle) then circular
      else
        .object ((heap.fields handle).map fun field =>
          (field.1, snapshotWithin heap room (.record handle :: opened) field.2))

def snapshot (heap : Heap) (value : Value) : Json :=
  snapshotWithin heap (heap.containerCount + 1) [] value

mutual

/-- A value made of fresh containers. -/
def load (heap : Heap) : Json → Value × Heap
  | .null => (.null, heap)
  | .bool value => (.bool value, heap)
  | .integer value => (.number (Number.ofInt value), heap)
  | .float value => (.number value, heap)
  | .string value => (.string value, heap)
  | .array items =>
      let (values, loaded) := loadItems heap items
      loaded.newArray values.toArray
  | .object fields =>
      let (values, loaded) := loadFields heap fields
      loaded.newRecord values

def loadItems (heap : Heap) : List Json → List Value × Heap
  | [] => ([], heap)
  | item :: rest =>
      let (value, loaded) := load heap item
      let (values, final) := loadItems loaded rest
      (value :: values, final)

def loadFields (heap : Heap) : List (String × Json) → List (String × Value) × Heap
  | [] => ([], heap)
  | (key, item) :: rest =>
      let (value, loaded) := load heap item
      let (values, final) := loadFields loaded rest
      ((key, value) :: values, final)

end

/-- The text a value is logged as: strings as they are, arrays and records as JSON. -/
def logText (heap : Heap) : Value → String
  | .array handle => (heap.snapshot (.array handle)).toText
  | .record handle => (heap.snapshot (.record handle)).toText
  | .function handle =>
      "[function " ++ ((heap.function? handle).map Function.name).getD "" ++ "]"
  | other => plainText other

end ScriptSandbox.Heap
