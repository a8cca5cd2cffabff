import ScriptSandbox.Number.Basic
import ScriptSandbox.Statement.Basic
import ScriptSandbox.Table

/-!
Values and the heap behind them. Scalars are held by the value itself; arrays, records and
functions are handles, so two values with the same handle share one container.
-/

namespace ScriptSandbox

inductive Value where
  | null
  | bool (value : Bool)
  | number (value : Number)
  | string (value : String)
  | array (handle : Nat)
  | record (handle : Nat)
  | function (handle : Nat)
deriving DecidableEq

instance : Inhabited Value := ⟨.null⟩

/-- A declared function: its body is split into statements once, when it is declared. -/
structure Function where
  name : String
  parameters : List String
  body : List Statement
deriving DecidableEq

/-- The containers of a run, each kind numbered from zero. -/
structure Heap where
  arrays : Array (Array Value)
  records : Array (Table Value)
  functions : Array Function

/-- A container, by kind and handle. -/
inductive Container where
  | array (handle : Nat)
  | record (handle : Nat)
deriving DecidableEq

namespace Value

def isHandle : Value → Bool
  | .array _ | .record _ | .function _ => true
  | _ => false

/-- Handles, non-empty strings, `true` and numbers other than zero and NaN count as true. -/
def isTruthy : Value → Bool
  | .null => false
  | .bool value => value
  | .number value => !value.isZero && !value.isNaN
  | .string value => !value.isEmpty
  | .array _ | .record _ | .function _ => true

end Value

namespace Heap

def empty : Heap := ⟨#[], #[], #[]⟩

instance : Inhabited Heap := ⟨empty⟩

/-- The items of an array; a handle that was never given out has none. -/
def items (heap : Heap) (handle : Nat) : Array Value :=
  heap.arrays.getD handle #[]

/-- The fields of a record; a handle that was never given out has none. -/
def fields (heap : Heap) (handle : Nat) : Table Value :=
  heap.records.getD handle []

def function? (heap : Heap) (handle : Nat) : Option Function :=
  heap.functions[handle]?

def newArray (heap : Heap) (items : Array Value) : Value × Heap :=
  (.array heap.arrays.size, { heap with arrays := heap.arrays.push items })

def newRecord (heap : Heap) (fields : Table Value) : Value × Heap :=
  (.record heap.records.size, { heap with records := heap.records.push fields })

/-- A fresh function, different from every other one. -/
def newFunction (heap : Heap) (function : Function) : Nat × Heap :=
  (heap.functions.size, { heap with functions := heap.functions.push function })

def modifyItems (heap : Heap) (handle : Nat) (change : Array Value → Array Value) : Heap :=
  { heap with arrays := heap.arrays.modify handle change }

/-- Fills a record that was made before its fields were known. -/
def fillFields (heap : Heap) (handle : Nat) (fields : Table Value) : Heap :=
  { heap with records := heap.records.modify handle fun _ => fields }

def containerCount (heap : Heap) : Nat :=
  heap.arrays.size + heap.records.size

/-- How many pairs of containers of one kind there are. -/
def pairCount (heap : Heap) : Nat :=
  heap.arrays.size * heap.arrays.size + heap.records.size * heap.records.size

end Heap

end ScriptSandbox
