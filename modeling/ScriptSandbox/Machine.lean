import ScriptSandbox.Control
import ScriptSandbox.Host.Basic
import ScriptSandbox.Scope
import ScriptSandbox.Value.Snapshot

/-!
The state of a run: the scope in force, the control state, the heap, the host, and the time the run
started.
-/

namespace ScriptSandbox

structure Machine where
  scope : Scope
  control : Control
  heap : Heap
  host : Host
  startedAt : Number

namespace Machine

/-- A machine at the start of a run; it reads the clock once. -/
def start (limit : Nat) (host : Host) : Machine :=
  let (now, read) := host.readClock
  { scope := .empty, control := .start limit, heap := .empty, host := read, startedAt := now }

def isHalted (machine : Machine) : Bool :=
  machine.control.isHalted

/-- The time since the start; it reads the clock. -/
def elapsed (machine : Machine) : Number × Machine :=
  let (now, read) := machine.host.readClock
  (now - machine.startedAt, { machine with host := read })

def record (machine : Machine) (event : Event) : Machine :=
  { machine with host := machine.host.record event }

/-- Halts the run. -/
def halt (machine : Machine) (payload : String) : Machine :=
  { machine with control := machine.control.halt payload }.record (.halt payload)

def enter (machine : Machine) (line : Nat) : Except Fault Unit × Machine :=
  let (entered, control) := machine.control.enter line
  (entered, { machine with control })

def leave (machine : Machine) : Machine :=
  { machine with control := machine.control.leave }

/-- Reports a fault and halts the run. -/
def fail (machine : Machine) (fault : Fault) : Machine :=
  (machine.record (.error fault.message)).halt Control.errorPayload

def setVariable (machine : Machine) (name : String) (value : Value) : Machine :=
  { machine with scope := machine.scope.setVariable name value }

/-- Declares a function in the scope in force. -/
def declare (machine : Machine) (function : Function) : Machine :=
  let (handle, heap) := machine.heap.newFunction function
  { machine with scope := machine.scope.setFunction function.name handle, heap }

/-- The function a name stands for in the scope in force. -/
def function? (machine : Machine) (name : String) : Option Function :=
  (machine.scope.functions.get? name).bind machine.heap.function?

/-- A value made of fresh containers. -/
def load (machine : Machine) (json : Json) : Value × Machine :=
  let (value, heap) := machine.heap.load json
  (value, { machine with heap })

end Machine

end ScriptSandbox
