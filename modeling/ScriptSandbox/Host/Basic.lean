import ScriptSandbox.Host.Store
import ScriptSandbox.Number.Arithmetic

/-!
The host of a run: all that a script can reach outside itself, and the trace of what it asked for.
The clock and the random source are scripts of their own, indexed by how often they were asked.
-/

namespace ScriptSandbox

structure Response where
  status : Nat
  headers : List (String × String)
  body : String

namespace Response

def isSuccess (response : Response) : Bool :=
  200 ≤ response.status && response.status < 300

/-- The record a script gets for a response. -/
def toJson (response : Response) : Json :=
  .object [("status", .integer response.status), ("ok", .bool response.isSuccess),
    ("headers", .object (Table.ofPairs (response.headers.map fun header =>
      (header.1, Json.string header.2)))),
    ("body", .string response.body)]

end Response

/-- One thing that passed between a script and its host; the last one a script causes is its
halt. -/
inductive Event where
  | log (text : String)
  | error (text : String)
  | fillColor (color : String)
  | fillRect (x y width height : Number)
  | request (url : String)
  | load (key : String)
  | save (key : String)
  | readClock
  | draw
  | halt (payload : String)
deriving DecidableEq

/-- The line an event writes, marked when it goes to the error stream. -/
def Event.line? : Event → Option (Bool × String)
  | .log text => some (false, text)
  | .error text => some (true, text)
  | _ => none

structure Host where
  width : Number
  height : Number
  store : Store
  /-- The pages of the network; any other URL cannot be fetched. -/
  network : List (String × Response)
  clock : Nat → Number
  random : Nat → Number
  /-- How often the clock was read. -/
  readings : Nat
  /-- How often a random number was drawn. -/
  draws : Nat
  /-- What happened, in order. -/
  events : Array Event

namespace Host

def record (host : Host) (event : Event) : Host :=
  { host with events := host.events.push event }

def readClock (host : Host) : Number × Host :=
  (host.clock host.readings, { host with readings := host.readings + 1 }.record .readClock)

def draw (host : Host) : Number × Host :=
  (host.random host.draws, { host with draws := host.draws + 1 }.record .draw)

/-- Asks the network for a page; the first one with this URL answers. -/
def request (host : Host) (url : String) : Option Response × Host :=
  ((host.network.find? fun page => page.1 == url).map Prod.snd, host.record (.request url))

def load (host : Host) (key : String) : Except StoreFault (Option Json) × Host :=
  (host.store.get? key, host.record (.load key))

def save (host : Host) (key : String) (value : Json) : Except StoreFault Unit × Host :=
  match host.store.put key value with
  | .error fault => (.error fault, host.record (.save key))
  | .ok store => (.ok (), { host with store }.record (.save key))

/-- The lines written to the log and to the error stream, in order. -/
def outputLines (host : Host) : List (Bool × String) :=
  host.events.toList.filterMap Event.line?

end Host

end ScriptSandbox
