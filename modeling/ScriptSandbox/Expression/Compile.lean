import ScriptSandbox.Expression.Lexeme
import ScriptSandbox.Expression.Yard
import ScriptSandbox.Machine

/-!
Expressions compiled and evaluated on a machine. A capability is answered while the expression is
compiled and leaves one literal; each of its arguments is one token, evaluated on its own at once.
An argument can itself be a capability only when that one takes no arguments, so answering needs
just two levels.
-/

namespace ScriptSandbox.Machine

/-- How a capability with its argument tokens is answered on a line. -/
abbrev Answerer := Capability → List String → Nat → Machine → Except Fault Value × Machine

/-- Compiles the tokens behind what the yard already holds. -/
def compileWith (answer : Answerer) (line : Nat) (tokens : List String) (yard : Yard)
    (machine : Machine) : Except Fault (List Item) × Machine :=
  match tokens with
  | [] =>
      match yard.finish? with
      | some items => (.ok items, machine)
      | none => (.error (.malformed line .mismatchedParentheses), machine)
  | token :: rest =>
      match Lexeme.ofToken machine.scope token with
      | .error cause => (.error (.malformed line cause), machine)
      | .ok (.scalar value) =>
          compileWith answer line rest (yard.operand (.literal value)) machine
      | .ok (.json json) =>
          let (value, loaded) := machine.load json
          compileWith answer line rest (yard.operand (.literal value)) loaded
      | .ok (.reference name) =>
          compileWith answer line rest (yard.operand (.reference name)) machine
      | .ok (.operator operator) => compileWith answer line rest (yard.operator operator) machine
      | .ok .opening => compileWith answer line rest yard.opening machine
      | .ok .closing =>
          match yard.closing? with
          | some closed => compileWith answer line rest closed machine
          | none => (.error (.malformed line .mismatchedParentheses), machine)
      | .ok (.call capability) =>
          if rest.length < capability.arity then
            (.error (.malformed line (.missingArgument token)), machine)
          else
            match answer capability (rest.take capability.arity) line machine with
            | (.error fault, asked) => (.error fault, asked)
            | (.ok value, asked) =>
                compileWith answer line (rest.drop capability.arity)
                  (yard.operand (.literal value)) asked
termination_by tokens.length
decreasing_by
  all_goals simp only [List.length_cons, List.length_drop]
  all_goals omega

def runItems (line : Nat) (items : List Item) (machine : Machine) :
    Except Fault Value × Machine :=
  match machine with
  | ⟨scope, control, heap, host, startedAt⟩ =>
      let (result, changed) := Code.evaluate scope line items heap
      (result, ⟨scope, control, changed, host, startedAt⟩)

/-- Evaluates tokens as one expression; no tokens evaluate to `null`. -/
def evaluateWith (answer : Answerer) (tokens : List String) (line : Nat) (machine : Machine) :
    Except Fault Value × Machine :=
  match compileWith answer line tokens .empty machine with
  | (.error fault, compiled) => (.error fault, compiled)
  | (.ok [], compiled) => (.ok .null, compiled)
  | (.ok items, compiled) => runItems line items compiled

def answerPlain : Answerer
  | .elapsed, _, _, machine =>
      let (time, read) := machine.elapsed
      (.ok (.number time), read)
  | .width, _, _, machine => (.ok (.number machine.host.width), machine)
  | .height, _, _, machine => (.ok (.number machine.host.height), machine)
  | _, _, _, machine => (.ok .null, machine)

def argument (token : String) (line : Nat) (machine : Machine) : Except Fault Value × Machine :=
  evaluateWith answerPlain [token] line machine

/-- The entry of the store under a key, `null` when there is none. -/
def answerLoad (key : String) (line : Nat) (machine : Machine) : Except Fault Value × Machine :=
  let (found, asked) := machine.host.load key
  let next := { machine with host := asked }
  match found with
  | .error cause => (.error (.refused line (.load key cause)), next)
  | .ok none => (.ok .null, next)
  | .ok (some json) =>
      let (value, loaded) := next.load json
      (.ok value, loaded)

def bareUrl (url : String) : String :=
  if 2 ≤ url.length && Lexeme.isBetween '"' '"' url.toList then
    String.ofList (Lexeme.inner url.toList)
  else url

/-- The response of the network for a URL, as a record. -/
def answerFetch (url : String) (line : Nat) (machine : Machine) : Except Fault Value × Machine :=
  let (found, asked) := machine.host.request url
  let next := { machine with host := asked }
  match found with
  | none => (.error (.refused line (.fetch url)), next)
  | some response =>
      let (value, loaded) := next.load response.toJson
      (.ok value, loaded)

/-- A random number from `least` on, below one more than `greatest`. -/
def answerRandom (least greatest : Value) (machine : Machine) : Value × Machine :=
  let span := machine.heap.numberOf greatest - machine.heap.numberOf least + Number.one
  let (draw, drawn) := machine.host.draw
  (Operator.plus.apply machine.heap (.number (draw * span)) least, { machine with host := drawn })

def answerAll : Answerer
  | .load, [key], line, machine =>
      match argument key line machine with
      | (.error fault, read) => (.error fault, read)
      | (.ok value, read) => answerLoad (read.heap.textOf value) line read
  | .fetch, [url], line, machine =>
      match argument url line machine with
      | (.error fault, read) => (.error fault, read)
      | (.ok value, read) => answerFetch (bareUrl (read.heap.textOf value)) line read
  | .round, [number], line, machine =>
      match argument number line machine with
      | (.error fault, read) => (.error fault, read)
      | (.ok value, read) => (.ok (.number (read.heap.numberOf value).round), read)
  | .random, [least, greatest], line, machine =>
      match argument least line machine with
      | (.error fault, read) => (.error fault, read)
      | (.ok first, read) =>
          match argument greatest line read with
          | (.error fault, both) => (.error fault, both)
          | (.ok second, both) =>
              let (value, drawn) := answerRandom first second both
              (.ok value, drawn)
  | capability, arguments, line, machine => answerPlain capability arguments line machine

/-- Compiles tokens into items with the operators after their operands. -/
def compile (tokens : List String) (line : Nat) (machine : Machine) :
    Except Fault (List Item) × Machine :=
  compileWith answerAll line tokens .empty machine

def evaluate (tokens : List String) (line : Nat) (machine : Machine) :
    Except Fault Value × Machine :=
  evaluateWith answerAll tokens line machine

end ScriptSandbox.Machine
