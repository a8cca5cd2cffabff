import ScriptSandbox.Json.Fault

/-!
Where reading stopped. A reader only knows what is left of the text; the line and the column follow
from the whole text, counted in bytes of UTF-8.
-/

namespace ScriptSandbox.Json

/-- A stop with `extra` bytes of `rest` already looked at. -/
structure Misread where
  reason : Reason
  rest : List Char
  extra : Nat

abbrev Read (Result : Type) := Except Misread (Result × List Char)

def byteCount (text : List Char) : Nat :=
  text.foldl (fun count c => count + c.utf8Size) 0

/-- The line and column reached after some bytes of a text. -/
def locate (line column : Nat) : Nat → List Char → Nat × Nat
  | _, [] => (line, column)
  | bytes, c :: rest =>
      if bytes = 0 then (line, column)
      else if c = '\n' then locate (line + 1) 0 (bytes - 1) rest
      else if bytes ≤ c.utf8Size then (line, column + bytes)
      else locate line (column + c.utf8Size) (bytes - c.utf8Size) rest

def Misread.toFault (text : List Char) (misread : Misread) : Fault :=
  let bytes := byteCount text - byteCount misread.rest + misread.extra
  let (line, column) := locate 1 0 bytes text
  { reason := misread.reason, line, column }

/-- Stops right before the rest of the text. -/
def stop {Result : Type} (reason : Reason) (rest : List Char) : Read Result :=
  .error ⟨reason, rest, 0⟩

/-- Stops after the next byte of the rest, if there is one. -/
def stopPast {Result : Type} (reason : Reason) (rest : List Char) : Read Result :=
  .error ⟨reason, rest, 1⟩

end ScriptSandbox.Json
