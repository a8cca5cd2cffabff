import ScriptSandbox.Fault
import ScriptSandbox.Statement.Basic
import ScriptSandbox.Statement.Pieces
import ScriptSandbox.Statement.Words

/-!
Program text read into statements. The braces of a block command are found in its raw text, the
first opening one and the last closing one, and what lies between them becomes one argument that is
only read when the block runs.
-/

namespace ScriptSandbox.Statement

open ScriptSandbox.Text

/-- The commands that take a block. -/
def blockCommands : List String := ["if", "loop", "while", "func"]

def firstOpening? (text : List Char) : Option Nat :=
  text.findIdx? (· == '\x7b')

def lastClosing? (text : List Char) : Option Nat :=
  (text.reverse.findIdx? (· == '\x7d')).map fun fromEnd => text.length - 1 - fromEnd

/-- The characters between the braces of a block. When the closing one comes first, both braces
and all between them are taken. -/
def enclosed (text : List Char) (opening closing : Nat) : List Char :=
  if opening < closing then (text.take closing).drop (opening + 1)
  else (text.take (opening + 1)).drop closing

/-- Reads `command head { body }`. -/
def ofBlock (text : List Char) (opening closing line : Nat) : Statement :=
  let head := (blankWords (text.take opening)).map String.ofList
  { command := head.headD ""
    arguments :=
      head.tail ++ [openMark, String.ofList (trim (enclosed text opening closing)), closeMark]
    line }

/-- Reads `command argument ...`. -/
def ofWords (text : List Char) (line : Nat) : Except Fault Statement :=
  match (words text).map String.ofList with
  | command :: arguments => .ok { command, arguments, line }
  | [] => .error (.malformed line .missingCommand)

def ofPiece (text : List Char) (line : Nat) : Except Fault Statement :=
  let first := String.ofList ((blankWords text).headD [])
  if blockCommands.contains first then
    match firstOpening? text, lastClosing? text with
    | some opening, some closing => .ok (ofBlock text opening closing line)
    | _, _ => ofWords text line
  else ofWords text line

/-- Reads statement texts, numbering them from `line`; the first fault stops the reading. -/
def ofPieces (line : Nat) : List (List Char) → Except Fault (List Statement)
  | [] => .ok []
  | piece :: rest =>
      match ofPiece piece line with
      | .error fault => .error fault
      | .ok statement =>
          match ofPieces (line + 1) rest with
          | .error fault => .error fault
          | .ok statements => .ok (statement :: statements)

/-- Reads program text; statements are numbered from 1. -/
def parse (source : String) : Except Fault (List Statement) :=
  ofPieces 1 (pieces source.toList)

end ScriptSandbox.Statement
