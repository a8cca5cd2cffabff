import ScriptSandbox.Text.Blank

/-!
Program text cut into the texts of its statements. A semicolon or a line end closes a statement
only outside braces, so the body of a block stays with its statement; a closing brace too many
leaves the depth at zero.
-/

namespace ScriptSandbox.Statement

open ScriptSandbox.Text

def isTerminator (c : Char) : Bool :=
  c == ';' || c == '\n' || c == '\r'

def braceDepth (depth : Nat) (c : Char) : Nat :=
  if c = '\x7b' then depth + 1
  else if c = '\x7d' then depth - 1
  else depth

/-- A cut in progress: the finished statements and the characters of the open one, both newest
first. -/
structure Cutting where
  depth : Nat
  openPiece : List Char
  pieces : List (List Char)

namespace Cutting

/-- Closes the open piece; a blank one leaves nothing. -/
def close (cutting : Cutting) : Cutting :=
  let piece := trim cutting.openPiece.reverse
  { cutting with
    openPiece := []
    pieces := if piece.isEmpty then cutting.pieces else piece :: cutting.pieces }

def step (cutting : Cutting) (c : Char) : Cutting :=
  if isTerminator c && cutting.depth == 0 then cutting.close
  else
    { cutting with
      depth := braceDepth cutting.depth c
      openPiece := c :: cutting.openPiece }

end Cutting

/-- The trimmed texts of the statements of a program, in order and none empty. -/
def pieces (source : List Char) : List (List Char) :=
  (source.foldl Cutting.step ⟨0, [], []⟩).close.pieces.reverse

end ScriptSandbox.Statement
