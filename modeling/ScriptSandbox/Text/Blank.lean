/-!
Blank characters and the cuts made at them. The blanks are the characters with the Unicode
property White_Space; neither U+FEFF nor U+200B is one of them.
-/

namespace ScriptSandbox.Text

def isBlank (c : Char) : Bool :=
  let code := c.toNat
  (0x9 ≤ code && code ≤ 0xD) || code == 0x20 || code == 0x85 || code == 0xA0 ||
    code == 0x1680 || (0x2000 ≤ code && code ≤ 0x200A) || code == 0x2028 || code == 0x2029 ||
    code == 0x202F || code == 0x205F || code == 0x3000

def trimStart (text : List Char) : List Char :=
  text.dropWhile isBlank

def trimEnd (text : List Char) : List Char :=
  (text.reverse.dropWhile isBlank).reverse

def trim (text : List Char) : List Char :=
  trimEnd (trimStart text)

/-- One step of a cut: a separator closes the current piece, any other character extends it.
Finished pieces and the characters of the current piece are held newest first. -/
def cutStep (isSeparator : Char → Bool) (state : List (List Char) × List Char) (c : Char) :
    List (List Char) × List Char :=
  if isSeparator c then (state.2.reverse :: state.1, []) else (state.1, c :: state.2)

/-- The pieces between separators, empty ones included. -/
def cut (isSeparator : Char → Bool) (text : List Char) : List (List Char) :=
  let state := text.foldl (cutStep isSeparator) ([], [])
  (state.2.reverse :: state.1).reverse

/-- The non-empty runs between blanks. -/
def blankWords (text : List Char) : List (List Char) :=
  (cut isBlank text).filter (fun piece => !piece.isEmpty)

end ScriptSandbox.Text
