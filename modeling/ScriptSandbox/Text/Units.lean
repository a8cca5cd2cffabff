/-!
The order of texts by their UTF-16 code units. It differs from the order by code point only where
a character beyond U+FFFF meets one from U+E000 on.
-/

namespace ScriptSandbox.Text

/-- The code units of one character: itself, or a surrogate pair beyond U+FFFF. -/
def charUnits (c : Char) : List Nat :=
  let code := c.toNat
  if code < 0x10000 then [code]
  else [0xD800 + (code - 0x10000) / 0x400, 0xDC00 + (code - 0x10000) % 0x400]

def units (text : String) : List Nat :=
  text.toList.flatMap charUnits

/-- Lexicographic order; a proper beginning comes first. -/
def compareUnits : List Nat → List Nat → Ordering
  | [], [] => .eq
  | [], _ :: _ => .lt
  | _ :: _, [] => .gt
  | left :: lefts, right :: rights =>
      if left < right then .lt
      else if right < left then .gt
      else compareUnits lefts rights

def compareText (left right : String) : Ordering :=
  compareUnits (units left) (units right)

end ScriptSandbox.Text
