import ScriptSandbox.Json.Basic

/-!
JSON values written out, on one line or indented by two blanks a level. Empty containers stay on
one line in both.
-/

namespace ScriptSandbox.Json

/-- A character of a string; only quotes, backslashes and control characters are escaped. -/
def escape (c : Char) : List Char :=
  if c = '"' then ['\\', '"']
  else if c = '\\' then ['\\', '\\']
  else if c = '\x08' then ['\\', 'b']
  else if c = '\x0c' then ['\\', 'f']
  else if c = '\n' then ['\\', 'n']
  else if c = '\r' then ['\\', 'r']
  else if c = '\t' then ['\\', 't']
  else if c.toNat < 0x20 then
    ['\\', 'u', '0', '0', Nat.digitChar (c.toNat / 16), Nat.digitChar (c.toNat % 16)]
  else [c]

def quoted (text : String) : List Char :=
  '"' :: (text.toList.flatMap escape ++ ['"'])

mutual

/-- The text of a value on one line, without blanks. -/
def compact : Json → List Char
  | .null => ['n', 'u', 'l', 'l']
  | .bool true => ['t', 'r', 'u', 'e']
  | .bool false => ['f', 'a', 'l', 's', 'e']
  | .integer value => integerText value
  | .float value => floatText value
  | .string value => quoted value
  | .array items => '[' :: (compactItems items ++ [']'])
  | .object fields => '\x7b' :: (compactFields fields ++ ['\x7d'])

def compactItems : List Json → List Char
  | [] => []
  | [item] => compact item
  | item :: rest => compact item ++ ',' :: compactItems rest

def compactFields : List (String × Json) → List Char
  | [] => []
  | [(key, value)] => quoted key ++ ':' :: compact value
  | (key, value) :: rest => quoted key ++ ':' :: (compact value ++ ',' :: compactFields rest)

end

/-- A new line at a level of nesting. -/
def lineAt (level : Nat) : List Char :=
  '\n' :: List.replicate (2 * level) ' '

mutual

/-- The text of a value with one item or field a line, for a value that starts at a level. -/
def indented (level : Nat) : Json → List Char
  | .array [] => ['[', ']']
  | .array items => '[' :: (indentedItems (level + 1) items ++ lineAt level ++ [']'])
  | .object [] => ['\x7b', '\x7d']
  | .object fields => '\x7b' :: (indentedFields (level + 1) fields ++ lineAt level ++ ['\x7d'])
  | .null => ['n', 'u', 'l', 'l']
  | .bool true => ['t', 'r', 'u', 'e']
  | .bool false => ['f', 'a', 'l', 's', 'e']
  | .integer value => integerText value
  | .float value => floatText value
  | .string value => quoted value

def indentedItems (level : Nat) : List Json → List Char
  | [] => []
  | [item] => lineAt level ++ indented level item
  | item :: rest => lineAt level ++ indented level item ++ ',' :: indentedItems level rest

def indentedFields (level : Nat) : List (String × Json) → List Char
  | [] => []
  | [(key, value)] => lineAt level ++ quoted key ++ ':' :: ' ' :: indented level value
  | (key, value) :: rest =>
      lineAt level ++ quoted key ++
        ':' :: ' ' :: (indented level value ++ ',' :: indentedFields level rest)

end

def toText (json : Json) : String :=
  String.ofList (compact json)

def toIndentedText (json : Json) : String :=
  String.ofList (indented 0 json)

end ScriptSandbox.Json
