import ScriptSandbox.Json.ReadNumber
import ScriptSandbox.Json.ReadString

/-!
JSON text read into values. Only the four blanks of the format are skipped, containers may be
nested 127 deep, and a repeated key keeps its first place and takes its last value.
-/

namespace ScriptSandbox.Json

def isJsonBlank (c : Char) : Bool :=
  c == ' ' || c == '\n' || c == '\t' || c == '\r'

def skipBlanks (text : List Char) : List Char :=
  text.dropWhile isJsonBlank

/-- The rest of a word whose first letter has been read. -/
def readWord (value : Json) : List Char → List Char → Read Json
  | [], text => .ok (value, text)
  | _ :: _, [] => stop .missingValue []
  | letter :: letters, c :: rest =>
      if c = letter then readWord value letters rest else stopPast .expectedWord (c :: rest)

/-- The items of an array from one of them on, after those already read, newest first. Every item
takes a character, so the length of the text bounds their number. -/
def readItems (readItem : List Char → Read Json) :
    Nat → List Json → List Char → Read (List Json)
  | 0, _, text => stop .unclosedList text
  | more + 1, read, text =>
      match readItem text with
      | .error misread => .error misread
      | .ok (item, afterItem) =>
          match skipBlanks afterItem with
          | [] => stop .unclosedList []
          | ']' :: rest => .ok ((item :: read).reverse, rest)
          | ',' :: rest =>
              match skipBlanks rest with
              | [] => stop .missingValue []
              | ']' :: after => stopPast .trailingComma (']' :: after)
              | next => readItems readItem more (item :: read) next
          | other => stopPast .expectedListCommaOrEnd other

/-- An array after its opening bracket. -/
def readArray (readItem : List Char → Read Json) (text : List Char) : Read Json :=
  match skipBlanks text with
  | [] => stop .unclosedList []
  | ']' :: rest => .ok (.array [], rest)
  | start =>
      match readItems readItem start.length [] start with
      | .error misread => .error misread
      | .ok (items, rest) => .ok (.array items, rest)

/-- One field of an object, from its key on. -/
def readField (readItem : List Char → Read Json) (text : List Char) : Read (String × Json) :=
  match text with
  | '"' :: afterQuote =>
      match readString afterQuote with
      | .error misread => .error misread
      | .ok (key, afterKey) =>
          match skipBlanks afterKey with
          | [] => stop .unclosedObject []
          | ':' :: afterColon =>
              match readItem afterColon with
              | .error misread => .error misread
              | .ok (value, rest) => .ok ((key, value), rest)
          | other => stopPast .expectedColon other
  | _ => stopPast .keyNotString text

/-- The fields of an object from one of them on, after those already read, newest first. -/
def readFields (readItem : List Char → Read Json) :
    Nat → List (String × Json) → List Char → Read (List (String × Json))
  | 0, _, text => stop .unclosedObject text
  | more + 1, read, text =>
      match readField readItem text with
      | .error misread => .error misread
      | .ok (pair, afterField) =>
          match skipBlanks afterField with
          | [] => stop .unclosedObject []
          | '\x7d' :: rest => .ok ((pair :: read).reverse, rest)
          | ',' :: rest =>
              match skipBlanks rest with
              | [] => stop .missingValue []
              | '\x7d' :: after => stopPast .trailingComma ('\x7d' :: after)
              | next => readFields readItem more (pair :: read) next
          | other => stopPast .expectedObjectCommaOrEnd other

/-- An object after its opening brace. -/
def readObject (readItem : List Char → Read Json) (text : List Char) : Read Json :=
  match skipBlanks text with
  | [] => stop .unclosedObject []
  | '\x7d' :: rest => .ok (.object [], rest)
  | start =>
      match readFields readItem start.length [] start with
      | .error misread => .error misread
      | .ok (pairs, rest) => .ok (.object (Table.ofPairs pairs), rest)

/-- A value, given how to go on after an opening bracket or brace. -/
def readWith (array object : List Char → Read Json) (text : List Char) : Read Json :=
  match skipBlanks text with
  | [] => stop .missingValue []
  | 'n' :: rest => readWord .null ['u', 'l', 'l'] rest
  | 't' :: rest => readWord (.bool true) ['r', 'u', 'e'] rest
  | 'f' :: rest => readWord (.bool false) ['a', 'l', 's', 'e'] rest
  | '-' :: rest => readUnsigned true rest
  | '"' :: rest =>
      match readString rest with
      | .error misread => .error misread
      | .ok (value, after) => .ok (.string value, after)
  | '[' :: rest => array rest
  | '\x7b' :: rest => object rest
  | c :: rest =>
      if c.isDigit then readUnsigned false (c :: rest) else stopPast .expectedValue (c :: rest)

/-- A value with containers nested at most `room` deep. -/
def readValue : Nat → List Char → Read Json
  | 0 => readWith (stop .nestedTooDeep) (stop .nestedTooDeep)
  | room + 1 => readWith (readArray (readValue room)) (readObject (readValue room))

/-- How deep containers may be nested. -/
def nestingLimit : Nat := 127

/-- Reads a text that holds one value and blanks around it. -/
def parse (text : String) : Except Fault Json :=
  let characters := text.toList
  match readValue nestingLimit characters with
  | .error misread => .error (misread.toFault characters)
  | .ok (value, rest) =>
      match skipBlanks rest with
      | [] => .ok value
      | other => .error ((⟨.trailingCharacters, other, 1⟩ : Misread).toFault characters)

end ScriptSandbox.Json
