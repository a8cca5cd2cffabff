import ScriptSandbox.Json.Misread
import ScriptSandbox.Number.Literal

/-!
Strings in JSON text, from after the opening quote on. Surrogates in escapes must come in pairs.
-/

namespace ScriptSandbox.Json

def hexValue? (digits : List Char) : Option Nat :=
  digits.foldl (fun value? c => value?.bind fun value =>
    (Number.digitValue? 16 c).map fun digit => value * 16 + digit) (some 0)

/-- The four hexadecimal digits of an escape. -/
def takeHex (text : List Char) : Read Nat :=
  if byteCount (text.take 4) < 4 then stop .unclosedString []
  else
    match hexValue? (text.take 4) with
    | some value => .ok (value, text.drop 4)
    | none => .error ⟨.invalidEscape, text, 4⟩

/-- The escape of the trailing half of a surrogate pair. -/
def takeTrailing (text : List Char) : Read Nat :=
  match text with
  | [] => stop .unclosedString []
  | '\\' :: [] => stop .unclosedString []
  | '\\' :: 'u' :: afterMark =>
      match takeHex afterMark with
      | .error misread => .error misread
      | .ok (value, rest) =>
          if value < 0xDC00 ∨ 0xDFFF < value then stop .loneSurrogate rest else .ok (value, rest)
  | '\\' :: afterSlash => stopPast .unpairedSurrogate afterSlash
  | _ => stopPast .unpairedSurrogate text

/-- The character of a `\u` escape, from after its mark on. -/
def takeUnicode (text : List Char) : Read Char :=
  match takeHex text with
  | .error misread => .error misread
  | .ok (leading, rest) =>
      if 0xDC00 ≤ leading ∧ leading ≤ 0xDFFF then stop .loneSurrogate rest
      else if 0xD800 ≤ leading ∧ leading ≤ 0xDBFF then
        match takeTrailing rest with
        | .error misread => .error misread
        | .ok (trailing, afterPair) =>
            .ok (Char.ofNat ((leading - 0xD800) * 0x400 + (trailing - 0xDC00) + 0x10000), afterPair)
      else .ok (Char.ofNat leading, rest)

/-- The character of an escape, from after its backslash on. -/
def takeEscape : List Char → Read Char
  | [] => stop .unclosedString []
  | '"' :: rest => .ok ('"', rest)
  | '\\' :: rest => .ok ('\\', rest)
  | '/' :: rest => .ok ('/', rest)
  | 'b' :: rest => .ok ('\x08', rest)
  | 'f' :: rest => .ok ('\x0c', rest)
  | 'n' :: rest => .ok ('\n', rest)
  | 'r' :: rest => .ok ('\r', rest)
  | 't' :: rest => .ok ('\t', rest)
  | 'u' :: rest => takeUnicode rest
  | text => stopPast .invalidEscape text

/-- The next character of a string, or `none` at its closing quote. -/
def takeCharacter : List Char → Read (Option Char)
  | [] => stop .unclosedString []
  | '"' :: rest => .ok (none, rest)
  | '\\' :: rest =>
      match takeEscape rest with
      | .error misread => .error misread
      | .ok (c, after) => .ok (some c, after)
  | c :: rest => if c.toNat < 0x20 then stop .controlCharacter rest else .ok (some c, rest)

theorem take_hex_le {text rest : List Char} {value : Nat}
    (taken : takeHex text = .ok (value, rest)) : rest.length ≤ text.length := by
  unfold takeHex stop at taken
  split at taken
  · simp at taken
  · split at taken
    · simp only [Except.ok.injEq, Prod.mk.injEq] at taken
      rw [← taken.2]
      simp
    · simp at taken

theorem take_trailing_le {text rest : List Char} {value : Nat}
    (taken : takeTrailing text = .ok (value, rest)) : rest.length ≤ text.length := by
  unfold takeTrailing stop stopPast at taken
  split at taken <;> try simp at taken
  next afterMark =>
    split at taken
    · simp at taken
    · next inner =>
      have shorter := take_hex_le inner
      split at taken
      · simp at taken
      · simp only [Except.ok.injEq, Prod.mk.injEq] at taken
        rw [← taken.2]
        simp only [List.length_cons]
        omega

theorem take_unicode_le {text rest : List Char} {c : Char}
    (taken : takeUnicode text = .ok (c, rest)) : rest.length ≤ text.length := by
  unfold takeUnicode stop at taken
  split at taken
  · simp at taken
  · next leading =>
    have first := take_hex_le leading
    split at taken
    · simp at taken
    · split at taken
      · split at taken
        · simp at taken
        · next trailing =>
          have second := take_trailing_le trailing
          simp only [Except.ok.injEq, Prod.mk.injEq] at taken
          rw [← taken.2]
          omega
      · simp only [Except.ok.injEq, Prod.mk.injEq] at taken
        rw [← taken.2]
        omega

theorem take_escape_le {text rest : List Char} {c : Char}
    (taken : takeEscape text = .ok (c, rest)) : rest.length ≤ text.length := by
  unfold takeEscape stop stopPast at taken
  split at taken
  case h_10 rest' => exact Nat.le_succ_of_le (take_unicode_le taken)
  all_goals simp only [Except.ok.injEq, Prod.mk.injEq, reduceCtorEq] at taken
  all_goals simp [← taken.2]

/-- Every character takes something from the text. -/
theorem take_character_lt {text rest : List Char} {c? : Option Char}
    (taken : takeCharacter text = .ok (c?, rest)) : rest.length < text.length := by
  unfold takeCharacter stop at taken
  split at taken
  · simp at taken
  · simp only [Except.ok.injEq, Prod.mk.injEq] at taken
    simp [← taken.2]
  · split at taken
    · simp at taken
    · next escaped =>
      have shorter := take_escape_le escaped
      simp only [Except.ok.injEq, Prod.mk.injEq] at taken
      rw [← taken.2]
      simp only [List.length_cons]
      omega
  · split at taken
    · simp at taken
    · simp only [Except.ok.injEq, Prod.mk.injEq] at taken
      simp [← taken.2]

/-- The characters of a string up to its closing quote, after those already read, newest first. -/
def readCharacters (read : List Char) (text : List Char) : Read (List Char) :=
  match _ : takeCharacter text with
  | .error misread => .error misread
  | .ok (none, rest) => .ok (read.reverse, rest)
  | .ok (some c, rest) => readCharacters (c :: read) rest
termination_by text.length
decreasing_by exact take_character_lt ‹_›

def readString (text : List Char) : Read String :=
  match readCharacters [] text with
  | .error misread => .error misread
  | .ok (characters, rest) => .ok (String.ofList characters, rest)

end ScriptSandbox.Json
