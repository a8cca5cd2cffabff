import Mathlib.Data.List.DropRight
import ScriptSandbox.Json.Print
import ScriptSandbox.Json.Read
import ScriptSandbox.Proofs.Json.Numbers

/-!
Scalars in JSON text: strings, integers and words read back as they were written, and so do the
floats whose text the reader understands as they were meant.
-/

namespace ScriptSandbox.Json

theorem take_hex_control {code : Nat} (control : code < 0x20) (rest : List Char) :
    takeHex ('0' :: '0' :: Nat.digitChar (code / 16) :: Nat.digitChar (code % 16) :: rest) =
      .ok (code, rest) := by
  have bytes : ∀ code < 0x20, ¬byteCount
      ['0', '0', Nat.digitChar (code / 16), Nat.digitChar (code % 16)] < 4 := by decide
  have value : ∀ code < 0x20, hexValue?
      ['0', '0', Nat.digitChar (code / 16), Nat.digitChar (code % 16)] = some code := by decide
  unfold takeHex
  simp only [List.take_succ_cons, List.take_zero, List.drop_succ_cons, List.drop_zero]
  rw [if_neg (bytes code control), value code control]

theorem take_unicode_control {c : Char} (control : c.toNat < 0x20) (rest : List Char) :
    takeUnicode ('0' :: '0' :: Nat.digitChar (c.toNat / 16) :: Nat.digitChar (c.toNat % 16) :: rest) =
      .ok (c, rest) := by
  unfold takeUnicode
  rw [take_hex_control control]
  dsimp only
  rw [if_neg (by omega), if_neg (by omega), Char.ofNat_toNat]

theorem take_character_escape (c : Char) (rest : List Char) :
    takeCharacter (escape c ++ rest) = .ok (some c, rest) := by
  unfold escape
  split
  · next same => subst same; rfl
  split
  · next same => subst same; rfl
  split
  · next same => subst same; rfl
  split
  · next same => subst same; rfl
  split
  · next same => subst same; rfl
  split
  · next same => subst same; rfl
  split
  · next same => subst same; rfl
  split
  · next control =>
      simp only [List.cons_append, List.nil_append, takeCharacter, takeEscape,
        take_unicode_control control]
  · next quote slash _ _ _ _ _ printable =>
      rw [List.singleton_append]
      unfold takeCharacter
      split
      · next same => cases same
      · next same => cases same; exact absurd rfl quote
      · next same => cases same; exact absurd rfl slash
      · next same =>
          cases same
          rw [if_neg printable]

theorem read_characters_more {read text rest : List Char} {c : Char}
    (taken : takeCharacter text = .ok (some c, rest)) :
    readCharacters read text = readCharacters (c :: read) rest := by
  rw [readCharacters]
  split
  · next failed => rw [taken] at failed; cases failed
  · next ended => rw [taken] at ended; cases ended
  · next other found same =>
      rw [taken] at same
      cases same
      rfl

theorem read_characters_end (read rest : List Char) :
    readCharacters read ('"' :: rest) = .ok (read.reverse, rest) := by
  have taken : takeCharacter ('"' :: rest) = .ok (none, rest) := rfl
  rw [readCharacters]
  split
  · next failed => rw [taken] at failed; cases failed
  · next same =>
      rw [taken] at same
      cases same
      rfl
  · next more => rw [taken] at more; cases more

theorem read_characters_escaped (text read rest : List Char) :
    readCharacters read (text.flatMap escape ++ '"' :: rest) = .ok (read.reverse ++ text, rest) := by
  induction text generalizing read with
  | nil => simpa using read_characters_end read rest
  | cons c text ih =>
      rw [List.flatMap_cons, List.append_assoc, read_characters_more (take_character_escape c _), ih,
        List.reverse_cons, List.append_assoc, List.singleton_append]

theorem read_string_quoted (text : String) (rest : List Char) :
    ∃ inner, quoted text ++ rest = '"' :: inner ∧ readString inner = .ok (text, rest) := by
  refine ⟨text.toList.flatMap escape ++ '"' :: rest, ?_, ?_⟩
  · simp [quoted]
  · rw [readString, read_characters_escaped]
    simp

/-- The text of a number, read to its end, gives the number back. -/
def ReadsBack (number : Number) : Prop :=
  readValue 0 (floatText number) = .ok (.float number, [])

/-- The float that a text stands for as a whole. -/
def wholeFloat? (text : List Char) : Option Number :=
  match readValue 0 text with
  | .ok (.float number, []) => some number
  | _ => none

theorem whole_float_iff {text : List Char} {number : Number} :
    wholeFloat? text = some number ↔ readValue 0 text = .ok (.float number, []) := by
  unfold wholeFloat?
  constructor
  · intro found
    split at found
    · next read =>
        cases found
        exact read
    · cases found
  · intro read
    rw [read]

instance (number : Number) : Decidable (ReadsBack number) :=
  decidable_of_iff (wholeFloat? (floatText number) = some number) whole_float_iff

theorem skip_blanks_self {c : Char} {text : List Char} (solid : isJsonBlank c = false) :
    skipBlanks (c :: text) = c :: text := by
  simp [skipBlanks, solid]

theorem skip_blanks_again (text : List Char) : skipBlanks (skipBlanks text) = skipBlanks text :=
  List.dropWhile_idempotent isJsonBlank text

theorem skip_blanks_line (level : Nat) (text : List Char) :
    skipBlanks (lineAt level ++ text) = skipBlanks text := by
  apply List.dropWhile_append_of_pos
  intro c member
  rcases List.mem_cons.mp member with rfl | blank
  · rfl
  · rw [List.eq_of_mem_replicate blank]
    rfl

theorem skip_blanks_append {text : List Char} (present : skipBlanks text ≠ []) (rest : List Char) :
    skipBlanks (text ++ rest) = skipBlanks text ++ rest := by
  unfold skipBlanks at present ⊢
  rw [List.dropWhile_append, if_neg (by simpa using present)]

theorem length_skip_blanks {c : Char} (text rest : List Char) (solid : isJsonBlank c = false) :
    rest.length < (skipBlanks (text ++ c :: rest)).length := by
  induction text with
  | nil => simp [skip_blanks_self solid]
  | cons first text ih =>
      by_cases blank : isJsonBlank first = true
      · simpa [skipBlanks, blank] using ih
      · simp [skipBlanks, blank]
        omega

/-- How a value starts after its blanks: nothing closes there. -/
theorem read_with_starts {array object : List Char → Read Json} {text left : List Char} {json : Json}
    (read : readWith array object text = .ok (json, left)) :
    ∃ c tail, skipBlanks text = c :: tail ∧ c ≠ ']' ∧ c ≠ '\x7d' := by
  unfold readWith at read
  cases skipped : skipBlanks text with
  | nil =>
      rw [skipped] at read
      cases read
  | cons c tail =>
      refine ⟨c, tail, rfl, ?_, ?_⟩
      · rintro rfl
        rw [skipped] at read
        cases read
      · rintro rfl
        rw [skipped] at read
        cases read

theorem read_with_skip (array object : List Char → Read Json) (text : List Char) :
    readWith array object (skipBlanks text) = readWith array object text := by
  unfold readWith
  rw [skip_blanks_again]

theorem read_value_with (room : Nat) : ∃ array object, readValue room = readWith array object := by
  cases room with
  | zero => exact ⟨_, _, rfl⟩
  | succ room => exact ⟨_, _, rfl⟩

theorem digit_solid {c : Char} (digit : c.isDigit = true) : isJsonBlank c = false := by
  cases blank : isJsonBlank c with
  | false => rfl
  | true =>
      simp only [isJsonBlank, Bool.or_eq_true, beq_iff_eq] at blank
      rcases blank with ((rfl | rfl) | rfl) | rfl <;> cases digit

section

variable {array object : List Char → Read Json}

theorem read_with_digit {c : Char} (text : List Char) (digit : c.isDigit = true) :
    readWith array object (c :: text) = readUnsigned false (c :: text) := by
  unfold readWith
  rw [skip_blanks_self (digit_solid digit)]
  split
  case h_1 same => cases same
  case h_9 same =>
    cases same
    rw [if_pos digit]
  all_goals
    next same =>
      cases same
      cases digit

theorem read_with_minus (text : List Char) :
    readWith array object ('-' :: text) = readUnsigned true text :=
  rfl

theorem read_with_integer {value : Int} {rest : List Char} (inWord : InWord value)
    (ends : EndsNumber rest) :
    readWith array object (integerText value ++ rest) = .ok (.integer value, rest) := by
  obtain ⟨least, greatest⟩ := inWord
  have small : twoTo 63 ≤ wordLimit := by decide
  unfold integerText
  split
  · next negative =>
      have fits : value.natAbs ≤ twoTo 63 := by omega
      have word : ofWord true value.natAbs = .integer value := by
        rw [ofWord, if_pos rfl, if_neg (by omega)]
        congr 1
        omega
      rw [List.cons_append, read_with_minus,
        read_unsigned_append ends (read_digits true (Nat.le_trans fits small)), word]
  · next natural =>
      have fits : value.natAbs ≤ wordLimit := by omega
      have word : ofWord false value.natAbs = .integer value := by
        rw [ofWord, if_neg (by decide)]
        congr 1
        omega
      have read := read_unsigned_append ends (read_digits false fits)
      obtain ⟨first, more, digits⟩ :=
        List.exists_cons_of_ne_nil (Nat.toDigits_ne_nil : Nat.toDigits 10 value.natAbs ≠ [])
      have digit : first.isDigit = true :=
        Nat.isDigit_of_mem_toDigits (n := value.natAbs) (b := 10) (by decide) (by decide) (by simp [digits])
      rw [digits, List.cons_append] at read ⊢
      rw [read_with_digit _ digit, read, word]

theorem read_with_string (value : String) (rest : List Char) :
    readWith array object (quoted value ++ rest) = .ok (.string value, rest) := by
  obtain ⟨inner, same, found⟩ := read_string_quoted value rest
  rw [same, readWith, skip_blanks_self rfl]
  split
  case h_6 opened =>
    cases opened
    rw [found]
  case h_9 quote _ _ opened =>
    cases opened
    exact absurd rfl quote
  all_goals next opened => simp at opened

theorem read_word_value {value json : Json} {letters text left : List Char}
    (read : readWord value letters text = .ok (json, left)) : json = value := by
  fun_induction readWord value letters text with
  | case1 =>
      cases read
      rfl
  | case2 | case4 => cases read
  | case3 _ _ _ ih => exact ih read

/-- A float is read from a digit or a minus on, so the readers of containers do not matter to it,
and neither does what follows. -/
theorem read_with_float {number : Number} {text rest : List Char}
    (read : readValue 0 text = .ok (.float number, [])) (ends : EndsNumber rest) :
    readWith array object (text ++ rest) = .ok (.float number, rest) := by
  obtain ⟨first, more, skipped, -, -⟩ := read_with_starts read
  have skippedMore : skipBlanks (text ++ rest) = first :: (more ++ rest) := by
    rw [skip_blanks_append (by simp [skipped]), skipped, List.cons_append]
  rw [← read_with_skip, skippedMore]
  unfold readValue readWith at read
  rw [skipped] at read
  split at read
  · cases read
  · cases read_word_value read
  · cases read_word_value read
  · cases read_word_value read
  · next same =>
      cases same
      rw [read_with_minus]
      exact read_unsigned_append ends read
  · split at read <;> cases read
  · cases read
  · cases read
  · next same =>
      cases same
      split at read
      · next digit =>
          rw [read_with_digit _ digit, ← List.cons_append]
          exact read_unsigned_append ends read
      · cases read

end

theorem read_value_skip (room : Nat) (text : List Char) :
    readValue room (skipBlanks text) = readValue room text := by
  obtain ⟨array, object, same⟩ := read_value_with room
  rw [same, read_with_skip]

end ScriptSandbox.Json
