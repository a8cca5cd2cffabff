import Mathlib.Data.List.TakeDrop
import Mathlib.Data.List.TakeWhile
import ScriptSandbox.Json.ReadNumber

/-!
Numbers in the middle of a JSON text. A reader takes a number up to the first character that cannot
belong to it, so a number that was read to the end of its text is read in front of other text as
well. The text of an integer reads back as that integer.
-/

namespace ScriptSandbox.Json

/-- No number goes on at the start of the text. -/
structure EndsNumber (rest : List Char) : Prop where
  digit : ∀ c ∈ rest.head?, c.isDigit = false
  point : rest.head? ≠ some '.'
  mark : rest.head?.any isExponentMark = false

theorem ends_number_nil : EndsNumber [] :=
  ⟨by simp, by simp, rfl⟩

theorem ends_number_cons {c : Char} {rest : List Char} (digit : c.isDigit = false)
    (point : c ≠ '.') (mark : isExponentMark c = false) : EndsNumber (c :: rest) :=
  ⟨by simpa using digit, by simpa using point, by simpa using mark⟩

theorem take_digits_append {text digits after rest : List Char}
    (taken : Number.takeDigits text = (digits, after))
    (ends : after = [] → EndsNumber rest) :
    Number.takeDigits (text ++ rest) = (digits, after ++ rest) := by
  unfold Number.takeDigits at taken ⊢
  rw [List.span_eq_takeWhile_dropWhile, Prod.mk.injEq] at taken ⊢
  induction text generalizing digits with
  | nil =>
      obtain ⟨rfl, rfl⟩ := taken
      have first := (ends rfl).digit
      cases rest with
      | nil => exact ⟨rfl, rfl⟩
      | cons c rest =>
          have other : c.isDigit = false := first c rfl
          simp [other]
  | cons c text ih =>
      by_cases digit : c.isDigit = true
      · simp only [List.takeWhile_cons, List.dropWhile_cons, digit, if_true, List.cons_append] at taken ⊢
        obtain ⟨rfl, dropped⟩ := taken
        obtain ⟨takenRest, droppedRest⟩ := ih ⟨rfl, dropped⟩
        exact ⟨by rw [takenRest], droppedRest⟩
      · simp only [List.takeWhile_cons, List.dropWhile_cons, digit, List.cons_append] at taken ⊢
        obtain ⟨rfl, rfl⟩ := taken
        exact ⟨rfl, rfl⟩

theorem read_exponent_digits_append {value exponent : Nat} {text rest : List Char}
    (read : readExponentDigits value text = (some exponent, [])) (ends : EndsNumber rest) :
    readExponentDigits value (text ++ rest) = (some exponent, rest) := by
  fun_induction readExponentDigits value text with
  | case1 value =>
      cases read
      cases rest with
      | nil => rfl
      | cons c rest =>
          have other : c.isDigit = false := ends.digit c rfl
          simp [readExponentDigits, other]
  | case2 | case4 => cases read
  | case3 value c text digit next fits ih =>
      rw [List.cons_append, readExponentDigits, if_pos digit]
      exact (if_neg fits).trans (ih read)

theorem read_exponent_digits_beyond {value : Nat} {text left : List Char} (rest : List Char)
    (read : readExponentDigits value text = (none, left)) :
    readExponentDigits value (text ++ rest) = (none, left ++ rest) := by
  fun_induction readExponentDigits value text with
  | case1 | case4 => cases read
  | case2 value c text digit next beyond =>
      cases read
      rw [List.cons_append, readExponentDigits, if_pos digit]
      exact if_pos beyond
  | case3 value c text digit next fits ih =>
      rw [List.cons_append, readExponentDigits, if_pos digit]
      exact (if_neg fits).trans (ih read)

theorem drop_digits_append {text rest : List Char} (dropped : text.dropWhile Char.isDigit = [])
    (ends : EndsNumber rest) : (text ++ rest).dropWhile Char.isDigit = rest := by
  have digits : ∀ c ∈ text, c.isDigit = true := List.dropWhile_eq_nil_iff.mp dropped
  rw [List.dropWhile_append_of_pos digits]
  cases rest with
  | nil => rfl
  | cons c rest =>
      have other : c.isDigit = false := ends.digit c rfl
      simp [other]

theorem read_scaled_rest {negative : Bool} {word : Nat} {exponent : Int} {json : Json}
    {left after : List Char} (read : readScaled negative word exponent left = .ok (json, after)) :
    after = left ∧ ∀ rest, readScaled negative word exponent rest = .ok (json, rest) := by
  unfold readScaled at read ⊢
  split at read
  · cases read
    exact ⟨rfl, fun _ => rfl⟩
  · cases read

theorem take_sign_append {text digits : List Char} {negative : Bool} (rest : List Char)
    (taken : Number.takeSign text = (negative, digits)) (present : text ≠ []) :
    Number.takeSign (text ++ rest) = (negative, digits ++ rest) := by
  unfold Number.takeSign at taken
  split at taken
  · cases taken
    rfl
  · cases taken
    rfl
  · next plus minus =>
      cases taken
      cases text with
      | nil => exact absurd rfl present
      | cons c text =>
          rw [List.cons_append]
          unfold Number.takeSign
          split
          · next same => cases same; exact absurd rfl (plus _)
          · next same => cases same; exact absurd rfl (minus _)
          · rfl

/-- Digits that may start a number: only a lone zero starts with zero. -/
def StartsNumber (digits : List Char) : Prop :=
  digits ≠ [] ∧ ∀ next more, digits ≠ '0' :: next :: more

/-- The rest of a number whose first digits have been taken. -/
def readLong (negative : Bool) (digits after : List Char) : Read Json :=
  let (word, _, dropped) := gather 0 0 digits
  match after with
  | '.' :: afterPoint => readFraction negative word dropped afterPoint
  | _ =>
      if dropped = 0 ∧ (after.head?.any isExponentMark) = false then
        .ok (ofWord negative word, after)
      else readAfterDigits negative word dropped after

theorem read_unsigned_long {negative : Bool} {text digits after : List Char}
    (taken : Number.takeDigits text = (digits, after)) (starts : StartsNumber digits) :
    readUnsigned negative text = readLong negative digits after := by
  unfold readUnsigned
  rw [taken]
  dsimp only
  split
  · exact absurd rfl starts.1
  · exact absurd rfl (starts.2 _ _)
  · rfl

theorem read_unsigned_cases {negative : Bool} {text digits after left : List Char} {json : Json}
    (taken : Number.takeDigits text = (digits, after))
    (read : readUnsigned negative text = .ok (json, left)) :
    StartsNumber digits ∧ readLong negative digits after = .ok (json, left) := by
  have starts : StartsNumber digits := by
    unfold readUnsigned at read
    rw [taken] at read
    dsimp only at read
    split at read
    · split at read <;> cases read
    · cases read
    · next present lone => exact ⟨present, lone⟩
  rw [read_unsigned_long taken starts] at read
  exact ⟨starts, read⟩

section

variable {negative : Bool} {word : Nat} {json : Json} {rest : List Char} (ends : EndsNumber rest)
include ends

theorem read_exponent_append {exponent : Int} {text : List Char}
    (read : readExponent negative word exponent text = .ok (json, [])) :
    readExponent negative word exponent (text ++ rest) = .ok (json, rest) := by
  cases signed : Number.takeSign text with
  | mk negativeExponent digits =>
      have present : text ≠ [] := by
        rintro rfl
        simp [readExponent, Number.takeSign, stop] at read
      unfold readExponent at read ⊢
      rw [signed] at read
      rw [take_sign_append rest signed present]
      dsimp only at read ⊢
      cases digits with
      | nil => cases read
      | cons first more =>
          dsimp only [List.cons_append] at read ⊢
          split at read
          · next digit =>
              rw [if_pos digit]
              split at read
              · next value left found =>
                  obtain ⟨rfl, scaled⟩ := read_scaled_rest read
                  rw [← List.cons_append, read_exponent_digits_append found ends]
                  exact scaled rest
              · next left found =>
                  rw [← List.cons_append, read_exponent_digits_beyond rest found]
                  dsimp only
                  split at read
                  · cases read
                  · next harmless =>
                      rw [if_neg harmless]
                      simp only [Except.ok.injEq, Prod.mk.injEq] at read ⊢
                      exact ⟨read.1, drop_digits_append read.2 ends⟩
          · cases read

theorem read_after_digits_append {exponent : Int} {text : List Char}
    (read : readAfterDigits negative word exponent text = .ok (json, [])) :
    readAfterDigits negative word exponent (text ++ rest) = .ok (json, rest) := by
  cases text with
  | nil =>
      have scaled := (read_scaled_rest read).2 rest
      cases rest with
      | nil => exact read
      | cons mark rest =>
          have other : isExponentMark mark = false := by simpa using ends.mark
          rw [List.nil_append, readAfterDigits, other]
          exact scaled
  | cons mark text =>
      rw [readAfterDigits] at read
      rw [List.cons_append, readAfterDigits]
      split at read
      · next marked =>
          rw [if_pos marked]
          exact read_exponent_append ends read
      · cases (read_scaled_rest read).1

theorem read_fraction_append {dropped : Nat} {text : List Char}
    (read : readFraction negative word dropped text = .ok (json, [])) :
    readFraction negative word dropped (text ++ rest) = .ok (json, rest) := by
  cases taken : Number.takeDigits text with
  | mk digits after =>
      have takenMore := take_digits_append taken fun _ => ends
      unfold readFraction at read ⊢
      rw [taken] at read
      rw [takenMore]
      dsimp only at read ⊢
      split at read
      · split at read <;> cases read
      · next present =>
          rw [if_neg present]
          exact read_after_digits_append ends read

theorem read_long_append {digits after : List Char}
    (read : readLong negative digits after = .ok (json, [])) :
    readLong negative digits (after ++ rest) = .ok (json, rest) := by
  unfold readLong at read ⊢
  dsimp only at read ⊢
  split at read
  · next afterPoint => exact read_fraction_append ends read
  · next noPoint =>
      split
      · next afterPoint pointed =>
          cases after with
          | nil =>
              rw [List.nil_append] at pointed
              exact absurd (by rw [pointed]; rfl) ends.point
          | cons c after =>
              cases pointed
              exact absurd rfl (noPoint after)
      · split at read
        · next whole =>
            cases read
            rw [List.nil_append, if_pos ⟨whole.1, ends.mark⟩]
        · next fractional =>
            have still : ¬((gather 0 0 digits).2.2 = 0 ∧
                (after ++ rest).head?.any isExponentMark = false) := by
              rintro ⟨fits, unmarked⟩
              refine fractional ⟨fits, ?_⟩
              cases after with
              | nil => rfl
              | cons c after => exact unmarked
            rw [if_neg still]
            exact read_after_digits_append ends read

theorem read_unsigned_append {text : List Char}
    (read : readUnsigned negative text = .ok (json, [])) :
    readUnsigned negative (text ++ rest) = .ok (json, rest) := by
  cases taken : Number.takeDigits text with
  | mk digits after =>
      have takenMore := take_digits_append taken fun _ => ends
      obtain ⟨plain, long⟩ := read_unsigned_cases taken read
      rw [read_unsigned_long takenMore plain]
      exact read_long_append ends long

end

theorem le_of_digit_chars (digits : List Char) (word : Nat) :
    word ≤ Nat.ofDigitChars 10 digits word := by
  induction digits generalizing word with
  | nil => simp
  | cons digit rest ih =>
      rw [Nat.ofDigitChars_cons]
      have later := ih (10 * word + (digit.toNat - '0'.toNat))
      omega

/-- Digits whose value fits the word are gathered into that value. -/
theorem gather_fits {digits : List Char} {word taken : Nat}
    (fits : Nat.ofDigitChars 10 digits word ≤ wordLimit) :
    gather word taken digits = (Nat.ofDigitChars 10 digits word, taken + digits.length, 0) := by
  fun_induction gather word taken digits with
  | case1 word taken => simp
  | case2 word taken digit rest next beyond =>
      rw [Nat.ofDigitChars_cons, Nat.mul_comm] at fits
      have least := le_of_digit_chars rest next
      exact absurd (Nat.lt_of_lt_of_le beyond (Nat.le_trans least fits)) (Nat.lt_irrefl _)
  | case3 word taken digit rest next within ih =>
      rw [Nat.ofDigitChars_cons, Nat.mul_comm] at fits ⊢
      rw [ih fits, List.length_cons, Nat.add_assoc, Nat.add_comm 1]

theorem to_digits_head {value : Nat} (positive : 0 < value) :
    (Nat.toDigits 10 value).head? ≠ some '0' := by
  induction value using Nat.strongRecOn with
  | _ value ih =>
      rw [Nat.toDigits_eq_if (by decide)]
      split
      · next single =>
          have digits : ∀ digit < 10, 0 < digit → Nat.digitChar digit ≠ '0' := by decide
          simpa using digits value single positive
      · next several =>
          have upper := ih (value / 10) (by omega) (by omega)
          obtain ⟨first, more, split⟩ :=
            List.exists_cons_of_ne_nil (Nat.toDigits_ne_nil : Nat.toDigits 10 (value / 10) ≠ [])
          rw [split] at upper ⊢
          exact upper

theorem to_digits_starts (value : Nat) : StartsNumber (Nat.toDigits 10 value) := by
  refine ⟨Nat.toDigits_ne_nil, ?_⟩
  intro next more same
  rcases Nat.eq_zero_or_pos value with rfl | positive
  · cases same
  · exact to_digits_head positive (by rw [same]; rfl)

/-- Integers that the reader keeps as they are. -/
def InWord (value : Int) : Prop :=
  -(twoTo 63 : Int) ≤ value ∧ value ≤ wordLimit

theorem read_digits {value : Nat} (negative : Bool) (fits : value ≤ wordLimit) :
    readUnsigned negative (Nat.toDigits 10 value) = .ok (ofWord negative value, []) := by
  have digits : ∀ c ∈ Nat.toDigits 10 value, c.isDigit = true := fun c member =>
    Nat.isDigit_of_mem_toDigits (by decide) (by decide) member
  have taken : Number.takeDigits (Nat.toDigits 10 value) = (Nat.toDigits 10 value, []) := by
    rw [Number.takeDigits, List.span_eq_takeWhile_dropWhile, List.takeWhile_eq_self_iff.mpr digits,
      List.dropWhile_eq_nil_iff.mpr digits]
  have worth : Nat.ofDigitChars 10 (Nat.toDigits 10 value) 0 = value := Nat.ofDigitChars_ten_toDigits
  rw [read_unsigned_long taken (to_digits_starts value), readLong, gather_fits (by rwa [worth]), worth]
  rfl

theorem gather_le {digits : List Char} {word taken : Nat} (fits : word ≤ wordLimit) :
    (gather word taken digits).1 ≤ wordLimit := by
  fun_induction gather word taken digits with
  | case1 | case2 => exact fits
  | case3 word taken digit rest next within ih => exact ih (Nat.le_of_not_lt within)

/-- A number as it is read: a float, or an integer that fits a word. -/
inductive IsNumber : Json → Prop
  | float (value : Number) : IsNumber (.float value)
  | integer {value : Int} (inWord : InWord value) : IsNumber (.integer value)

section

variable {negative : Bool} {json : Json} {text left : List Char}

theorem read_scaled_number {word : Nat} {exponent : Int}
    (read : readScaled negative word exponent text = .ok (json, left)) : IsNumber json := by
  unfold readScaled at read
  split at read
  · cases read
    exact .float _
  · cases read

theorem read_exponent_number {word : Nat} {exponent : Int}
    (read : readExponent negative word exponent text = .ok (json, left)) : IsNumber json := by
  unfold readExponent at read
  dsimp only at read
  split at read
  · cases read
  · split at read
    · split at read
      · exact read_scaled_number read
      · split at read
        · cases read
        · cases read
          exact .float _
    · cases read

theorem read_after_digits_number {word : Nat} {exponent : Int}
    (read : readAfterDigits negative word exponent text = .ok (json, left)) : IsNumber json := by
  unfold readAfterDigits at read
  split at read
  · split at read
    · exact read_exponent_number read
    · exact read_scaled_number read
  · exact read_scaled_number read

theorem of_word_number {word : Nat} (fits : word ≤ wordLimit) : IsNumber (ofWord negative word) := by
  unfold ofWord
  split
  · split
    · exact .float _
    · next small =>
        refine .integer ⟨?_, ?_⟩
        · omega
        · omega
  · refine .integer ⟨?_, ?_⟩
    · omega
    · omega

theorem read_unsigned_number (read : readUnsigned negative text = .ok (json, left)) :
    IsNumber json := by
  cases taken : Number.takeDigits text with
  | mk digits after =>
      have long := (read_unsigned_cases taken read).2
      unfold readLong at long
      dsimp only at long
      split at long
      · unfold readFraction at long
        dsimp only at long
        split at long
        · split at long <;> cases long
        · exact read_after_digits_number long
      · split at long
        · cases long
          exact of_word_number (gather_le (Nat.zero_le _))
        · exact read_after_digits_number long

end

end ScriptSandbox.Json
