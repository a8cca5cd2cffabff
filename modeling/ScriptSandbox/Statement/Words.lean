import ScriptSandbox.Text.Blank

/-!
A statement cut into words. A word is a run of non-blank characters in which every quote opens a
group that reaches to the next quote, blanks included; the quotes stay in the word. A quote without
a partner is skipped.
-/

namespace ScriptSandbox.Statement

open ScriptSandbox.Text

def isQuote (c : Char) : Bool :=
  c == '"'

def isPlain (c : Char) : Bool :=
  !isQuote c && !isBlank c

/-- The first quoted group of the word at the start of a text: the plain characters before it, what
it holds, and what follows it. -/
def takeGroup? (text : List Char) : Option (List Char × List Char × List Char) :=
  match text.dropWhile isPlain with
  | '"' :: afterQuote =>
      match afterQuote.dropWhile (fun c => !isQuote c) with
      | _ :: after => some (text.takeWhile isPlain, afterQuote.takeWhile (fun c => !isQuote c), after)
      | [] => none
  | _ => none

theorem take_group_shorter {text before inside after : List Char}
    (found : takeGroup? text = some (before, inside, after)) : after.length < text.length := by
  unfold takeGroup? at found
  have outer := (List.dropWhile_sublist isPlain (l := text)).length_le
  split at found
  · next afterQuote opened =>
    have inner := (List.dropWhile_sublist (fun c => !isQuote c) (l := afterQuote)).length_le
    split at found
    · next closed =>
      simp only [Option.some.injEq, Prod.mk.injEq] at found
      rw [opened] at outer
      rw [closed] at inner
      obtain ⟨_, _, rfl⟩ := found
      simp only [List.length_cons] at outer inner
      omega
    · simp at found
  · simp at found

/-- The word at the start of a text, empty before a blank or a quote without a partner, and what
follows it. -/
def takeWord (text : List Char) : List Char × List Char :=
  match _ : takeGroup? text with
  | some (before, inside, after) =>
      let (more, rest) := takeWord after
      (before ++ '"' :: (inside ++ '"' :: more), rest)
  | none => (text.takeWhile isPlain, text.dropWhile isPlain)
termination_by text.length
decreasing_by exact take_group_shorter ‹_›

theorem take_word_rest_le (text : List Char) : (takeWord text).2.length ≤ text.length := by
  fun_induction takeWord text with
  | case1 text before inside after found more rest split ih =>
      have := take_group_shorter found
      simp only [split] at ih
      simp only
      omega
  | case2 text found => exact (List.dropWhile_sublist isPlain).length_le

/-- A word that holds something takes something. -/
theorem take_word_rest_lt (text : List Char) (holds : (takeWord text).1 ≠ []) :
    (takeWord text).2.length < text.length := by
  fun_induction takeWord text with
  | case1 text before inside after found more rest split ih =>
      have shorter := take_group_shorter found
      have rests := take_word_rest_le after
      simp only [split] at rests
      simp only
      omega
  | case2 text found =>
      have parts := congrArg List.length (List.takeWhile_append_dropWhile (p := isPlain) (l := text))
      have nonempty := List.length_pos_iff.mpr holds
      simp only [List.length_append] at parts
      simp only at *
      omega

/-- The words of a text. A character that starts no word is passed over. -/
def words (text : List Char) : List (List Char) :=
  match text with
  | [] => []
  | first :: others =>
      match taken : takeWord (first :: others) with
      | ([], _) => words others
      | (start :: more, rest) =>
          have : rest.length < (first :: others).length := by
            have shorter := take_word_rest_lt (first :: others) (by simp [taken])
            simpa [taken] using shorter
          (start :: more) :: words rest
termination_by text.length
decreasing_by
  · exact Nat.lt_succ_self _
  · assumption

def tokens (text : String) : List String :=
  (words text.toList).map String.ofList

end ScriptSandbox.Statement
