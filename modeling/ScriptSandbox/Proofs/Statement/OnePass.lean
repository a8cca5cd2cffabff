import ScriptSandbox.Proofs.Statement.Visible

/-!
The words of a text found in one pass. A quote without a partner is always the last one. With a space
in its place every quote opens or closes a group, and the words are what stands between the blanks
outside of groups.
-/

namespace ScriptSandbox

namespace Statement

open Text

/-- A text with a space in place of its last quote. -/
def spaceLastQuote : List Char → List Char
  | [] => []
  | c :: rest =>
      if isQuote c && !rest.any isQuote then ' ' :: rest else c :: spaceLastQuote rest

/-- A text with a space in place of the quote that has no partner. -/
def pairQuotes (text : List Char) : List Char :=
  if text.countP isQuote % 2 = 0 then text else spaceLastQuote text

/-- What stands between the blanks outside of groups, read from inside or outside of one. -/
def cutUnquoted : Bool → List Char → List (List Char)
  | _, [] => [[]]
  | inside, c :: rest =>
      if isBlank c && !inside then [] :: cutUnquoted inside rest
      else (cutUnquoted (if isQuote c then !inside else inside) rest).modifyHead (c :: ·)

/-- The words of a text in one pass. -/
def pairedWords (text : List Char) : List (List Char) :=
  (cutUnquoted false (pairQuotes text)).filter fun piece => !piece.isEmpty

theorem space_last_quote_append (front : List Char) {rest : List Char}
    (later : rest.any isQuote = true) :
    spaceLastQuote (front ++ rest) = front ++ spaceLastQuote rest := by
  induction front with
  | nil => rfl
  | cons c more ih =>
      have still : (more ++ rest).any isQuote = true := by
        rw [List.any_append, later, Bool.or_true]
      simp [spaceLastQuote, still, ih]

theorem pair_quotes_append {front : List Char} (paired : front.countP isQuote % 2 = 0)
    (rest : List Char) : pairQuotes (front ++ rest) = front ++ pairQuotes rest := by
  have same : (front ++ rest).countP isQuote % 2 = rest.countP isQuote % 2 := by
    rw [List.countP_append]
    omega
  unfold pairQuotes
  rw [same]
  split
  · rfl
  · next odd =>
      apply space_last_quote_append
      have some : 0 < rest.countP isQuote := by omega
      obtain ⟨c, member, quote⟩ := List.countP_pos_iff.mp some
      exact List.any_eq_true.mpr ⟨c, member, quote⟩

theorem pair_quotes_blank {c : Char} (blank : isBlank c = true) (rest : List Char) :
    pairQuotes (c :: rest) = c :: pairQuotes rest := by
  have paired : [c].countP isQuote % 2 = 0 := by simp [not_quote_blank blank]
  exact pair_quotes_append paired rest

section

variable {rest : List Char} (free : ∀ c ∈ rest, isQuote c = false)
include free

theorem pair_quotes_free : pairQuotes rest = rest := by
  rw [pairQuotes, count_quote_free free]
  rfl

theorem pair_quotes_lone : pairQuotes ('"' :: rest) = ' ' :: rest := by
  have odd : ('"' :: rest).countP isQuote = 1 := by
    rw [List.countP_cons_of_pos rfl, count_quote_free free]
  have none : rest.any isQuote = false := by simpa using free
  have last : isQuote '"' = true := rfl
  rw [pairQuotes, odd, spaceLastQuote, none, last]
  rfl

end

/-- A text with all its groups closed stays in front of the first piece of the rest. -/
theorem cut_unquoted_append {inside : Bool} {word : List Char} (quoted : Quoted inside word)
    (rest : List Char) :
    cutUnquoted inside (word ++ rest) = (cutUnquoted false rest).modifyHead (word ++ ·) := by
  induction word generalizing inside with
  | nil =>
      have outside : inside = false := quoted
      rw [outside]
      exact (congrFun List.modifyHead_id _).symm
  | cons c more ih =>
      have stays : ¬(isBlank c && !inside) = true := by
        simp only [Bool.and_eq_true, Bool.not_eq_true', not_and, Bool.not_eq_false]
        exact quoted.1
      rw [List.cons_append, cutUnquoted, if_neg stays, ih quoted.2, List.modifyHead_modifyHead]
      rfl

theorem cut_unquoted_blank {c : Char} (blank : isBlank c = true) (rest : List Char) :
    cutUnquoted false (c :: rest) = [] :: cutUnquoted false rest := by
  rw [cutUnquoted, blank]
  rfl

theorem paired_words_blank {c : Char} (blank : isBlank c = true) (rest : List Char) :
    pairedWords (c :: rest) = pairedWords rest := by
  rw [pairedWords, pair_quotes_blank blank, cut_unquoted_blank blank]
  rfl

theorem paired_words_lone {rest : List Char} (free : ∀ c ∈ rest, isQuote c = false) :
    pairedWords ('"' :: rest) = pairedWords rest := by
  rw [pairedWords, pair_quotes_lone free, cut_unquoted_blank is_blank_space, pairedWords,
    pair_quotes_free free]
  rfl

theorem paired_words_append {word rest : List Char} (holds : word ≠ [])
    (quoted : Quoted false word) (ends : EndsWord (pairQuotes rest)) :
    pairedWords (word ++ rest) = word :: pairedWords rest := by
  have paired : word.countP isQuote % 2 = 0 := quoted.count
  rw [pairedWords, pair_quotes_append paired, cut_unquoted_append quoted, pairedWords]
  generalize pairQuotes rest = left at ends
  cases left with
  | nil => simp [cutUnquoted, holds]
  | cons c more => simp [cut_unquoted_blank (ends c rfl), holds]

theorem take_word_rest (text : List Char) :
    EndsWord (takeWord text).2 ∨
      ∃ back, (takeWord text).2 = '"' :: back ∧ ∀ c ∈ back, isQuote c = false := by
  fun_induction takeWord text with
  | case1 text before inside after found more rest taken ih =>
      rw [taken] at ih
      exact ih
  | case2 text found => exact rest_of_no_group found

/-- With its last quote paired or gone, a text goes on behind its first word with a blank. -/
theorem ends_word_rest (text : List Char) : EndsWord (pairQuotes (takeWord text).2) := by
  have rests := take_word_rest text
  generalize (takeWord text).2 = rest at rests
  rcases rests with ends | ⟨back, rfl, free⟩
  · cases rest with
    | nil => exact .nil
    | cons c more =>
        rw [pair_quotes_blank (ends c rfl)]
        exact .of_blank (ends c rfl) _
  · rw [pair_quotes_lone free]
    exact .of_blank is_blank_space _

theorem words_eq_paired_words (text : List Char) : words text = pairedWords text := by
  fun_induction words text with
  | case1 => rfl
  | case2 first others rest taken ih =>
      rcases blank_or_lone_of_skipped taken with blank | ⟨rfl, free⟩
      · rw [paired_words_blank blank]
        exact ih
      · rw [paired_words_lone free]
        exact ih
  | case3 first others start more rest taken shorter ih =>
      have split := take_word_append_rest (first :: others)
      have quoted := take_word_quoted (first :: others)
      have ends := ends_word_rest (first :: others)
      rw [taken] at split quoted ends
      rw [← split, paired_words_append (List.cons_ne_nil _ _) quoted ends, ih]

theorem mem_words {text word : List Char} (member : word ∈ words text) :
    word ≠ [] ∧ Quoted false word := by
  fun_induction words text with
  | case1 => cases member
  | case2 first others rest taken ih => exact ih member
  | case3 first others start more rest taken shorter ih =>
      rcases List.mem_cons.mp member with same | later
      · have quoted := take_word_quoted (first :: others)
        rw [taken] at quoted
        rw [same]
        exact ⟨List.cons_ne_nil _ _, quoted⟩
      · exact ih later

/-- The words of a text are what stands between its blanks outside of quotes, where a last quote
without a partner counts as a space. Each holds something and an even number of quotes, and with
single spaces between them they are the words again. -/
theorem words_one_pass (text : List Char) :
    words text = pairedWords text ∧
      (∀ word ∈ words text, word ≠ [] ∧ word.countP isQuote % 2 = 0) ∧
      words (spaced (words text)) = words text := by
  refine ⟨words_eq_paired_words text, ?_, ?_⟩
  · intro word member
    have parts := mem_words member
    exact ⟨parts.1, parts.2.count⟩
  · exact words_spaced fun word member => mem_words member

/-- A group inside a word, and a quote without a partner between two words. -/
theorem words_one_pass_unmatched :
    words "a\" b\"c\"d  e\t".toList = ["a\" b\"c".toList, ['d'], ['e']] ∧
      "a\" b\"c".toList.countP isQuote % 2 = 0 ∧
      words "a\" b\"c d e".toList = ["a\" b\"c".toList, ['d'], ['e']] := by
  obtain ⟨same, even, again⟩ := words_one_pass "a\" b\"c\"d  e\t".toList
  have cuts : words "a\" b\"c\"d  e\t".toList = ["a\" b\"c".toList, ['d'], ['e']] :=
    same.trans (by decide +kernel)
  rw [cuts] at even again
  exact ⟨cuts, (even _ List.mem_cons_self).2, again⟩

end Statement

end ScriptSandbox
