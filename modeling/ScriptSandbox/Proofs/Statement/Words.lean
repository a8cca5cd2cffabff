import ScriptSandbox.Proofs.Statement.Pieces
import ScriptSandbox.Statement.Words

/-!
The words of a statement. Words that keep their blanks inside quotes come apart again when spaces
join them, and the cut at all blanks finds the first of them unless it holds a quote.
-/

namespace ScriptSandbox

namespace Text

/-- Words with one space between any two. -/
def spaced (words : List (List Char)) : List Char :=
  [' '].intercalate words

@[simp] theorem spaced_singleton (word : List Char) : spaced [word] = word :=
  List.intercalate_singleton

@[simp] theorem spaced_cons_cons (first second : List Char) (rest : List (List Char)) :
    spaced (first :: second :: rest) = first ++ ' ' :: spaced (second :: rest) := by
  simp [spaced, List.intercalate_cons_cons]

theorem spaced_append {front back : List (List Char)} (some : front ≠ []) (more : back ≠ []) :
    spaced (front ++ back) = spaced front ++ ' ' :: spaced back := by
  induction front with
  | nil => exact absurd rfl some
  | cons first others ih =>
      cases others with
      | nil =>
          obtain ⟨second, rest, rfl⟩ := List.exists_cons_of_ne_nil more
          simp
      | cons second others =>
          have joined := ih (List.cons_ne_nil _ _)
          simp only [List.cons_append, spaced_cons_cons] at joined ⊢
          rw [joined, List.append_assoc, List.cons_append]

section

variable {isSeparator : Char → Bool}

theorem fold_cut_free {text : List Char} (free : ∀ c ∈ text, isSeparator c = false)
    (done : List (List Char)) (current : List Char) :
    text.foldl (cutStep isSeparator) (done, current) = (done, text.reverse ++ current) := by
  induction text generalizing current with
  | nil => rfl
  | cons c rest ih =>
      obtain ⟨joins, others⟩ := List.forall_mem_cons.mp free
      simp [cutStep, joins, ih others]

theorem fold_cut_after (text : List Char) (done : List (List Char)) (current : List Char) :
    text.foldl (cutStep isSeparator) (done, current) =
      ((text.foldl (cutStep isSeparator) ([], current)).1 ++ done,
        (text.foldl (cutStep isSeparator) ([], current)).2) := by
  induction text generalizing done current with
  | nil => rfl
  | cons c rest ih =>
      simp only [List.foldl_cons, cutStep]
      split
      · rw [ih (current.reverse :: done), ih [current.reverse]]
        simp
      · exact ih done (c :: current)

theorem cut_of_free {text : List Char} (free : ∀ c ∈ text, isSeparator c = false) :
    cut isSeparator text = [text] := by
  simp [cut, fold_cut_free free]

/-- The first piece ends at the first separator. -/
theorem cut_append {front : List Char} {c : Char} (free : ∀ c ∈ front, isSeparator c = false)
    (separates : isSeparator c = true) (rest : List Char) :
    cut isSeparator (front ++ c :: rest) = front :: cut isSeparator rest := by
  rw [cut, List.foldl_append, fold_cut_free free, List.foldl_cons, cutStep, if_pos separates,
    fold_cut_after]
  simp [cut]

end

theorem is_blank_space : isBlank ' ' = true := by
  decide

/-- Whether a text can follow a word: it is empty or starts with a blank. -/
def EndsWord (rest : List Char) : Prop :=
  ∀ c ∈ rest.head?, isBlank c = true

theorem EndsWord.nil : EndsWord [] :=
  fun _ member => by cases member

theorem EndsWord.of_blank {c : Char} (blank : isBlank c = true) (rest : List Char) :
    EndsWord (c :: rest) := by
  intro first member
  cases member
  exact blank

theorem spaced_cons (first : List Char) (others : List (List Char)) :
    ∃ rest, spaced (first :: others) = first ++ rest ∧ EndsWord rest := by
  cases others with
  | nil => exact ⟨[], by simp, .nil⟩
  | cons second more =>
      exact ⟨' ' :: spaced (second :: more), spaced_cons_cons .., .of_blank is_blank_space _⟩

theorem blank_words_append {front : List Char} {c : Char} (holds : front ≠ [])
    (free : ∀ c ∈ front, isBlank c = false) (blank : isBlank c = true) (rest : List Char) :
    blankWords (front ++ c :: rest) = front :: blankWords rest := by
  simp [blankWords, cut_append free blank, holds]

theorem blank_words_of_free {text : List Char} (holds : text ≠ [])
    (free : ∀ c ∈ text, isBlank c = false) : blankWords text = [text] := by
  simp [blankWords, cut_of_free free, holds]

/-- A blank-free word at the start of a text is what the cut at blanks finds first. -/
theorem head_blank_words {first rest : List Char} (holds : first ≠ [])
    (free : ∀ c ∈ first, isBlank c = false) (ends : EndsWord rest) :
    (blankWords (first ++ rest)).headD [] = first := by
  cases rest with
  | nil => rw [List.append_nil, blank_words_of_free holds free, List.headD_cons]
  | cons c more => rw [blank_words_append holds free (ends c rfl), List.headD_cons]

/-- Blank-free words with a space behind each come apart at the blanks. -/
theorem blank_words_spaced {words : List (List Char)} (some : words ≠ [])
    (free : ∀ word ∈ words, word ≠ [] ∧ ∀ c ∈ word, isBlank c = false) :
    blankWords (spaced words ++ [' ']) = words := by
  induction words with
  | nil => exact absurd rfl some
  | cons first others ih =>
      obtain ⟨⟨holds, firstFree⟩, othersFree⟩ := List.forall_mem_cons.mp free
      cases others with
      | nil => rw [spaced_singleton, blank_words_append holds firstFree is_blank_space]; rfl
      | cons second rest =>
          rw [spaced_cons_cons, List.append_assoc, List.cons_append,
            blank_words_append holds firstFree is_blank_space, ih (List.cons_ne_nil _ _) othersFree]

theorem trimmed_of_free {text : List Char} (free : ∀ c ∈ text, isBlank c = false) : Trimmed text :=
  ⟨fun c first => free c (List.mem_of_mem_head? first),
    fun c last => free c (List.mem_of_mem_getLast? last)⟩

theorem trimmed_around {front back : List Char} (starts : Trimmed front) (some : front ≠ [])
    (ends : Trimmed back) (more : back ≠ []) (middle : List Char) :
    Trimmed (front ++ (middle ++ back)) := by
  obtain ⟨first, others, rfl⟩ := List.exists_cons_of_ne_nil some
  have last := List.getLast?_eq_some_getLast more
  have same : (first :: others ++ (middle ++ back)).getLast? = back.getLast? := by
    simp only [List.getLast?_append, last, Option.some_or]
  refine ⟨starts.1, ?_⟩
  rw [same]
  exact ends.2

theorem spaced_ne_nil {first : List Char} (holds : first ≠ []) (others : List (List Char)) :
    spaced (first :: others) ≠ [] := by
  obtain ⟨rest, same, _⟩ := spaced_cons first others
  rw [same]
  simp [holds]

theorem trimmed_spaced {first : List Char} {others : List (List Char)}
    (trimmed : ∀ word ∈ first :: others, word ≠ [] ∧ Trimmed word) :
    Trimmed (spaced (first :: others)) := by
  induction others generalizing first with
  | nil =>
      rw [spaced_singleton]
      exact (trimmed first List.mem_cons_self).2
  | cons second rest ih =>
      obtain ⟨⟨firstHolds, firstTrimmed⟩, others⟩ := List.forall_mem_cons.mp trimmed
      rw [spaced_cons_cons]
      exact trimmed_around firstTrimmed firstHolds (ih others)
        (spaced_ne_nil (others second List.mem_cons_self).1 _) [' ']

theorem mem_spaced {c : Char} {words : List (List Char)} (member : c ∈ spaced words) :
    c = ' ' ∨ ∃ word ∈ words, c ∈ word := by
  induction words with
  | nil => cases member
  | cons first others ih =>
      cases others with
      | nil =>
          rw [spaced_singleton] at member
          exact .inr ⟨first, List.mem_cons_self, member⟩
      | cons second rest =>
          rw [spaced_cons_cons] at member
          rcases List.mem_append.mp member with inFirst | later
          · exact .inr ⟨first, List.mem_cons_self, inFirst⟩
          · rcases List.mem_cons.mp later with space | inRest
            · exact .inl space
            · rcases ih inRest with space | ⟨word, listed, found⟩
              · exact .inl space
              · exact .inr ⟨word, List.mem_cons_of_mem _ listed, found⟩

end Text

namespace Statement

open Text

/-- Whether a text read from inside or outside a quoted group closes its last group and has no blank
outside of groups. Read from outside, it has an even number of quotes. -/
def Quoted : Bool → List Char → Prop
  | inside, [] => inside = false
  | inside, c :: rest =>
      (isBlank c = true → inside = true) ∧ Quoted (if isQuote c then !inside else inside) rest

instance (inside : Bool) (text : List Char) : Decidable (Quoted inside text) :=
  match text with
  | [] => inferInstanceAs (Decidable (inside = false))
  | c :: rest =>
      have := instDecidableQuoted (if isQuote c then !inside else inside) rest
      inferInstanceAs (Decidable ((isBlank c = true → inside = true) ∧
        Quoted (if isQuote c then !inside else inside) rest))

theorem not_blank_quote {c : Char} (quote : isQuote c = true) : isBlank c = false := by
  cases beq_iff_eq.mp quote
  decide

namespace Quoted

theorem head_not_blank {text : List Char} (quoted : Quoted false text) :
    ∀ c ∈ text.head?, isBlank c = false := by
  cases text with
  | nil => exact fun _ member => by cases member
  | cons first rest =>
      intro c member
      cases member
      exact Bool.eq_false_iff.mpr fun blank => by cases quoted.1 blank

theorem last_not_blank {inside : Bool} {text : List Char} (quoted : Quoted inside text) :
    ∀ c ∈ text.getLast?, isBlank c = false := by
  induction text generalizing inside with
  | nil => exact fun _ member => by cases member
  | cons first rest ih =>
      cases rest with
      | cons second more => exact ih quoted.2
      | nil =>
          intro c member
          cases member
          obtain ⟨grouped, ends⟩ := quoted
          -- The last character either closes a group or stands outside of all.
          cases quote : isQuote first with
          | true => exact not_blank_quote quote
          | false =>
              rw [quote] at ends
              exact Bool.eq_false_iff.mpr fun blank => by
                have opened := grouped blank
                have closed : inside = false := ends
                rw [opened] at closed
                cases closed

theorem trimmed {text : List Char} (quoted : Quoted false text) : Trimmed text :=
  ⟨quoted.head_not_blank, quoted.last_not_blank⟩

theorem quote_before_blank {front rest : List Char} {c : Char}
    (quoted : Quoted false (front ++ c :: rest)) (blank : isBlank c = true) :
    ∃ d ∈ front, isQuote d = true := by
  induction front with
  | nil => cases quoted.1 blank
  | cons first more ih =>
      cases quote : isQuote first with
      | true => exact ⟨first, List.mem_cons_self, quote⟩
      | false =>
          have further := quoted.2
          rw [quote] at further
          obtain ⟨d, member, found⟩ := ih further
          exact ⟨d, List.mem_cons_of_mem _ member, found⟩

theorem group {text : List Char} (quoted : Quoted true text) :
    ∃ held after, text = held ++ '"' :: after ∧ (∀ c ∈ held, isQuote c = false) ∧
      Quoted false after := by
  induction text with
  | nil => cases quoted
  | cons first rest ih =>
      cases quote : isQuote first with
      | true =>
          have further := quoted.2
          rw [quote] at further
          cases beq_iff_eq.mp quote
          exact ⟨[], rest, rfl, fun _ member => (by cases member), further⟩
      | false =>
          have further := quoted.2
          rw [quote] at further
          obtain ⟨held, after, rfl, free, outside⟩ := ih further
          exact ⟨first :: held, after, rfl, List.forall_mem_cons.mpr ⟨quote, free⟩, outside⟩

/-- Outside of groups the text is plain up to its end or up to the next group. -/
theorem outside {text : List Char} (quoted : Quoted false text) :
    (∀ c ∈ text, isPlain c = true) ∨
      ∃ before held after, text = before ++ '"' :: (held ++ '"' :: after) ∧
        (∀ c ∈ before, isPlain c = true) ∧ (∀ c ∈ held, isQuote c = false) ∧ Quoted false after := by
  induction text with
  | nil => exact .inl fun _ member => by cases member
  | cons first rest ih =>
      have further := quoted.2
      cases quote : isQuote first with
      | true =>
          rw [quote] at further
          cases beq_iff_eq.mp quote
          obtain ⟨held, after, rfl, free, ends⟩ := group further
          exact .inr ⟨[], held, after, rfl, fun _ member => (by cases member), free, ends⟩
      | false =>
          rw [quote] at further
          have plain : isPlain first = true := by
            simp [isPlain, quote, quoted.head_not_blank first rfl]
          rcases ih further with all | ⟨before, held, after, rfl, allBefore, free, ends⟩
          · exact .inl (List.forall_mem_cons.mpr ⟨plain, all⟩)
          · exact .inr ⟨first :: before, held, after, rfl,
              List.forall_mem_cons.mpr ⟨plain, allBefore⟩, free, ends⟩

theorem append {inside : Bool} {front back : List Char} (first : Quoted inside front)
    (second : Quoted false back) : Quoted inside (front ++ back) := by
  induction front generalizing inside with
  | nil =>
      cases first
      exact second
  | cons c rest ih => exact ⟨first.1, ih first.2⟩

theorem plain_append {before rest : List Char} (quoted : Quoted false rest)
    (plain : ∀ c ∈ before, isPlain c = true) : Quoted false (before ++ rest) := by
  induction before with
  | nil => exact quoted
  | cons c more ih =>
      obtain ⟨first, others⟩ := List.forall_mem_cons.mp plain
      have parts : isQuote c = false ∧ isBlank c = false := by simpa [isPlain] using first
      constructor
      · intro blank
        rw [parts.2] at blank
        cases blank
      · rw [parts.1]
        exact ih others

theorem group_append {held after : List Char} (quoted : Quoted false after)
    (free : ∀ c ∈ held, isQuote c = false) : Quoted true (held ++ '"' :: after) := by
  induction held with
  | nil => exact ⟨fun _ => rfl, quoted⟩
  | cons c more ih =>
      obtain ⟨first, others⟩ := List.forall_mem_cons.mp free
      constructor
      · exact fun _ => rfl
      · rw [first]
        exact ih others

end Quoted

/-- A text in quotes. -/
def inQuotes (text : List Char) : List Char :=
  '"' :: (text ++ ['"'])

theorem trimmed_in_quotes (text : List Char) : Trimmed (inQuotes text) := by
  have solid : isBlank '"' = false := by decide
  constructor
  · intro c first
    cases first
    exact solid
  · intro c last
    rw [inQuotes, ← List.cons_append, List.getLast?_concat] at last
    cases last
    exact solid

theorem quoted_in_quotes {text : List Char} (free : '"' ∉ text) : Quoted false (inQuotes text) := by
  have unquoted : ∀ c ∈ text, isQuote c = false := by
    intro c member
    rw [isQuote, beq_eq_false_iff_ne]
    rintro rfl
    exact free member
  exact ⟨fun blank => absurd blank (by decide), Quoted.group_append rfl unquoted⟩

theorem no_plain_of_ends {rest : List Char} (ends : EndsWord rest) :
    rest.takeWhile isPlain = [] ∧ rest.dropWhile isPlain = rest := by
  cases rest with
  | nil => exact ⟨rfl, rfl⟩
  | cons c more =>
      have stops : isPlain c = false := by simp [isPlain, ends c rfl]
      simp [stops]

theorem take_group_none {text : List Char} (plain : ∀ c ∈ text, isPlain c = true)
    {rest : List Char} (ends : EndsWord rest) : takeGroup? (text ++ rest) = none := by
  rw [takeGroup?, List.dropWhile_append_of_pos plain, (no_plain_of_ends ends).2]
  split
  · exact absurd (ends '"' rfl) (by decide)
  · rfl

theorem take_group_some {before held : List Char} (plain : ∀ c ∈ before, isPlain c = true)
    (free : ∀ c ∈ held, isQuote c = false) (after : List Char) :
    takeGroup? (before ++ '"' :: (held ++ '"' :: after)) = some (before, held, after) := by
  have unquoted : ∀ c ∈ held, (!isQuote c) = true := by
    intro c member
    rw [free c member]
    rfl
  have quote : isQuote '"' = true := rfl
  have stops : isPlain '"' = false := rfl
  have drops : (before ++ '"' :: (held ++ '"' :: after)).dropWhile isPlain =
      '"' :: (held ++ '"' :: after) := by
    rw [List.dropWhile_append_of_pos plain, List.dropWhile_cons_of_neg (by simp [stops])]
  have takes : (before ++ '"' :: (held ++ '"' :: after)).takeWhile isPlain = before := by
    rw [List.takeWhile_append_of_pos plain, List.takeWhile_cons_of_neg (by simp [stops]),
      List.append_nil]
  have dropsHeld : (held ++ '"' :: after).dropWhile (fun c => !isQuote c) = '"' :: after := by
    rw [List.dropWhile_append_of_pos unquoted, List.dropWhile_cons_of_neg (by simp [quote])]
  have takesHeld : (held ++ '"' :: after).takeWhile (fun c => !isQuote c) = held := by
    rw [List.takeWhile_append_of_pos unquoted, List.takeWhile_cons_of_neg (by simp [quote]),
      List.append_nil]
  simp only [takeGroup?, drops, takes, dropsHeld, takesHeld]

/-- A word in front of a blank is taken whole. -/
theorem take_word_append {word rest : List Char} (quoted : Quoted false word)
    (ends : EndsWord rest) : takeWord (word ++ rest) = (word, rest) := by
  generalize joined : word ++ rest = text
  fun_induction takeWord text generalizing word with
  | case1 text before inside after found more left taken ih =>
      subst joined
      rcases quoted.outside with plain | ⟨front, held, others, rfl, plain, free, further⟩
      · rw [take_group_none plain ends] at found
        cases found
      · simp only [List.append_assoc, List.cons_append, take_group_some plain free] at found
        cases found
        have same := ih further rfl
        rw [taken] at same
        cases same
        simp
  | case2 text found =>
      subst joined
      rcases quoted.outside with plain | ⟨front, held, others, rfl, plain, free, further⟩
      · simp [List.takeWhile_append_of_pos plain, List.dropWhile_append_of_pos plain,
          no_plain_of_ends ends]
      · simp only [List.append_assoc, List.cons_append, take_group_some plain free] at found
        cases found

theorem words_blank {c : Char} (blank : isBlank c = true) (rest : List Char) :
    words (c :: rest) = words rest := by
  have none : takeWord ([] ++ c :: rest) = ([], c :: rest) :=
    take_word_append rfl (.of_blank blank _)
  rw [List.nil_append] at none
  rw [words]
  split
  · rfl
  · next start more left taken =>
      rw [none] at taken
      cases taken

theorem words_append {word : List Char} (holds : word ≠ []) (quoted : Quoted false word)
    {rest : List Char} (ends : EndsWord rest) : words (word ++ rest) = word :: words rest := by
  obtain ⟨first, others, rfl⟩ := List.exists_cons_of_ne_nil holds
  have whole := take_word_append quoted ends
  rw [List.cons_append] at whole ⊢
  rw [words]
  split
  · next left taken =>
      rw [whole] at taken
      cases taken
  · next start more left taken =>
      rw [whole] at taken
      cases taken
      rfl

/-- Words joined by spaces come apart again. -/
theorem words_spaced {parts : List (List Char)}
    (quoted : ∀ word ∈ parts, word ≠ [] ∧ Quoted false word) : words (spaced parts) = parts := by
  induction parts with
  | nil => simp [spaced, words]
  | cons first others ih =>
      obtain ⟨⟨holds, firstQuoted⟩, othersQuoted⟩ := List.forall_mem_cons.mp quoted
      cases others with
      | nil =>
          have only := words_append holds firstQuoted .nil
          rw [List.append_nil] at only
          rw [spaced_singleton, only, words]
      | cons second rest =>
          rw [spaced_cons_cons, words_append holds firstQuoted (.of_blank is_blank_space _),
            words_blank is_blank_space, ih othersQuoted]

/-- The cut at all blanks starts with the first word or with a part of it that holds a quote. -/
theorem head_blank_words_quoted {first rest : List Char} (holds : first ≠ [])
    (quoted : Quoted false first) (ends : EndsWord rest) :
    (blankWords (first ++ rest)).headD [] = first ∨
      ∃ c ∈ (blankWords (first ++ rest)).headD [], isQuote c = true := by
  cases found : first.find? isBlank with
  | none =>
      have free : ∀ c ∈ first, isBlank c = false := by simpa using found
      exact .inl (head_blank_words holds free ends)
  | some c =>
      obtain ⟨blank, front, back, rfl, free⟩ := List.find?_eq_some_iff_append.mp found
      obtain ⟨quote, member, isQuote⟩ := quoted.quote_before_blank blank
      have frontHolds := List.ne_nil_of_mem member
      have starts : (blankWords (front ++ c :: back ++ rest)).headD [] = front := by
        rw [List.append_assoc, List.cons_append]
        exact head_blank_words frontHolds (by simpa using free) (.of_blank blank _)
      exact .inr ⟨quote, by rwa [starts], isQuote⟩

end Statement

end ScriptSandbox
