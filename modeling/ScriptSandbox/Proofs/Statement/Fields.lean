import ScriptSandbox.Proofs.Statement.Heads

/-!
Fields between commas. The words of a statement are put together with single spaces before they are
cut at the commas. That squeezes the blanks of a field and nothing else, so the fields keep their
words, and a quoted field without a comma stays as it is.
-/

namespace ScriptSandbox

namespace Text

/-- A separator cuts a text in two that are cut each on its own. -/
theorem cut_append_at {isSeparator : Char → Bool} {c : Char} (separates : isSeparator c = true)
    (front rest : List Char) :
    cut isSeparator (front ++ c :: rest) = cut isSeparator front ++ cut isSeparator rest := by
  simp only [cut]
  rw [List.foldl_append, List.foldl_cons, cutStep, if_pos separates, fold_cut_after]
  simp

theorem blank_words_append_at {c : Char} (blank : isBlank c = true) (front rest : List Char) :
    blankWords (front ++ c :: rest) = blankWords front ++ blankWords rest := by
  rw [blankWords, cut_append_at blank, List.filter_append, blankWords, blankWords]

def AreSpaces (text : List Char) : Prop :=
  ∀ c ∈ text, c = ' '

theorem spaced_append_tail {front : List (List Char)} (some : front ≠ []) (back : List (List Char)) :
    ∃ lead, AreSpaces lead ∧ spaced (front ++ back) = spaced front ++ (lead ++ spaced back) := by
  cases back with
  | nil =>
      refine ⟨[], List.forall_mem_nil _, ?_⟩
      rw [List.append_nil]
      exact (List.append_nil _).symm
  | cons first others =>
      refine ⟨[' '], List.forall_mem_singleton.mpr rfl, ?_⟩
      exact spaced_append some (List.cons_ne_nil _ _)

/-- The second text is the first with other blanks between its words. -/
structure Squeezed (text squeezed : List Char) : Prop where
  words : blankWords squeezed = blankWords text
  kept : ∀ c ∈ squeezed, c = ' ' ∨ c ∈ text

theorem Squeezed.behind {text squeezed lead : List Char} (squeezes : Squeezed text squeezed)
    (spaces : AreSpaces lead) : Squeezed text (lead ++ squeezed) := by
  induction lead with
  | nil => exact squeezes
  | cons c more ih =>
      obtain ⟨rfl, others⟩ := List.forall_mem_cons.mp spaces
      have shorter := ih others
      constructor
      · rw [List.cons_append, blank_words_blank is_blank_space]
        exact shorter.words
      · intro d member
        rcases List.mem_cons.mp member with first | later
        · exact .inl first
        · exact shorter.kept d later

/-- Words without blanks come apart again. -/
theorem blank_words_of_spaced {words : List (List Char)}
    (apart : ∀ word ∈ words, word ≠ [] ∧ ∀ c ∈ word, isBlank c = false) :
    blankWords (spaced words) = words := by
  by_cases none : words = []
  · rw [none]
    rfl
  · have again := blank_words_spaced none apart
    rwa [blank_words_snoc is_blank_space] at again

theorem apart_blank_words {text word : List Char} (member : word ∈ blankWords text) :
    word ≠ [] ∧ ∀ c ∈ word, isBlank c = false := by
  refine ⟨?_, free_of_mem_blank_words member⟩
  simpa using (List.mem_filter.mp member).2

theorem squeezed_spaced (text : List Char) : Squeezed text (spaced (blankWords text)) := by
  constructor
  · exact blank_words_of_spaced fun word => apart_blank_words
  · intro c member
    rcases mem_spaced member with space | ⟨word, listed, inside⟩
    · exact .inl space
    · exact .inr ((infix_blank_words listed).subset inside)

/-- What is put to the last word stands at the end. -/
theorem spaced_extended (front : List (List Char)) (last more : List Char) :
    spaced (front ++ [last ++ more]) = spaced (front ++ [last]) ++ more := by
  by_cases none : front = []
  · rw [none, List.nil_append, List.nil_append, spaced_singleton, spaced_singleton]
  · rw [spaced_append none (List.cons_ne_nil _ _), spaced_append none (List.cons_ne_nil _ _),
      spaced_singleton, spaced_singleton, List.append_assoc, List.cons_append]

theorem blank_words_of_spaced_last {front : List (List Char)}
    (apart : ∀ word ∈ front, word ≠ [] ∧ ∀ c ∈ word, isBlank c = false) (last : List Char) :
    blankWords (spaced (front ++ [last])) = front ++ blankWords last := by
  by_cases none : front = []
  · rw [none, List.nil_append, List.nil_append, spaced_singleton]
  · rw [spaced_append none (List.cons_ne_nil _ _), spaced_singleton,
      blank_words_append_at is_blank_space, blank_words_of_spaced apart]

/-- A text is squeezed to its words and a last one that may be empty. -/
theorem squeezed_of_words {text last : List Char} {front : List (List Char)}
    (words : blankWords text = front ++ [last].filter fun word => !word.isEmpty) :
    Squeezed text (spaced (front ++ [last])) := by
  have listed {word : List Char} (member : word ∈ front ++ [last]) (holds : word ≠ []) :
      word ∈ blankWords text := by
    rw [words]
    rcases List.mem_append.mp member with early | final
    · exact List.mem_append_left _ early
    · exact List.mem_append_right _ (List.mem_filter.mpr ⟨final, by simpa using holds⟩)
  have apart : ∀ word ∈ front, word ≠ [] ∧ ∀ c ∈ word, isBlank c = false := by
    intro word member
    have among : word ∈ blankWords text := by
      rw [words]
      exact List.mem_append_left _ member
    exact apart_blank_words among
  have only : blankWords last = [last].filter fun word => !word.isEmpty := by
    cases last with
    | nil => rfl
    | cons first more =>
        have inside := listed (List.mem_append_right front List.mem_cons_self) (List.cons_ne_nil _ _)
        rw [blank_words_of_free (List.cons_ne_nil _ _) (free_of_mem_blank_words inside)]
        rfl
  constructor
  · rw [blank_words_of_spaced_last apart, words, only]
  · intro c member
    rcases mem_spaced member with space | ⟨word, among, inside⟩
    · exact .inl space
    · exact .inr ((infix_blank_words (listed among (List.ne_nil_of_mem inside))).subset inside)

section

variable {c : Char} (solid : isBlank c = false)
include solid

/-- A character that is no blank joins the last word, which may be empty. -/
theorem blank_words_concat (text : List Char) : ∃ front last,
    blankWords (text ++ [c]) = front ++ [last ++ [c]] ∧
      blankWords text = front ++ [last].filter fun word => !word.isEmpty := by
  generalize state : text.foldl (cutStep isBlank) ([], []) = cutting
  have longer : (text ++ [c]).foldl (cutStep isBlank) ([], []) = (cutting.1, c :: cutting.2) := by
    rw [List.foldl_append, state, List.foldl_cons, List.foldl_nil, cutStep, if_neg (by simp [solid])]
  refine ⟨cutting.1.reverse.filter fun word => !word.isEmpty, cutting.2.reverse, ?_, ?_⟩
  · simp [blankWords, cut, longer]
  · simp only [blankWords, cut, state]
    rw [List.reverse_cons, List.filter_append]

/-- Such a character at the end of a text stays there when the text is squeezed. -/
theorem spaced_concat (text : List Char) :
    ∃ squeezed, spaced (blankWords (text ++ [c])) = squeezed ++ [c] ∧ Squeezed text squeezed := by
  obtain ⟨front, last, longer, words⟩ := blank_words_concat solid text
  exact ⟨spaced (front ++ [last]), by rw [longer, spaced_extended], squeezed_of_words words⟩

end

/-- A text without blanks around it is found again behind spaces. -/
theorem trim_behind {lead text : List Char} (spaces : AreSpaces lead) (trimmed : Trimmed text) :
    trim (lead ++ text) = text := by
  have blank : ∀ c ∈ lead, isBlank c = true := by
    intro c member
    rw [spaces c member]
    exact is_blank_space
  have start : trimStart (lead ++ text) = trimStart text := List.dropWhile_append_of_pos blank
  rw [trim, start, trim_start_of_head trimmed.1, trim_end_of_last trimmed.2]

end Text

namespace Statement

open Text

theorem words_of_free {text : List Char} (free : '"' ∉ text) : words text = blankWords text := by
  apply words_of_compact
  induction text with
  | nil => rfl
  | cons c rest ih =>
      have other : isQuote c = false := by
        rw [isQuote, beq_eq_false_iff_ne]
        rintro rfl
        exact free List.mem_cons_self
      refine ⟨fun _ => rfl, ?_⟩
      rw [other]
      exact ih fun member => free (List.mem_cons_of_mem _ member)

theorem words_trim (text : List Char) : words (trim text) = words text := by
  rw [trim, words_trim_end]
  induction text with
  | nil => rfl
  | cons c rest ih =>
      cases blank : isBlank c with
      | true =>
          have shorter : trimStart (c :: rest) = trimStart rest := List.dropWhile_cons_of_pos blank
          rw [shorter, ih, words_blank blank]
      | false => rw [trim_start_of_head (by simpa using blank)]

/-- Fields with a comma and a space between any two. -/
def fields (texts : List (List Char)) : List Char :=
  [',', ' '].intercalate texts

theorem fields_singleton (text : List Char) : fields [text] = text :=
  List.intercalate_singleton

theorem fields_cons_cons (first second : List Char) (rest : List (List Char)) :
    fields (first :: second :: rest) = first ++ ',' :: ' ' :: fields (second :: rest) := by
  simp [fields, List.intercalate_cons_cons]

/-- Whether a text can be a field without quotes. -/
structure Bare (text : List Char) : Prop where
  commas : ',' ∉ text
  quotes : '"' ∉ text

theorem no_comma {text : List Char} (free : ',' ∉ text) : ∀ c ∈ text, (c == ',') = false := by
  intro c member
  rw [beq_eq_false_iff_ne]
  rintro rfl
  exact free member

theorem bare_fields_quotes {texts : List (List Char)} (bare : ∀ text ∈ texts, Bare text) :
    '"' ∉ fields texts := by
  induction texts with
  | nil => exact List.not_mem_nil
  | cons first others ih =>
      obtain ⟨bareFirst, bareOthers⟩ := List.forall_mem_cons.mp bare
      cases others with
      | nil =>
          rw [fields_singleton]
          exact bareFirst.quotes
      | cons second rest =>
          have later := ih bareOthers
          rw [fields_cons_cons]
          simp [bareFirst.quotes, later]

section

variable {text squeezed : List Char} (bare : Bare text) (squeezes : Squeezed text squeezed)
include bare squeezes

/-- A squeezed field is still a field, with the words it had. -/
theorem bare_squeezed : Bare squeezed ∧ words (trim squeezed) = words text := by
  have free : Bare squeezed := by
    constructor
    · intro member
      exact bare.commas ((squeezes.kept _ member).resolve_left (by decide))
    · intro member
      exact bare.quotes ((squeezes.kept _ member).resolve_left (by decide))
  refine ⟨free, ?_⟩
  rw [words_trim, words_of_free free.quotes, words_of_free bare.quotes, squeezes.words]

end

/-- Cut at the commas, squeezed fields have the words they had before. -/
theorem cut_squeezed_fields {texts : List (List Char)} (some : texts ≠ [])
    (bare : ∀ text ∈ texts, Bare text) {lead : List Char} (spaces : AreSpaces lead) :
    (cut (· == ',') (lead ++ spaced (blankWords (fields texts)))).map
      (fun piece => words (trim piece)) = texts.map words := by
  induction texts generalizing lead with
  | nil => exact absurd rfl some
  | cons first others ih =>
      obtain ⟨bareFirst, bareOthers⟩ := List.forall_mem_cons.mp bare
      cases others with
      | nil =>
          rw [fields_singleton]
          obtain ⟨free, kept⟩ := bare_squeezed bareFirst ((squeezed_spaced first).behind spaces)
          rw [cut_of_free (no_comma free.commas), List.map_singleton, kept, List.map_singleton]
      | cons second rest =>
          -- The comma belongs to the last word of the first field, or is a word of its own.
          obtain ⟨squeezed, joined, squeezes⟩ := spaced_concat (c := ',') (by decide) first
          have holds : blankWords (first ++ [',']) ≠ [] := by
            intro none
            rw [none] at joined
            cases squeezed <;> cases joined
          obtain ⟨between, betweenSpaces, split⟩ :=
            spaced_append_tail holds (blankWords (fields (second :: rest)))
          have all : lead ++ spaced (blankWords (fields (first :: second :: rest))) =
              (lead ++ squeezed) ++ ',' :: (between ++ spaced (blankWords (fields (second :: rest)))) := by
            have parts : fields (first :: second :: rest) =
                (first ++ [',']) ++ ' ' :: fields (second :: rest) := by
              rw [fields_cons_cons, List.append_assoc, List.singleton_append]
            rw [parts, blank_words_append_at is_blank_space, split, joined]
            simp
          obtain ⟨free, kept⟩ := bare_squeezed bareFirst (squeezes.behind spaces)
          rw [all, cut_append (no_comma free.commas) rfl, List.map_cons, kept,
            ih (List.cons_ne_nil _ _) bareOthers betweenSpaces]
          rfl

section

variable {held : List Char} (free : '"' ∉ held) {texts : List (List Char)} (some : texts ≠ [])
include free some

/-- A quoted field is one word together with its comma. -/
theorem words_quoted_field :
    words (fields (inQuotes held :: texts)) = (inQuotes held ++ [',']) :: words (fields texts) := by
  obtain ⟨first, others, rfl⟩ := List.exists_cons_of_ne_nil some
  have parts : fields (inQuotes held :: first :: others) =
      (inQuotes held ++ [',']) ++ ' ' :: fields (first :: others) := by
    rw [fields_cons_cons, List.append_assoc, List.singleton_append]
  have quoted : Quoted false (inQuotes held ++ [',']) := (quoted_in_quotes free).append (by decide)
  have holds : inQuotes held ++ [','] ≠ [] := List.cons_ne_nil _ _
  rw [parts, words_append holds quoted (.of_blank is_blank_space _), words_blank is_blank_space]

theorem spaced_quoted_field : ∃ lead, AreSpaces lead ∧
    spaced (words (fields (inQuotes held :: texts))) =
      inQuotes held ++ ',' :: (lead ++ spaced (words (fields texts))) := by
  obtain ⟨lead, spaces, split⟩ := spaced_append_tail
    (List.cons_ne_nil (inQuotes held ++ [',']) []) (words (fields texts))
  refine ⟨lead, spaces, ?_⟩
  rw [words_quoted_field free some, ← List.singleton_append, split, spaced_singleton,
    List.append_assoc, List.singleton_append]

end

/-- The fields of a text, without the blanks around them. -/
def trimmedFields (text : List Char) : List (List Char) :=
  (cut (· == ',') text).map trim

section

variable {held lead : List Char} (spaces : AreSpaces lead) (rest : List Char)
include spaces

theorem trimmed_fields_quoted (apart : ',' ∉ held) :
    trimmedFields (lead ++ (inQuotes held ++ ',' :: rest)) = inQuotes held :: trimmedFields rest := by
  have free : ',' ∉ lead ++ inQuotes held := by
    intro member
    rcases List.mem_append.mp member with before | inside
    · exact absurd (spaces _ before) (by decide)
    · simp [inQuotes, apart] at inside
  rw [trimmedFields, ← List.append_assoc, cut_append (no_comma free) rfl, List.map_cons,
    trim_behind spaces (trimmed_in_quotes held), trimmedFields]

/-- A comma ends a field inside of quotes too, so what it ends is not the quoted text. -/
theorem trimmed_fields_torn (torn : ',' ∈ held) : ∃ first more,
    trimmedFields (lead ++ (inQuotes held ++ ',' :: rest)) = first :: (more ++ trimmedFields rest) ∧
      ',' ∉ first := by
  obtain ⟨front, back, rfl, before⟩ := List.eq_append_cons_of_mem torn
  have free : ',' ∉ lead ++ '"' :: front := by
    intro member
    rcases List.mem_append.mp member with early | inside
    · exact absurd (spaces _ early) (by decide)
    · simp [before] at inside
  have parts : lead ++ (inQuotes (front ++ ',' :: back) ++ ',' :: rest) =
      (lead ++ '"' :: front) ++ ',' :: ((back ++ ['"']) ++ ',' :: rest) := by
    simp [inQuotes]
  refine ⟨trim (lead ++ '"' :: front), (cut (· == ',') (back ++ ['"'])).map trim, ?_, ?_⟩
  · rw [trimmedFields, parts, cut_append (no_comma free) rfl, cut_append_at rfl, List.map_cons,
      List.map_append, trimmedFields]
  · exact fun member => free ((infix_trim _).subset member)

end

end Statement

end ScriptSandbox
