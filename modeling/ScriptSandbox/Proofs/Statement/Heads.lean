import ScriptSandbox.Proofs.Statement.Visible

/-!
The head of a block against the words of a plain statement. A head is cut at all blanks, so a quoted
blank divides a token there and nowhere else, and a quote without a partner stays. The two cuts of an
expression agree exactly when its quotes pair up and hold no blank.
-/

namespace ScriptSandbox

namespace Text

theorem fold_cut_apart {isSeparator : Char → Bool} (text : List Char) {done : List (List Char)}
    {current : List Char} (apart : ∀ piece ∈ current :: done, ∀ c ∈ piece, isSeparator c = false) :
    ∀ piece ∈ (text.foldl (cutStep isSeparator) (done, current)).2 ::
      (text.foldl (cutStep isSeparator) (done, current)).1,
      ∀ c ∈ piece, isSeparator c = false := by
  induction text generalizing done current with
  | nil => exact apart
  | cons c rest ih =>
      rw [List.foldl_cons, cutStep]
      split
      · apply ih
        simpa using apart
      · next joins =>
          apply ih
          simpa [joins] using apart

/-- No word of the cut at blanks holds one. -/
theorem free_of_mem_blank_words {text word : List Char} (member : word ∈ blankWords text) :
    ∀ c ∈ word, isBlank c = false := by
  have apart := @fold_cut_apart isBlank text [] [] (by simp)
  have inCut := (List.mem_filter.mp member).1
  unfold cut at inCut
  rcases List.mem_cons.mp (List.mem_reverse.mp inCut) with last | finished
  · intro c inside
    rw [last] at inside
    exact apart _ List.mem_cons_self c (List.mem_reverse.mp inside)
  · exact apart word (List.mem_cons_of_mem _ finished)

theorem blank_words_blank {c : Char} (blank : isBlank c = true) (rest : List Char) :
    blankWords (c :: rest) = blankWords rest := by
  have cuts : cut isBlank ([] ++ c :: rest) = [] :: cut isBlank rest := cut_append (by simp) blank rest
  rw [List.nil_append] at cuts
  simp [blankWords, cuts]

theorem blank_words_snoc {c : Char} (blank : isBlank c = true) (text : List Char) :
    blankWords (text ++ [c]) = blankWords text := by
  have cuts : cut isBlank (text ++ [c]) = cut isBlank text ++ [[]] := by
    simp [cut, cutStep, blank]
  rw [blankWords, cuts, List.filter_append, List.filter_cons_of_neg (by simp), List.filter_nil,
    List.append_nil, blankWords]

theorem blank_words_word {word rest : List Char} (holds : word ≠ [])
    (free : ∀ c ∈ word, isBlank c = false) (ends : EndsWord rest) :
    blankWords (word ++ rest) = word :: blankWords rest := by
  cases rest with
  | nil =>
      rw [List.append_nil, blank_words_of_free holds free]
      rfl
  | cons c more =>
      rw [blank_words_append holds free (ends c rfl), blank_words_blank (ends c rfl)]

/-- Blanks at the end do not reach past a character that is none. -/
theorem trim_end_append {c : Char} (solid : isBlank c = false) (front rest : List Char) :
    trimEnd (front ++ c :: rest) = front ++ c :: trimEnd rest := by
  unfold trimEnd
  rw [List.reverse_append, List.reverse_cons, List.append_assoc, List.dropWhile_append]
  split
  · next blank =>
      have none : rest.reverse.dropWhile isBlank = [] := by simpa using blank
      simp [solid, none]
  · simp

theorem trim_append {front rest : List Char} {c : Char}
    (starts : ∀ d ∈ (front ++ c :: rest).head?, isBlank d = false) (solid : isBlank c = false) :
    trim (front ++ c :: rest) = front ++ c :: trimEnd rest := by
  rw [trim, trim_start_of_head starts, trim_end_append solid]

theorem EndsWord.trim_end {rest : List Char} (ends : EndsWord rest) : EndsWord (trimEnd rest) := by
  obtain ⟨left, whole⟩ := prefix_trim_end rest
  intro c first
  apply ends c
  rw [← whole, List.head?_append, first, Option.some_or]
  rfl

end Text

namespace Statement

open Text

/-- Whether a text read from inside or outside a quoted group closes its last group and has no blank
inside of groups. -/
def Compact : Bool → List Char → Prop
  | inside, [] => inside = false
  | inside, c :: rest =>
      (isBlank c = true → inside = false) ∧ Compact (if isQuote c then !inside else inside) rest

instance (inside : Bool) (text : List Char) : Decidable (Compact inside text) :=
  match text with
  | [] => inferInstanceAs (Decidable (inside = false))
  | c :: rest =>
      have := instDecidableCompact (if isQuote c then !inside else inside) rest
      inferInstanceAs (Decidable ((isBlank c = true → inside = false) ∧
        Compact (if isQuote c then !inside else inside) rest))

namespace Compact

/-- A word without blanks that closes its groups can stand in front. -/
theorem behind {inside : Bool} {word rest : List Char} (compact : Compact false rest)
    (quoted : Quoted inside word) (free : ∀ c ∈ word, isBlank c = false) :
    Compact inside (word ++ rest) := by
  induction word generalizing inside with
  | nil =>
      have outside : inside = false := quoted
      rw [outside]
      exact compact
  | cons c more ih =>
      obtain ⟨first, others⟩ := List.forall_mem_cons.mp free
      constructor
      · intro blank
        rw [first] at blank
        cases blank
      · exact ih quoted.2 others

theorem of_blank {c : Char} {rest : List Char} (compact : Compact false rest)
    (blank : isBlank c = true) : Compact false (c :: rest) := by
  constructor
  · exact fun _ => rfl
  · rw [not_quote_blank blank]
    exact compact

theorem after_blank {inside : Bool} {c : Char} {rest : List Char}
    (compact : Compact inside (c :: rest)) (blank : isBlank c = true) : Compact false rest := by
  have further := compact.2
  rw [not_quote_blank blank, compact.1 blank] at further
  exact further

/-- The word at the start of the text closes its groups. -/
theorem word {inside : Bool} {word rest : List Char} (compact : Compact inside (word ++ rest))
    (free : ∀ c ∈ word, isBlank c = false) (ends : EndsWord rest) :
    Quoted inside word ∧ Compact false rest := by
  induction word generalizing inside with
  | nil =>
      have outside : inside = false := by
        cases rest with
        | nil => exact compact
        | cons c more => exact compact.1 (ends c rfl)
      rw [outside] at compact ⊢
      exact ⟨rfl, compact⟩
  | cons c more ih =>
      obtain ⟨first, others⟩ := List.forall_mem_cons.mp free
      obtain ⟨quoted, left⟩ := ih compact.2 others
      refine ⟨⟨?_, quoted⟩, left⟩
      intro blank
      rw [first] at blank
      cases blank

end Compact

/-- A text is its first word, which may be empty, and a rest that starts with a blank. -/
theorem exists_first_word (text : List Char) : ∃ word rest, text = word ++ rest ∧
    (∀ c ∈ word, isBlank c = false) ∧ EndsWord rest := by
  have parts := @List.takeWhile_append_dropWhile _ (fun c => !isBlank c) text
  refine ⟨_, _, parts.symm, ?_, ?_⟩
  · intro c member
    simpa using List.mem_takeWhile_imp member
  · intro c first
    simpa using head_drop_fails first

theorem words_of_compact {text : List Char} (compact : Compact false text) :
    words text = blankWords text := by
  induction size : text.length using Nat.strong_induction_on generalizing text with
  | _ size ih =>
      obtain ⟨word, rest, rfl, free, ends⟩ := exists_first_word text
      obtain ⟨quoted, left⟩ := compact.word free ends
      cases word with
      | cons first others =>
          rw [words_append (by simp) quoted ends, blank_words_word (by simp) free ends]
          congr 1
          apply ih rest.length _ left rfl
          simp only [List.length_append, List.length_cons] at size
          omega
      | nil =>
          cases rest with
          | nil => simp [words, blankWords, cut]
          | cons c more =>
              have blank := ends c rfl
              rw [List.nil_append, words_blank blank, blank_words_blank blank]
              apply ih more.length _ (left.after_blank blank) rfl
              simp only [List.length_append, List.length_cons, List.length_nil] at size
              omega

theorem compact_of_words {text : List Char} (paired : text.countP isQuote % 2 = 0)
    (free : ∀ word ∈ words text, ∀ c ∈ word, isBlank c = false) : Compact false text := by
  fun_induction words text with
  | case1 => rfl
  | case2 first others rest taken ih =>
      rcases blank_or_lone_of_skipped taken with blank | ⟨rfl, none⟩
      · apply Compact.of_blank _ blank
        apply ih _ free
        rw [List.countP_cons_of_neg (by simp [not_quote_blank blank])] at paired
        exact paired
      · rw [List.countP_cons_of_pos rfl, count_quote_free none] at paired
        cases paired
  | case3 first others start more rest taken shorter ih =>
      have split := take_word_append_rest (first :: others)
      have quoted := take_word_quoted (first :: others)
      rw [taken] at split quoted
      obtain ⟨wordFree, othersFree⟩ := List.forall_mem_cons.mp free
      rw [← split] at paired ⊢
      apply Compact.behind _ quoted wordFree
      apply ih _ othersFree
      have even : (start :: more).countP isQuote % 2 = 0 := quoted.count
      rw [List.countP_append] at paired
      dsimp only at paired
      omega

/-- The two cuts of a text agree exactly when its quotes pair up and hold no blank. -/
theorem words_eq_blank_words_iff (text : List Char) :
    words text = blankWords text ↔ Compact false text := by
  constructor
  · intro same
    have kept := words_kept text
    rw [same, visible_blank_words] at kept
    apply compact_of_words
    · generalize seen : visible text = all at kept
      cases kept with
      | whole paired => exact paired
      | @unmatched front back split lone =>
          rw [split] at seen
          have sizes := congrArg List.length seen
          have quote := visible_cons (by decide : isBlank '"' = false) back
          simp [quote] at sizes
    · intro word member
      rw [same] at member
      exact free_of_mem_blank_words member
  · exact words_of_compact

section

variable {c : Char} (blank : isBlank c = true)
include blank

theorem plain_snoc (text : List Char) :
    (text ++ [c]).takeWhile isPlain = text.takeWhile isPlain ∧
      (text ++ [c]).dropWhile isPlain = text.dropWhile isPlain ++ [c] := by
  have stops : isPlain c = false := by simp [isPlain, blank]
  induction text with
  | nil => simp [stops]
  | cons first others ih =>
      cases plain : isPlain first with
      | true => simp [plain, ih]
      | false => simp [plain]

theorem take_group_snoc {text : List Char} (none : takeGroup? text = none) :
    takeGroup? (text ++ [c]) = Option.none := by
  cases found : takeGroup? (text ++ [c]) with
  | none => rfl
  | some group =>
      -- A blank ends no group, so a group of the longer text is one of the text.
      obtain ⟨before, inside, after⟩ := group
      obtain ⟨plain, free⟩ := take_group_plain found
      have whole := take_group_append found
      rcases List.eq_nil_or_concat after with rfl | ⟨front, last, rfl⟩
      · have ends : (before ++ '"' :: inside) ++ ['"'] = text ++ [c] := by simpa using whole
        have same := (List.append_inj' ends rfl).2
        cases same
        cases blank
      · have ends : (before ++ '"' :: (inside ++ '"' :: front)) ++ [last] = text ++ [c] := by
          simpa using whole
        rw [← (List.append_inj' ends rfl).1, take_group_some plain free] at none
        cases none

theorem take_word_snoc (text : List Char) :
    takeWord (text ++ [c]) = ((takeWord text).1, (takeWord text).2 ++ [c]) := by
  fun_induction takeWord text with
  | case1 text before inside after found more rest taken ih =>
      obtain ⟨plain, free⟩ := take_group_plain found
      have longer : takeGroup? (text ++ [c]) = some (before, inside, after ++ [c]) := by
        rw [← take_group_append found]
        simpa using take_group_some plain free (after ++ [c])
      rw [takeWord]
      split
      · next other held behind again =>
          rw [longer] at again
          cases again
          rw [ih, taken]
      · next again =>
          rw [longer] at again
          cases again
  | case2 text found =>
      rw [takeWord]
      split
      · next again =>
          rw [take_group_snoc blank found] at again
          cases again
      · rw [(plain_snoc blank text).1, (plain_snoc blank text).2]

theorem words_snoc (text : List Char) : words (text ++ [c]) = words text := by
  fun_induction words text with
  | case1 => rw [List.nil_append, words_blank blank, words]
  | case2 first others rest taken ih =>
      have longer := take_word_snoc blank (first :: others)
      rw [taken, List.cons_append] at longer
      rw [List.cons_append, words]
      split
      · exact ih
      · next again =>
          rw [longer] at again
          cases again
  | case3 first others start more rest taken shorter ih =>
      have longer := take_word_snoc blank (first :: others)
      rw [taken, List.cons_append] at longer
      rw [List.cons_append, words]
      split
      · next again =>
          rw [longer] at again
          cases again
      · next again =>
          rw [longer] at again
          cases again
          rw [ih]

end

theorem words_trim_end (text : List Char) : words (trimEnd text) = words text := by
  induction text using List.reverseRecOn with
  | nil => rfl
  | append_singleton front c ih =>
      cases blank : isBlank c with
      | true =>
          have shorter : trimEnd (front ++ [c]) = trimEnd front := by simp [trimEnd, blank]
          rw [shorter, ih, words_snoc blank]
      | false => rw [trim_end_append blank, trimEnd, List.reverse_nil, List.dropWhile_nil, List.reverse_nil]

/-- Whether a text can stand in a head: it has neither a terminator nor a brace. -/
def Unbraced (text : List Char) : Prop :=
  ∀ c ∈ text, isTerminator c = false ∧ c ≠ '\x7b' ∧ c ≠ '\x7d'

instance (text : List Char) : Decidable (Unbraced text) :=
  List.decidableBAll _ text

theorem Unbraced.append {front back : List Char} (first : Unbraced front) (second : Unbraced back) :
    Unbraced (front ++ back) := by
  intro c member
  rcases List.mem_append.mp member with before | behind
  · exact first c before
  · exact second c behind

theorem Unbraced.no_opening {text : List Char} (unbraced : Unbraced text) : '\x7b' ∉ text :=
  fun member => (unbraced _ member).2.1 rfl

/-- Text in front of an unbroken one keeps it unbroken. -/
theorem Unbraced.unbroken {front rest : List Char} (unbraced : Unbraced front) {depth : Nat}
    (unbroken : Unbroken depth rest) : Unbroken depth (front ++ rest) := by
  induction front with
  | nil => exact unbroken
  | cons c more ih =>
      obtain ⟨⟨unended, opens, closes⟩, others⟩ := List.forall_mem_cons.mp unbraced
      constructor
      · intro ends
        rw [unended] at ends
        cases ends
      · rw [brace_depth_of_ne opens closes]
        exact ih others

theorem Unbraced.unbroken_whole {text : List Char} (unbraced : Unbraced text) (depth : Nat) :
    Unbroken depth text := by
  have all : Unbroken depth (text ++ []) := unbraced.unbroken trivial
  rwa [List.append_nil] at all

theorem Unbraced.depth {front : List Char} (unbraced : Unbraced front) (depth : Nat) :
    front.foldl braceDepth depth = depth :=
  (Sealed.of_free unbraced).depth

theorem not_blank_of_plain {text : List Char} (plain : ∀ c ∈ text, isPlain c = true) :
    ∀ c ∈ text, isBlank c = false := by
  intro c member
  have parts := plain c member
  simp only [isPlain, Bool.and_eq_true, Bool.not_eq_true'] at parts
  exact parts.2

section

variable {command : List Char} (holds : command ≠ []) (plain : ∀ c ∈ command, isPlain c = true)
include holds plain

theorem trim_command (rest : List Char) :
    trim (command ++ ' ' :: rest) = command ++ trimEnd (' ' :: rest) := by
  have solid := not_blank_of_plain plain
  obtain rfl | ⟨front, last, rfl⟩ := List.eq_nil_or_concat command
  · exact absurd rfl holds
  · rw [List.concat_eq_append] at solid ⊢
    have starts : ∀ c ∈ (front ++ last :: ' ' :: rest).head?, isBlank c = false := by
      intro c first
      apply solid
      cases front with
      | nil =>
          cases first
          exact List.mem_cons_self
      | cons d more =>
          cases first
          exact List.mem_cons_self
    rw [List.append_assoc, List.singleton_append, trim_append starts (solid last (by simp)),
      List.append_assoc, List.singleton_append]

/-- A statement with a command that takes no block has the words behind it as arguments. -/
theorem of_piece_command (unblocked : ¬blockCommands.contains (String.ofList command) = true)
    (rest : List Char) (line : Nat) :
    ofPiece (trim (command ++ ' ' :: rest)) line =
      .ok ⟨String.ofList command, (words rest).map String.ofList, line⟩ := by
  have behind : EndsWord (trimEnd (' ' :: rest)) := (EndsWord.of_blank is_blank_space rest).trim_end
  have quoted : Quoted false (command ++ []) := Quoted.plain_append rfl plain
  rw [List.append_nil] at quoted
  have first : (blankWords (command ++ trimEnd (' ' :: rest))).headD [] = command :=
    head_blank_words holds (not_blank_of_plain plain) behind
  have all : words (command ++ trimEnd (' ' :: rest)) = command :: words rest := by
    rw [words_append holds quoted behind, words_trim_end, words_blank is_blank_space]
  rw [trim_command holds plain, ofPiece, first, if_neg unblocked, ofWords, all]
  rfl

theorem pieces_of_command {rest : List Char} (unbroken : Unbroken 0 (command ++ ' ' :: rest)) :
    pieces (command ++ ' ' :: rest) = [trim (command ++ ' ' :: rest)] := by
  apply pieces_of_unbroken unbroken
  rw [trim_command holds plain]
  exact List.append_ne_nil_of_left_ne_nil holds _

end

/-- A plain statement has the words of its expression as arguments. -/
theorem parse_log {expression : List Char} (unbraced : Unbraced expression) :
    ofPieces 1 (pieces ('l' :: 'o' :: 'g' :: ' ' :: expression)) =
      .ok [⟨"log", (words expression).map String.ofList, 1⟩] := by
  have unbroken : Unbroken 0 (['l', 'o', 'g'] ++ ' ' :: expression) :=
    @Unbraced.unbroken ['l', 'o', 'g', ' '] _ (by decide) 0 (unbraced.unbroken_whole 0)
  have plain : ∀ c ∈ ['l', 'o', 'g'], isPlain c = true := List.all_eq_true.mp (by decide)
  have some : ['l', 'o', 'g'] ≠ [] := List.cons_ne_nil _ _
  have piece := pieces_of_command some plain unbroken
  have read := of_piece_command some plain (by decide) expression 1
  exact (congrArg (ofPieces 1) piece).trans (of_pieces_cons read rfl)

/-- A text is unbroken, or it is up to its first terminator outside all braces. -/
theorem unbroken_or_break (depth : Nat) (text : List Char) :
    Unbroken depth text ∨ ∃ front c back, text = front ++ c :: back ∧ Unbroken depth front ∧
      front.foldl braceDepth depth = 0 ∧ isTerminator c = true := by
  induction text generalizing depth with
  | nil => exact .inl trivial
  | cons c rest ih =>
      by_cases breaks : isTerminator c = true ∧ depth = 0
      · exact .inr ⟨[], c, rest, rfl, trivial, breaks.2, breaks.1⟩
      · have inside (ends : isTerminator c = true) : 0 < depth := by
          apply Nat.pos_of_ne_zero
          exact fun none => breaks ⟨ends, none⟩
        rcases ih (braceDepth depth c) with whole | ⟨front, d, back, same, unbroken, closed, ends⟩
        · exact .inl ⟨inside, whole⟩
        · right
          refine ⟨c :: front, d, back, ?_, ⟨inside, unbroken⟩, closed, ends⟩
          rw [same, List.cons_append]

theorem closing_of_depth {text : List Char} {depth : Nat} (inside : 0 < depth)
    (closed : text.foldl braceDepth depth = 0) : '\x7d' ∈ text := by
  induction text generalizing depth with
  | nil =>
      have none : depth = 0 := closed
      omega
  | cons c rest ih =>
      by_cases closes : c = '\x7d'
      · rw [closes]
        exact List.mem_cons_self
      · apply List.mem_cons_of_mem
        apply ih _ closed
        rw [braceDepth, if_neg closes]
        split
        · omega
        · exact inside

theorem closing_trim_end {text : List Char} (closes : '\x7d' ∈ text) : '\x7d' ∈ trimEnd text := by
  have seen : '\x7d' ∈ visible text := List.mem_filter.mpr ⟨closes, by decide⟩
  rw [← visible_trim_end] at seen
  exact (List.mem_filter.mp seen).1

/-- The first statement of a text that starts with a head and a brace has them both, and a closing
brace behind them. -/
theorem pieces_of_head {head : List Char} (unbraced : Unbraced head)
    (starts : ∀ c ∈ head.head?, isBlank c = false) (body : List Char) :
    ∃ inner others, '\x7d' ∈ inner ∧
      pieces (head ++ '\x7b' :: (body ++ ['\x7d'])) = (head ++ '\x7b' :: inner) :: others := by
  have solid : isBlank '\x7b' = false := by decide
  have begins (rest : List Char) : ∀ c ∈ (head ++ '\x7b' :: rest).head?, isBlank c = false := by
    intro c first
    cases head with
    | nil =>
        cases first
        exact solid
    | cons d more => exact starts c first
  have alone (inner : List Char) (unbroken : Unbroken 1 inner) :
      pieces (head ++ '\x7b' :: inner) = [head ++ '\x7b' :: trimEnd inner] := by
    have trimmed := trim_append (begins inner) solid
    rw [← trimmed]
    apply pieces_of_unbroken
    · apply unbraced.unbroken
      exact ⟨fun ends => absurd ends (by decide), unbroken⟩
    · rw [trimmed]
      simp
  rcases unbroken_or_break 1 (body ++ ['\x7d']) with
    unbroken | ⟨inner, c, back, same, unbroken, closed, ends⟩
  · exact ⟨_, [], closing_trim_end (by simp), alone _ unbroken⟩
  · have matching : (head ++ '\x7b' :: inner).foldl braceDepth 0 = 0 := by
      rw [List.foldl_append, unbraced.depth, List.foldl_cons]
      exact closed
    have split : head ++ '\x7b' :: (body ++ ['\x7d']) = head ++ '\x7b' :: inner ++ c :: back := by
      rw [same]
      simp
    refine ⟨_, pieces back, closing_trim_end (closing_of_depth Nat.one_pos closed), ?_⟩
    rw [split, pieces_append matching ends, alone inner unbroken]
    rfl

/-- The text `command expression ` in front of a block. -/
def headText (command : String) (expression : List Char) : List Char :=
  command.toList ++ ' ' :: (expression ++ [' '])

section

variable {command : String} (known : command ∈ blockCommands) {expression : List Char}
include known

theorem unbraced_head (unbraced : Unbraced expression) : Unbraced (headText command expression) := by
  have space : Unbraced [' '] := by decide
  have word : Unbraced command.toList := by
    intro c member
    obtain ⟨-, -, opens, closes, -⟩ := block_command_free known c member
    exact ⟨(commandWord command known).not_terminator member, opens, closes⟩
  exact word.append (space.append (unbraced.append space))

theorem blank_words_head :
    blankWords (headText command expression) = command.toList :: blankWords expression := by
  have holds : command.toList ≠ [] := (commandWord command known).nonempty
  rw [headText, blank_words_append holds (fun c member => (block_command_free known c member).2.1)
    is_blank_space, blank_words_snoc is_blank_space]

theorem takes_block_head {inner : List Char} (closes : '\x7d' ∈ inner) :
    TakesBlock (headText command expression ++ '\x7b' :: inner) := by
  have first : (blankWords (headText command expression ++ '\x7b' :: inner)).headD [] =
      command.toList := by
    rw [headText, List.append_assoc]
    exact head_blank_words (commandWord command known).nonempty
      (fun c member => (block_command_free known c member).2.1) (.of_blank is_blank_space _)
  refine ⟨?_, by simp, by simp [closes]⟩
  rw [first, String.ofList_toList]
  exact known

/-- The head of a block is cut at all its blanks. -/
theorem of_piece_head (unbraced : Unbraced expression) {inner : List Char} (closes : '\x7d' ∈ inner)
    (line : Nat) :
    ∃ body, ofPiece (headText command expression ++ '\x7b' :: inner) line =
      .ok ⟨command, (blankWords expression).map String.ofList ++ [openMark, body, closeMark],
        line⟩ := by
  obtain ⟨before, after, same, last⟩ := last_of_mem closes
  have opens := first_opening_before (unbraced_head known unbraced).no_opening inner
  have closing := last_closing_behind last (headText command expression ++ '\x7b' :: before)
  rw [List.append_assoc, List.cons_append, ← same] at closing
  rw [of_piece_block_eq (takes_block_head known closes) opens closing, ofBlock, List.take_left,
    blank_words_head known, List.map_cons, String.ofList_toList]
  exact ⟨_, rfl⟩

end

theorem open_of_head {command body : String} {expression : List Char} (unbraced : Unbraced expression)
    (line : Nat) :
    Statement.open? ⟨command, (blankWords expression).map String.ofList ++ [openMark, body, closeMark],
      line⟩ = some (blankWords expression).length := by
  have none : ((blankWords expression).map String.ofList).findIdx? (· == openMark) = none := by
    rw [List.findIdx?_eq_none_iff]
    intro token member
    obtain ⟨word, listed, rfl⟩ := List.mem_map.mp member
    have other : String.ofList word ≠ openMark := by
      intro same
      have chars : word = ['\x7b'] := String.ofList_injective same
      apply unbraced.no_opening
      apply (infix_blank_words listed).subset
      simp [chars]
    simpa using other
  rw [open?, List.findIdx?_append, none]
  simp [List.findIdx?_cons]

theorem to_list_block (command expression body : String) :
    (command ++ " " ++ expression ++ " \x7b " ++ body ++ " \x7d").toList =
      headText command expression.toList ++ '\x7b' :: (' ' :: (body.toList ++ [' ']) ++ ['\x7d']) := by
  simp [headText]

section

variable {command expression : String} (known : command ∈ blockCommands)
  (unbraced : Unbraced expression.toList) (body : String)
include known unbraced

/-- The first statement of a block's text has the parts of the expression between blanks in front of
its opening brace, whatever the body is. -/
theorem parse_block_head {statements : List Statement}
    (read : parse (command ++ " " ++ expression ++ " \x7b " ++ body ++ " \x7d") = .ok statements) :
    ∃ block others opening, statements = block :: others ∧ block.command = command ∧
      block.open? = some opening ∧
      block.arguments.take opening = (blankWords expression.toList).map String.ofList := by
  have starts : ∀ c ∈ (headText command expression.toList).head?, isBlank c = false := by
    obtain ⟨first, more, same⟩ := List.exists_cons_of_ne_nil (commandWord command known).nonempty
    have letters : command.toList = first :: more := same
    intro c begins
    rw [headText, letters] at begins
    cases begins
    apply (block_command_free known first _).2.1
    rw [letters]
    exact List.mem_cons_self
  obtain ⟨inner, others, closes, cuts⟩ := pieces_of_head (unbraced_head known unbraced) starts
    (' ' :: (body.toList ++ [' ']))
  obtain ⟨inside, block⟩ := of_piece_head known unbraced closes 1
  rw [parse, to_list_block, cuts, ofPieces, block] at read
  split at read
  · next failed => cases failed
  · next first found =>
      cases found
      split at read
      · cases read
      · next later _ =>
          cases read
          refine ⟨_, later, _, rfl, rfl, open_of_head unbraced 1, ?_⟩
          rw [← List.length_map String.ofList, List.take_left]

/-- A body with matching braces makes one statement with its head. -/
theorem parse_block_of_sealed (enclosed : Sealed 1 1 body.toList) :
    ∃ block, parse (command ++ " " ++ expression ++ " \x7b " ++ body ++ " \x7d") = .ok [block] := by
  have spaced : Sealed 1 1 (' ' :: (body.toList ++ [' '])) :=
    sealed_space (enclosed.append (sealed_space rfl))
  have whole : Sealed 0 0 (headText command expression.toList ++
      '\x7b' :: (' ' :: (body.toList ++ [' ']) ++ ['\x7d'])) :=
    (Sealed.of_free (unbraced_head known unbraced)).append spaced.braces
  have trimmed : Trimmed (headText command expression.toList ++
      '\x7b' :: (' ' :: (body.toList ++ [' ']) ++ ['\x7d'])) := by
    have split : headText command expression.toList ++
        '\x7b' :: (' ' :: (body.toList ++ [' ']) ++ ['\x7d']) = command.toList ++
          (' ' :: (expression.toList ++ [' ']) ++ '\x7b' :: ' ' :: (body.toList ++ [' ']) ++
            ['\x7d']) := by
      simp [headText]
    rw [split]
    exact trimmed_around (commandWord command known).trimmed (commandWord command known).nonempty
      (trimmed_of_free (List.forall_mem_singleton.mpr (by decide))) (by decide) _
  have one := pieces_of_sealed whole trimmed (by simp)
  have closes : '\x7d' ∈ ' ' :: (body.toList ++ [' ']) ++ ['\x7d'] := by simp
  obtain ⟨inside, block⟩ := of_piece_head known unbraced closes 1
  rw [parse, to_list_block, one]
  exact ⟨_, of_pieces_cons block rfl⟩

end

/-- The tokens of an expression in front of a block are those it has in a plain statement exactly
when its quotes pair up and hold no blank. -/
theorem head_tokens_eq_iff {command expression : String} (known : command ∈ blockCommands)
    (unbraced : Unbraced expression.toList) (body : String) :
    ∃ logged, parse ("log " ++ expression) = .ok [logged] ∧ logged.arguments = tokens expression ∧
      (∀ statements,
        parse (command ++ " " ++ expression ++ " \x7b " ++ body ++ " \x7d") = .ok statements →
        ∃ block others opening, statements = block :: others ∧ block.command = command ∧
          block.open? = some opening ∧
          (block.arguments.take opening = logged.arguments ↔ Compact false expression.toList)) ∧
      (Sealed 1 1 body.toList →
        ∃ block, parse (command ++ " " ++ expression ++ " \x7b " ++ body ++ " \x7d") =
          .ok [block]) := by
  refine ⟨⟨"log", tokens expression, 1⟩, ?_, rfl, ?_, ?_⟩
  · rw [parse, String.toList_append]
    exact parse_log unbraced
  · intro statements read
    obtain ⟨block, others, opening, all, named, opens, head⟩ :=
      parse_block_head known unbraced body read
    refine ⟨block, others, opening, all, named, opens, ?_⟩
    rw [head, tokens, ← words_eq_blank_words_iff]
    constructor
    · intro same
      have injective : Function.Injective String.ofList := fun _ _ => String.ofList_injective
      exact (List.map_injective_iff.mpr injective same).symm
    · intro same
      rw [same]
  · exact parse_block_of_sealed known unbraced body

/-- A condition with a quoted word, in front of a body of two statements. -/
theorem head_tokens_eq_iff_quoted :
    ∃ block opening,
      parse ("while" ++ " " ++ "ref:n == \"ab\"" ++ " \x7b " ++ "log 1; break" ++ " \x7d") =
        .ok [block] ∧
      block.open? = some opening ∧ block.arguments.take opening = ["ref:n", "==", "\"ab\""] := by
  have unbraced : Unbraced "ref:n == \"ab\"".toList := by decide +kernel
  obtain ⟨logged, -, arguments, heads, accepted⟩ :=
    head_tokens_eq_iff (by decide : "while" ∈ blockCommands) unbraced "log 1; break"
  obtain ⟨block, read⟩ := accepted (by decide +kernel)
  obtain ⟨first, others, opening, all, -, opens, agree⟩ := heads _ read
  cases all
  refine ⟨block, opening, read, opens, ?_⟩
  rw [agree.mpr (by decide +kernel), arguments]
  decide +kernel

/-- A quoted blank divides a token in front of a block and nowhere else. -/
theorem head_tokens_differ_at_quoted_blank :
    ¬∀ (command expression body : String) (block logged : Statement) (opening : Nat),
      command ∈ ["if", "loop", "while"] → Unbraced expression.toList → tokens expression ≠ [] →
      parse (command ++ " " ++ expression ++ " \x7b " ++ body ++ " \x7d") = .ok [block] →
      parse ("log " ++ expression) = .ok [logged] → block.open? = some opening →
      block.arguments.take opening = logged.arguments := by
  intro agree
  have readBlock : parse ("if" ++ " " ++ "ref:name == \"a b\"" ++ " \x7b " ++ "log 1" ++ " \x7d") =
      .ok [⟨"if", ["ref:name", "==", "\"a", "b\"", "\x7b", "log 1", "\x7d"], 1⟩] := by
    decide +kernel
  have readLogged : parse ("log " ++ "ref:name == \"a b\"") =
      .ok [⟨"log", ["ref:name", "==", "\"a b\""], 1⟩] := by
    decide +kernel
  have same := agree _ _ _ _ _ 4 (by decide) (by decide +kernel) (by decide +kernel) readBlock
    readLogged (by decide)
  exact absurd same (by decide)

end Statement

end ScriptSandbox
