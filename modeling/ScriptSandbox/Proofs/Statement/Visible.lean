import Mathlib.Data.List.TakeWhile
import ScriptSandbox.Proofs.Statement.Parts
import ScriptSandbox.Proofs.Statement.RoundTrip

/-!
What the reading of a statement keeps of its text. Blanks apart, a plain statement keeps every
character but a quote without a partner. A block keeps its text up to the last closing brace; when
that brace stands before the first opening one, it keeps its text up to the opening brace and what
lies between the two comes twice.
-/

namespace ScriptSandbox

namespace Text

/-- The characters of a text that are not blank. -/
def visible (text : List Char) : List Char :=
  text.filter fun c => !isBlank c

@[simp] theorem visible_nil : visible [] = [] :=
  rfl

@[simp] theorem visible_append (front back : List Char) :
    visible (front ++ back) = visible front ++ visible back :=
  List.filter_append front back

theorem visible_blank {c : Char} (blank : isBlank c = true) (rest : List Char) :
    visible (c :: rest) = visible rest := by
  simp [visible, blank]

theorem visible_cons {c : Char} (shows : isBlank c = false) (rest : List Char) :
    visible (c :: rest) = c :: visible rest := by
  simp [visible, shows]

@[simp] theorem visible_opening (rest : List Char) :
    visible ('\x7b' :: rest) = '\x7b' :: visible rest :=
  visible_cons (by decide) rest

@[simp] theorem visible_closing (rest : List Char) :
    visible ('\x7d' :: rest) = '\x7d' :: visible rest :=
  visible_cons (by decide) rest

theorem visible_trim_start (text : List Char) : visible (trimStart text) = visible text := by
  induction text with
  | nil => rfl
  | cons c rest ih =>
      cases blank : isBlank c with
      | false => simp [trimStart, blank]
      | true =>
          rw [visible_blank blank, ← ih]
          simp [trimStart, blank]

theorem visible_trim_end (text : List Char) : visible (trimEnd text) = visible text := by
  have turned (text : List Char) : visible text.reverse = (visible text).reverse :=
    List.filter_reverse
  have same := visible_trim_start text.reverse
  rw [trimStart, turned] at same
  rw [trimEnd, turned, same, List.reverse_reverse]

theorem visible_trim (text : List Char) : visible (trim text) = visible text := by
  rw [trim, visible_trim_end, visible_trim_start]

theorem visible_eq_nil_iff {text : List Char} :
    visible text = [] ↔ ∀ c ∈ text, isBlank c = true := by
  simp [visible]

theorem fold_cut_visible (text : List Char) (done : List (List Char)) (current : List Char) :
    visible (((text.foldl (cutStep isBlank) (done, current)).2.reverse ::
        (text.foldl (cutStep isBlank) (done, current)).1).reverse.flatten) =
      visible ((current.reverse :: done).reverse.flatten ++ text) := by
  induction text generalizing done current with
  | nil => simp
  | cons c rest ih =>
      rw [List.foldl_cons, cutStep]
      split
      · next blank =>
          rw [ih]
          simp [visible_blank blank]
      · rw [ih]
        simp

theorem visible_blank_words (text : List Char) : visible (blankWords text).flatten = visible text := by
  have full : (blankWords text).flatten = (cut isBlank text).flatten := by
    rw [blankWords]
    exact List.flatten_filter_not_isEmpty
  have cuts := fold_cut_visible text [] []
  rw [full]
  exact cuts

end Text

namespace Statement

open Text

/-- The characters of the command and the arguments of a statement that are not blank. -/
def shown (statement : Statement) : List Char :=
  visible ((statement.command :: statement.arguments).flatMap String.toList)

/-- The quote between two texts has no partner: those before it pair up and none stands behind it. -/
structure Unmatched (front back : List Char) : Prop where
  paired : front.countP isQuote % 2 = 0
  last : ∀ c ∈ back, isQuote c = false

/-- What words keep of a text: all of it, or all but a quote without a partner. -/
inductive Kept (text : List Char) : List Char → Prop
  | whole (paired : text.countP isQuote % 2 = 0) : Kept text (visible text)
  | unmatched {front back : List Char} (same : text = front ++ '"' :: back)
      (lone : Unmatched front back) : Kept text (visible (front ++ back))

/-- Text with all its quotes in pairs can stand in front. -/
theorem Kept.behind {front text seen : List Char} (paired : front.countP isQuote % 2 = 0)
    (kept : Kept text seen) : Kept (front ++ text) (visible front ++ seen) := by
  cases kept with
  | whole more =>
      rw [← visible_append]
      apply Kept.whole
      rw [List.countP_append]
      omega
  | @unmatched before back same lone =>
      rw [← visible_append, ← List.append_assoc]
      apply Kept.unmatched
      · rw [same, List.append_assoc]
      · constructor
        · rw [List.countP_append]
          have others := lone.paired
          omega
        · exact lone.last

theorem take_group_plain {text before inside after : List Char}
    (found : takeGroup? text = some (before, inside, after)) :
    (∀ c ∈ before, isPlain c = true) ∧ ∀ c ∈ inside, isQuote c = false := by
  unfold takeGroup? at found
  split at found
  · next afterQuote opened =>
      split at found
      · next last behind closed =>
          simp only [Option.some.injEq, Prod.mk.injEq] at found
          obtain ⟨rfl, rfl, -⟩ := found
          constructor
          · exact fun c member => List.mem_takeWhile_imp member
          · intro c member
            simpa using List.mem_takeWhile_imp member
      · cases found
  · cases found

/-- The word taken from the start of a text closes all its groups. -/
theorem take_word_quoted (text : List Char) : Quoted false (takeWord text).1 := by
  fun_induction takeWord text with
  | case1 text before inside after found more rest taken ih =>
      rw [taken] at ih
      obtain ⟨plain, free⟩ := take_group_plain found
      apply Quoted.plain_append _ plain
      constructor
      · exact fun blank => absurd blank (by decide)
      · exact ih.group_append free
  | case2 text found =>
      have plain : ∀ c ∈ text.takeWhile isPlain, isPlain c = true :=
        fun c member => List.mem_takeWhile_imp member
      have ends : Quoted false [] := rfl
      have quoted := ends.plain_append plain
      rwa [List.append_nil] at quoted

theorem Quoted.count {inside : Bool} {text : List Char} (quoted : Quoted inside text) :
    (text.countP isQuote + inside.toNat) % 2 = 0 := by
  induction text generalizing inside with
  | nil =>
      have outside : inside = false := quoted
      rw [outside]
      rfl
  | cons c rest ih =>
      have further := ih quoted.2
      cases quote : isQuote c with
      | false =>
          rw [quote] at further
          rw [List.countP_cons_of_neg (by simp [quote])]
          exact further
      | true =>
          rw [quote] at further
          rw [List.countP_cons_of_pos quote]
          cases inside with
          | false =>
              have closes : (rest.countP isQuote + 1) % 2 = 0 := further
              exact closes
          | true =>
              have closes : (rest.countP isQuote + 0) % 2 = 0 := further
              show (rest.countP isQuote + 1 + 1) % 2 = 0
              omega

theorem not_quote_blank {c : Char} (blank : isBlank c = true) : isQuote c = false := by
  cases quote : isQuote c with
  | false => rfl
  | true =>
      rw [not_blank_quote quote] at blank
      cases blank

/-- Without a group, the plain characters at the start of a text end at a blank or at a quote that no
other one follows. -/
theorem rest_of_no_group {text : List Char} (none : takeGroup? text = none) :
    EndsWord (text.dropWhile isPlain) ∨
      ∃ back, text.dropWhile isPlain = '"' :: back ∧ ∀ c ∈ back, isQuote c = false := by
  unfold takeGroup? at none
  split at none
  · next afterQuote opened =>
      split at none
      · cases none
      · next ended =>
          refine .inr ⟨afterQuote, opened, ?_⟩
          intro c member
          simpa using List.dropWhile_eq_nil_iff.mp ended c member
  · next unopened =>
      left
      intro c first
      obtain ⟨back, starts⟩ := List.head?_eq_some_iff.mp first
      have stops : isPlain c = false := head_drop_fails first
      cases quote : isQuote c with
      | false => simpa [isPlain, quote] using stops
      | true =>
          cases beq_iff_eq.mp quote
          exact absurd starts (unopened back)

/-- A character that starts no word is a blank or a quote that no other one follows. -/
theorem blank_or_lone_of_skipped {first : Char} {others rest : List Char}
    (taken : takeWord (first :: others) = ([], rest)) :
    isBlank first = true ∨ first = '"' ∧ ∀ c ∈ others, isQuote c = false := by
  unfold takeWord at taken
  split at taken
  · simp at taken
  · next found =>
      have stops : isPlain first = false := by
        cases plain : isPlain first with
        | false => rfl
        | true => simp [plain] at taken
      have rests := rest_of_no_group found
      rw [List.dropWhile_cons_of_neg (by simp [stops])] at rests
      rcases rests with ends | ⟨back, same, free⟩
      · exact .inl (ends first rfl)
      · cases same
        exact .inr ⟨rfl, free⟩

theorem count_quote_free {text : List Char} (free : ∀ c ∈ text, isQuote c = false) :
    text.countP isQuote = 0 := by
  rw [List.countP_eq_zero]
  intro c member
  simp [free c member]

theorem words_kept (text : List Char) : Kept text (visible (words text).flatten) := by
  fun_induction words text with
  | case1 => exact .whole rfl
  | case2 first others rest taken ih =>
      rcases blank_or_lone_of_skipped taken with blank | ⟨rfl, free⟩
      · have paired : [first].countP isQuote % 2 = 0 := by
          simp [not_quote_blank blank]
        have kept := ih.behind paired
        rw [visible_blank blank] at kept
        exact kept
      · -- No quote follows, so nothing of the rest is lost as well.
        generalize visible (words others).flatten = seen at ih
        cases ih with
        | whole paired => exact @Kept.unmatched _ [] others rfl ⟨rfl, free⟩
        | @unmatched front back same lone =>
            have quote := free '"' (by simp [same])
            cases quote
  | case3 first others start more rest taken shorter ih =>
      have split := take_word_append_rest (first :: others)
      have quoted := take_word_quoted (first :: others)
      rw [taken] at split quoted
      have kept := ih.behind quoted.count
      rw [split] at kept
      rw [List.flatten_cons, visible_append]
      exact kept

theorem flat_map_of_list (parts : List (List Char)) :
    (parts.map String.ofList).flatMap String.toList = parts.flatten := by
  rw [List.flatMap_map]
  simp [List.flatMap_def, String.toList_ofList]

theorem of_words_shown {text : List Char} {line : Nat} {statement : Statement}
    (read : ofWords text line = .ok statement) : statement.shown = visible (words text).flatten := by
  unfold ofWords at read
  split at read
  · next command arguments same =>
      cases read
      rw [shown, ← same, flat_map_of_list]
  · cases read

theorem of_block_shown (text : List Char) (opening closing line : Nat) :
    (ofBlock text opening closing line).shown =
      visible (text.take opening) ++
        '\x7b' :: (visible (enclosed text opening closing) ++ ['\x7d']) := by
  have head (parts : List String) :
      (parts.headD "" :: parts.tail).flatMap String.toList = parts.flatMap String.toList := by
    cases parts with
    | nil => rfl
    | cons first others => rfl
  unfold ofBlock shown
  dsimp only
  rw [← List.cons_append, List.flatMap_append, head, flat_map_of_list, visible_append,
    visible_blank_words]
  simp only [List.flatMap_cons, List.flatMap_nil, visible_append, String.toList_ofList,
    visible_trim, List.append_nil]
  rfl

/-- Whether a statement text is read as a block: it starts with a block command and has braces of
both kinds. -/
def TakesBlock (text : List Char) : Prop :=
  String.ofList ((blankWords text).headD []) ∈ blockCommands ∧ '\x7b' ∈ text ∧ '\x7d' ∈ text

/-- What a statement shows of its text, blanks apart. -/
inductive Shows (text : List Char) : List Char → Prop
  | plain {seen : List Char} (unblocked : ¬TakesBlock text) (kept : Kept text seen) :
      Shows text seen
  | block {head body tail : List Char} (takes : TakesBlock text)
      (same : text = head ++ '\x7b' :: (body ++ '\x7d' :: tail)) (first : '\x7b' ∉ head)
      (last : '\x7d' ∉ tail) : Shows text (visible (head ++ '\x7b' :: (body ++ ['\x7d'])))
  | reversed {head middle tail : List Char} (takes : TakesBlock text)
      (same : text = head ++ '\x7d' :: (middle ++ '\x7b' :: tail))
      (first : '\x7b' ∉ head ++ middle) (last : '\x7d' ∉ middle ++ tail) :
      Shows text
        (visible (head ++ '\x7d' :: (middle ++ '\x7b' :: '\x7d' :: (middle ++ ['\x7b', '\x7d']))))

theorem last_of_mem {c : Char} {text : List Char} (member : c ∈ text) :
    ∃ front back, text = front ++ c :: back ∧ c ∉ back := by
  obtain ⟨before, after, same, absent⟩ := List.eq_append_cons_of_mem (List.mem_reverse.mpr member)
  refine ⟨after.reverse, before.reverse, ?_, by simpa using absent⟩
  rw [← List.reverse_reverse text, same]
  simp

theorem first_opening_before {front : List Char} (free : '\x7b' ∉ front) (back : List Char) :
    firstOpening? (front ++ '\x7b' :: back) = some front.length := by
  apply first_opening_block
  intro c member same
  exact free (same ▸ member)

theorem last_closing_behind {back : List Char} (free : '\x7d' ∉ back) (front : List Char) :
    lastClosing? (front ++ '\x7d' :: back) = some front.length := by
  have none : back.reverse.findIdx? (· == '\x7d') = none := by
    rw [List.findIdx?_eq_none_iff]
    intro c member
    have other : c ≠ '\x7d' := fun same => free (same ▸ List.mem_reverse.mp member)
    simpa using other
  rw [lastClosing?, List.reverse_append, List.reverse_cons, List.append_assoc,
    List.findIdx?_append, none]
  simp [List.findIdx?_cons]

theorem mem_of_found {mark : Char} {text : List Char} {place : Nat}
    (found : text.findIdx? (· == mark) = some place) : mark ∈ text := by
  by_contra absent
  have none : text.findIdx? (· == mark) = none := by
    rw [List.findIdx?_eq_none_iff]
    intro c member
    have other : c ≠ mark := fun same => absent (same ▸ member)
    simpa using other
  rw [none] at found
  cases found

theorem of_piece_block_eq {text : List Char} (takes : TakesBlock text) {opening closing : Nat}
    (opens : firstOpening? text = some opening) (closes : lastClosing? text = some closing)
    (line : Nat) : ofPiece text line = .ok (ofBlock text opening closing line) := by
  have known : blockCommands.contains (String.ofList ((blankWords text).headD [])) = true := by
    simpa using takes.1
  simp only [ofPiece, known, if_true, opens, closes]

theorem of_piece_words_eq {text : List Char} (unblocked : ¬TakesBlock text) (line : Nat) :
    ofPiece text line = ofWords text line := by
  unfold ofPiece
  dsimp only
  split
  · next known =>
      split
      · next opening closing opens closes =>
          obtain ⟨place, found, -⟩ := Option.map_eq_some_iff.mp closes
          apply absurd _ unblocked
          exact ⟨by simpa using known, mem_of_found opens,
            List.mem_reverse.mp (mem_of_found found)⟩
      · rfl
  · rfl

/-- The braces of a block stand in order, or all closing ones come first. -/
theorem braces_cases {text : List Char} (opens : '\x7b' ∈ text) (closes : '\x7d' ∈ text) :
    (∃ head body tail, text = head ++ '\x7b' :: (body ++ '\x7d' :: tail) ∧ '\x7b' ∉ head ∧
      '\x7d' ∉ tail) ∨
    ∃ head middle tail, text = head ++ '\x7d' :: (middle ++ '\x7b' :: tail) ∧
      '\x7b' ∉ head ++ middle ∧ '\x7d' ∉ middle ++ tail := by
  obtain ⟨front, rest, rfl, free⟩ := List.eq_append_cons_of_mem opens
  by_cases later : '\x7d' ∈ rest
  · left
    obtain ⟨body, tail, rfl, last⟩ := last_of_mem later
    exact ⟨front, body, tail, rfl, free, last⟩
  · right
    have earlier : '\x7d' ∈ front := by simpa [later] using closes
    obtain ⟨head, middle, rfl, last⟩ := last_of_mem earlier
    refine ⟨head, middle, rest, by simp, ?_, by simp [last, later]⟩
    simp only [List.mem_append, List.mem_cons, not_or] at free ⊢
    exact ⟨free.1, free.2.2⟩

theorem enclosed_in_order (head body tail : List Char) :
    enclosed (head ++ '\x7b' :: (body ++ '\x7d' :: tail)) head.length
      (head ++ '\x7b' :: body).length = body := by
  have before : head.length < (head ++ '\x7b' :: body).length := by simp
  have split : head ++ '\x7b' :: (body ++ '\x7d' :: tail) =
      head ++ '\x7b' :: body ++ '\x7d' :: tail := by simp
  have skipped : head.length + 1 = (head ++ ['\x7b']).length := by simp
  rw [enclosed, if_pos before, split, List.take_left, List.append_cons, skipped, List.drop_left]

theorem enclosed_reversed (head middle tail : List Char) :
    enclosed (head ++ '\x7d' :: (middle ++ '\x7b' :: tail)) (head ++ '\x7d' :: middle).length
      head.length = '\x7d' :: (middle ++ ['\x7b']) := by
  have behind : ¬(head ++ '\x7d' :: middle).length < head.length := by simp
  have split : head ++ '\x7d' :: (middle ++ '\x7b' :: tail) =
      head ++ '\x7d' :: (middle ++ ['\x7b']) ++ tail := by simp
  have taken : (head ++ '\x7d' :: middle).length + 1 =
      (head ++ '\x7d' :: (middle ++ ['\x7b'])).length := by
    simp
    omega
  rw [enclosed, if_neg behind, split, taken, List.take_left, List.drop_left]

theorem of_piece_shows {text : List Char} {line : Nat} {statement : Statement}
    (read : ofPiece text line = .ok statement) : Shows text statement.shown := by
  by_cases takes : TakesBlock text
  · rcases braces_cases takes.2.1 takes.2.2 with
      ⟨head, body, tail, rfl, first, last⟩ | ⟨head, middle, tail, rfl, first, last⟩
    · have opens := first_opening_before first (body ++ '\x7d' :: tail)
      have closes := last_closing_behind last (head ++ '\x7b' :: body)
      rw [List.append_assoc, List.cons_append] at closes
      rw [of_piece_block_eq takes opens closes] at read
      cases read
      rw [of_block_shown, List.take_left, enclosed_in_order]
      have shows := Shows.block takes rfl first last
      simpa using shows
    · have opening : '\x7b' ∉ head ++ '\x7d' :: middle := by simpa using first
      have closing : '\x7d' ∉ middle ++ '\x7b' :: tail := by simpa using last
      have opens := first_opening_before opening tail
      have closes := last_closing_behind closing head
      have split : head ++ '\x7d' :: (middle ++ '\x7b' :: tail) =
          head ++ '\x7d' :: middle ++ '\x7b' :: tail := by simp
      rw [← split] at opens
      rw [of_piece_block_eq takes opens closes] at read
      cases read
      rw [of_block_shown, enclosed_reversed, split, List.take_left, ← split]
      have shows := Shows.reversed takes rfl first last
      simpa using shows
  · rw [of_piece_words_eq takes] at read
    rw [of_words_shown read]
    exact .plain takes (words_kept text)

theorem of_pieces_shows {line : Nat} {texts : List (List Char)} {statements : List Statement}
    (read : ofPieces line texts = .ok statements) :
    List.Forall₂ (fun text statement => Shows text statement.shown) texts statements := by
  induction texts generalizing line statements with
  | nil =>
      cases read
      exact .nil
  | cons text rest ih =>
      unfold ofPieces at read
      split at read
      · cases read
      · next first one =>
          split at read
          · cases read
          · next others more =>
              cases read
              exact .cons (of_piece_shows one) (ih more)

/-- Reading shows the text of every statement in order, blanks apart: a plain one whole or without a
quote that has no partner, a block up to its last closing brace. -/
theorem parse_shows_text {source : String} {statements : List Statement}
    (read : parse source = .ok statements) :
    List.Forall₂ (fun text statement => Shows text statement.shown)
      (pieces source.toList) statements :=
  of_pieces_shows read

/-- A quote without a partner, text behind a block, and braces in the wrong order. -/
theorem parse_shows_text_braces :
    ∃ statements, parse "log d\"e; if a \x7b b \x7d c; while \x7d \x7b x" = .ok statements ∧
      statements.map shown = ["logde".toList, "ifa\x7bb\x7d".toList,
        "while\x7d\x7b\x7d\x7b\x7d".toList] ∧
      List.Forall₂ (fun text statement => Shows text statement.shown)
        (pieces "log d\"e; if a \x7b b \x7d c; while \x7d \x7b x".toList) statements := by
  have read : parse "log d\"e; if a \x7b b \x7d c; while \x7d \x7b x" =
      .ok [⟨"log", ["d", "e"], 1⟩, ⟨"if", ["a", "\x7b", "b", "\x7d"], 2⟩,
        ⟨"while", ["\x7d", "\x7b", "\x7d \x7b", "\x7d"], 3⟩] := by
    decide +kernel
  exact ⟨_, read, by decide +kernel, parse_shows_text read⟩

/-- Text behind the last closing brace of a block is in no argument. -/
theorem parse_drops_text_behind_block :
    ¬∀ (source : String) (statements : List Statement), parse source = .ok statements →
      List.Forall₂ (fun text statement => statement.shown = visible text ∨
          ∃ front back, text = front ++ '"' :: back ∧ statement.shown = visible (front ++ back))
        (pieces source.toList) statements := by
  intro keeps
  have read : parse "if 1 \x7b log 1 \x7d log 2" =
      .ok [⟨"if", ["1", "\x7b", "log 1", "\x7d"], 1⟩] := by
    decide +kernel
  have kept := keeps _ _ read
  have cuts : pieces "if 1 \x7b log 1 \x7d log 2".toList = ["if 1 \x7b log 1 \x7d log 2".toList] := by
    decide +kernel
  rw [cuts, List.forall₂_cons] at kept
  rcases kept.1 with whole | ⟨front, back, same, -⟩
  · exact absurd whole (by decide +kernel)
  · have quote : '"' ∈ "if 1 \x7b log 1 \x7d log 2".toList := by
      rw [same]
      simp
    exact absurd quote (by decide +kernel)

end Statement

end ScriptSandbox
