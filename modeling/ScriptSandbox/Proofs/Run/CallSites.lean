import ScriptSandbox.Proofs.Run.Calls
import ScriptSandbox.Proofs.Statement.Visible

/-!
Call sites and their spellings. The arguments of a call stand in parentheses, or behind its name when
each is a single token, and the name may carry the function mark. Every spelling is read back into
the name and the tokens of each argument, so they all run alike.
-/

namespace ScriptSandbox

namespace Statement

open Text

namespace Word

/-- Two words with nothing between them. -/
def append (first second : Word) : Word where
  chars := first.chars ++ second.chars
  nonempty := List.append_ne_nil_of_left_ne_nil first.nonempty _
  quoted := first.quoted.append second.quoted
  enclosed := first.enclosed.append second.enclosed

end Word

theorem plain_text_cons (first second : Word) (others : List Word) :
    plainText first (second :: others) = first.chars ++ ' ' :: plainText second others :=
  spaced_cons_cons ..

/-- What stands right in front of words joins the first of them. -/
theorem spaced_joined (front first : List Char) (others : List (List Char)) :
    spaced ((front ++ first) :: others) = front ++ spaced (first :: others) := by
  cases others with
  | nil => rw [spaced_singleton, spaced_singleton]
  | cons second rest => rw [spaced_cons_cons, spaced_cons_cons, List.append_assoc]

/-- Words with one space between any two, at least one of them. -/
def Phrase (text : List Char) : Prop :=
  ∃ first others, text = plainText first others

namespace Phrase

theorem word (word : Word) : Phrase word.chars :=
  ⟨word, [], (spaced_singleton _).symm⟩

theorem behind_word {text : List Char} (phrase : Phrase text) (word : Word) :
    Phrase (word.chars ++ text) := by
  obtain ⟨first, others, rfl⟩ := phrase
  exact ⟨word.append first, others, (spaced_joined ..).symm⟩

theorem behind_space {text : List Char} (phrase : Phrase text) (word : Word) :
    Phrase (word.chars ++ ' ' :: text) := by
  obtain ⟨first, others, rfl⟩ := phrase
  exact ⟨word, first :: others, (plain_text_cons ..).symm⟩

theorem append {front back : List Char} (phrase : Phrase front) (next : Phrase back) :
    Phrase (front ++ back) := by
  obtain ⟨first, others, rfl⟩ := phrase
  induction others generalizing first with
  | nil =>
      rw [plainText, List.map_nil, spaced_singleton]
      exact next.behind_word first
  | cons second rest ih =>
      rw [plain_text_cons, List.append_assoc, List.cons_append]
      exact (ih second).behind_space first

end Phrase

/-- The depth of brackets behind a character, which counts outside quotes only. -/
def bracketDepth (quoted : Bool) (depth : Nat) (c : Char) : Nat :=
  if quoted then depth
  else if ArgumentCutting.isOpening c then depth + 1
  else if ArgumentCutting.isClosing c then depth - 1
  else depth

/-- Whether a text read from a bracket depth, inside or outside quotes, closes no bracket that is not
open, has no comma outside brackets and quotes, and closes all of its brackets and quotes. -/
def Bracketed : Nat → Bool → List Char → Prop
  | depth, quoted, [] => depth = 0 ∧ quoted = false
  | depth, quoted, c :: rest =>
      (quoted = false → ArgumentCutting.isClosing c = true ∨ c = ',' → 0 < depth) ∧
        Bracketed (bracketDepth quoted depth c) (if isQuote c then !quoted else quoted) rest

instance (depth : Nat) (quoted : Bool) (text : List Char) : Decidable (Bracketed depth quoted text) :=
  match text with
  | [] => inferInstanceAs (Decidable (depth = 0 ∧ quoted = false))
  | c :: rest =>
      have := instDecidableBracketed (bracketDepth quoted depth c)
        (if isQuote c then !quoted else quoted) rest
      inferInstanceAs (Decidable (
        (quoted = false → ArgumentCutting.isClosing c = true ∨ c = ',' → 0 < depth) ∧
          Bracketed (bracketDepth quoted depth c) (if isQuote c then !quoted else quoted) rest))

/-- An argument of a call: words whose brackets match and hold all the commas that stand outside
quotes. -/
structure Argument where
  first : Word
  others : List Word
  bracketed : Bracketed 0 false (plainText first others)

namespace Argument

def chars (argument : Argument) : List Char :=
  plainText argument.first argument.others

def tokens (argument : Argument) : List String :=
  (argument.first :: argument.others).map Word.text

end Argument

/-- Arguments with a comma between any two, and a space behind the comma or none. -/
inductive Listed : List Argument → List Char → Prop
  | none : Listed [] []
  | last (argument : Argument) : Listed [argument] argument.chars
  | more (argument : Argument) {next : Argument} {others : List Argument} {gap text : List Char}
      (either : gap = [] ∨ gap = [' ']) (rest : Listed (next :: others) text) :
      Listed (argument :: next :: others) (argument.chars ++ ',' :: (gap ++ text))

/-- The name of a function, with or without the function mark. -/
def callee (marked : Bool) (name : String) : List Char :=
  (if marked then Scope.functionMark else []) ++ name.toList

/-- The texts of a call: `name(argument, ...)` for any arguments, `name argument ...` when each is
one token. Without the mark the latter asks for a name that is no command. -/
inductive Spells (name : String) (arguments : List Argument) : List Char → Prop
  | enclosed (marked : Bool) {inside : List Char} (listed : Listed arguments inside) :
      Spells name arguments (callee marked name ++ '(' :: (inside ++ [')']))
  | spaced (marked : Bool) (single : ∀ argument ∈ arguments, argument.others = [])
      (free : marked = false → Command.ofName? name = none) :
      Spells name arguments (Text.spaced (callee marked name :: arguments.map Argument.chars))

theorem plain_parts (first : Word) (others : List Word) :
    words (plainText first others) = (first :: others).map Word.chars := by
  apply words_spaced
  intro chars member
  obtain ⟨word, rfl⟩ := mem_plain_words member
  exact ⟨word.nonempty, word.quoted⟩

end Statement

namespace ArgumentCutting

open Statement

/-- A cut that started with some arguments already finished. -/
def after (cutting : ArgumentCutting) (done : List (List Char)) : ArgumentCutting :=
  { cutting with pieces := cutting.pieces ++ done }

theorem step_after (cutting : ArgumentCutting) (done : List (List Char)) (c : Char) :
    (cutting.after done).step c = (cutting.step c).after done := by
  unfold step after
  dsimp only
  split <;> rfl

theorem fold_after (text : List Char) (cutting : ArgumentCutting) (done : List (List Char)) :
    text.foldl step (cutting.after done) = (text.foldl step cutting).after done := by
  induction text generalizing cutting with
  | nil => rfl
  | cons c rest ih => rw [List.foldl_cons, step_after, ih, List.foldl_cons]

/-- A text that holds its commas in brackets or quotes only extends the open argument. -/
theorem fold_bracketed {depth : Nat} {quoted : Bool} {text : List Char}
    (bracketed : Bracketed depth quoted text) (openPiece : List Char) (pieces : List (List Char)) :
    text.foldl step ⟨depth, quoted, openPiece, pieces⟩ =
      ⟨0, false, text.reverse ++ openPiece, pieces⟩ := by
  induction text generalizing depth quoted openPiece with
  | nil =>
      obtain ⟨rfl, rfl⟩ := bracketed
      rfl
  | cons c rest ih =>
      obtain ⟨held, further⟩ := bracketed
      have stays : ¬(c = ',' ∧ quoted = false ∧ depth = 0) := by
        rintro ⟨comma, outside, ground⟩
        have inside := held outside (.inr comma)
        omega
      have quotes : (if c = '"' then !quoted else quoted) = if isQuote c then !quoted else quoted := by
        simp only [isQuote, beq_iff_eq]
      rw [List.foldl_cons, step, if_neg stays, quotes]
      exact (ih further (c :: openPiece)).trans (by simp)

end ArgumentCutting

open Statement

theorem cut_arguments_last {text : List Char} (bracketed : Bracketed 0 false text) :
    cutArguments text = [text] := by
  simp [cutArguments, ArgumentCutting.fold_bracketed bracketed]

/-- A comma outside brackets and quotes ends an argument. -/
theorem cut_arguments_append {front : List Char} (bracketed : Bracketed 0 false front)
    (rest : List Char) : cutArguments (front ++ ',' :: rest) = front :: cutArguments rest := by
  have restarts : (front.foldl ArgumentCutting.step ⟨0, false, [], []⟩).step ',' =
      (⟨0, false, [], []⟩ : ArgumentCutting).after [front] := by
    rw [ArgumentCutting.fold_bracketed bracketed, ArgumentCutting.step, if_pos ⟨rfl, rfl, rfl⟩,
      List.append_nil, List.reverse_reverse]
    rfl
  rw [cutArguments, List.foldl_append, List.foldl_cons, restarts, ArgumentCutting.fold_after]
  simp [cutArguments, ArgumentCutting.after]

namespace Statement

open Text

section

variable {gap : List Char} (either : gap = [] ∨ gap = [' ']) (argument : Argument)
include either

theorem Argument.bracketed_behind : Bracketed 0 false (gap ++ argument.chars) := by
  rcases either with rfl | rfl
  · exact argument.bracketed
  · constructor
    · intro outside ends
      exact absurd ends (by decide)
    · exact argument.bracketed

theorem Argument.words_behind :
    (words (gap ++ argument.chars)).map String.ofList = argument.tokens := by
  have alone : (words argument.chars).map String.ofList = argument.tokens := by
    rw [chars, plain_parts, List.map_map]
    rfl
  rcases either with rfl | rfl
  · exact alone
  · rw [List.singleton_append, words_blank is_blank_space]
    exact alone

end

namespace Listed

variable {arguments : List Argument} {text : List Char}

/-- The cut at the commas finds the arguments again. The space behind a comma is in front of the next
argument by then, so the induction is over what follows an optional space. -/
theorem cut (listed : Listed arguments text) (some : arguments ≠ []) {gap : List Char}
    (either : gap = [] ∨ gap = [' ']) :
    ((cutArguments (gap ++ text)).map fun part => (words part).map String.ofList) =
      arguments.map Argument.tokens := by
  induction listed generalizing gap with
  | none => exact absurd rfl some
  | last argument =>
      rw [cut_arguments_last (argument.bracketed_behind either), List.map_singleton,
        argument.words_behind either, List.map_singleton]
  | more argument next rest ih =>
      rw [← List.append_assoc, cut_arguments_append (argument.bracketed_behind either),
        List.map_cons, argument.words_behind either, ih (List.cons_ne_nil _ _) next]
      rfl

theorem phrase (listed : Listed arguments text) (some : arguments ≠ []) : Phrase text := by
  induction listed with
  | none => exact absurd rfl some
  | last argument => exact ⟨argument.first, argument.others, rfl⟩
  | @more argument next others gap text either rest ih =>
      have front : Phrase argument.chars := ⟨argument.first, argument.others, rfl⟩
      have back := ih (List.cons_ne_nil _ _)
      let comma : Word := ⟨[','], by decide, by decide, by decide⟩
      rcases either with rfl | rfl
      · exact front.append (back.behind_word comma)
      · exact front.append (back.behind_space comma)

theorem phrase_closed (listed : Listed arguments text) : Phrase (text ++ [')']) := by
  let closing : Word := ⟨[')'], by decide, by decide, by decide⟩
  by_cases none : arguments = []
  · cases listed with
    | none => exact .word closing
    | last | more => cases none
  · exact (listed.phrase none).append (.word closing)

theorem read (listed : Listed arguments text) :
    readArguments text = arguments.map Argument.tokens := by
  by_cases none : arguments = []
  · cases listed with
    | none => rfl
    | last | more => cases none
  · obtain ⟨first, others, same⟩ := listed.phrase none
    have whole := whole_plain_text first others
    rw [← same] at whole
    have holds : ¬(trim text).isEmpty = true := by
      rw [trim_of_trimmed whole.trimmed, List.isEmpty_iff]
      exact whole.nonempty
    rw [readArguments, if_neg holds]
    exact listed.cut none (.inl rfl)

end Listed

theorem word_character_code {c : Char} (word : isWordCharacter c = true) :
    48 ≤ c.toNat ∧ c.toNat ≤ 122 := by
  change (decide ('A'.val ≤ c.val ∧ c.val ≤ 'Z'.val) ||
    ('a'.val ≤ c.val && c.val ≤ 'z'.val) || ('0'.val ≤ c.val && c.val ≤ '9'.val) ||
    c == '_') = true at word
  simp only [Bool.or_eq_true, Bool.and_eq_true, decide_eq_true_eq, beq_iff_eq,
    UInt32.le_iff_toNat_le] at word
  change ((65 ≤ c.toNat ∧ c.toNat ≤ 90 ∨ 97 ≤ c.toNat ∧ c.toNat ≤ 122) ∨
    48 ≤ c.toNat ∧ c.toNat ≤ 57) ∨ c = '_' at word
  rcases word with code | rfl
  · omega
  · decide

theorem word_character_free {c : Char} (word : isWordCharacter c = true) :
    c ≠ '(' ∧ c ≠ ':' ∧ isPlain c = true ∧ isTerminator c = false ∧ c ≠ '\x7b' ∧ c ≠ '\x7d' := by
  have other {d : Char} (special : isWordCharacter d = false) : c ≠ d := by
    rintro rfl
    rw [word] at special
    cases special
  have ⟨low, high⟩ := word_character_code word
  have shown : isBlank c = false := by
    simp only [isBlank, Bool.or_eq_false_iff, Bool.and_eq_false_iff, decide_eq_false_iff_not,
      beq_eq_false_iff_ne]
    omega
  have unquoted : isQuote c = false := beq_eq_false_iff_ne.mpr (other (by decide))
  have goes : isTerminator c = false := by
    simp only [isTerminator, Bool.or_eq_false_iff, beq_eq_false_iff_ne]
    exact ⟨⟨other (by decide), other (by decide)⟩, other (by decide)⟩
  refine ⟨other (by decide), other (by decide), ?_, goes, other (by decide), other (by decide)⟩
  rw [isPlain, unquoted, shown]
  rfl

theorem word_characters {text : List Char} (word : isWord text = true) :
    text ≠ [] ∧ ∀ c ∈ text, isWordCharacter c = true := by
  simpa [isWord] using word

/-- A name ends at the parenthesis behind it. -/
theorem take_name {name rest : List Char} (word : isWord name = true)
    (ends : ∀ c ∈ rest.head?, c = '(') :
    (name ++ rest).takeWhile (· != '(') = name ∧ (name ++ rest).dropWhile (· != '(') = rest := by
  have passes : ∀ c ∈ name, (c != '(') = true := by
    intro c member
    exact bne_iff_ne.mpr (word_character_free ((word_characters word).2 c member)).1
  have stops : rest.takeWhile (· != '(') = [] ∧ rest.dropWhile (· != '(') = rest := by
    cases rest with
    | nil => exact ⟨rfl, rfl⟩
    | cons c more =>
        rw [ends c rfl]
        exact ⟨rfl, rfl⟩
  rw [List.takeWhile_append_of_pos passes, List.dropWhile_append_of_pos passes, stops.1, stops.2,
    List.append_nil]
  exact ⟨rfl, rfl⟩

/-- The words of a statement are put together again as they stood. -/
theorem words_joined (text : List Char) (others : List Word) :
    (others.map Word.text).foldl (fun text token => text ++ ' ' :: token.toList) text =
      spaced (text :: others.map Word.chars) := by
  induction others generalizing text with
  | nil => exact (spaced_singleton text).symm
  | cons word rest ih =>
      have last : text ++ ' ' :: word.text.toList = (text ++ [' ']) ++ word.chars := by
        simp [Word.text]
      rw [List.map_cons, List.foldl_cons, ih, last, spaced_joined, List.append_assoc, List.map_cons,
        spaced_cons_cons]
      rfl

/-- A text with a parenthesis in it or the function mark before it is no command. -/
theorem of_name_none {text : String}
    (odd : '(' ∈ text.toList ∨ Scope.functionMark <+: text.toList) :
    Command.ofName? text = none := by
  unfold Command.ofName?
  split <;> first | rfl | exact absurd odd (by decide)

/-- A text is read as a single statement, and this as a call. -/
structure ReadsAs (source : List Char) (call : Call) (statement : Statement) : Prop where
  read : parse (String.ofList source) = .ok [statement]
  line : statement.line = 1
  named : Command.ofName? statement.command = none
  called : statement.call? = some call

theorem plain_text_reads {first : Word} {others : List Word} {call : Call}
    (named : Command.ofName? first.text = none)
    (called : call? ⟨first.text, others.map Word.text, 1⟩ = some call) :
    ReadsAs (plainText first others) call ⟨first.text, others.map Word.text, 1⟩ := by
  have whole := whole_plain_text first others
  have unblocked : first.text ∉ blockCommands := by
    intro known
    exact (by decide : ∀ command ∈ blockCommands, Command.ofName? command ≠ none) _ known named
  refine ⟨?_, rfl, named, called⟩
  rw [parse, String.toList_ofList, pieces_of_sealed whole.enclosed whole.trimmed whole.nonempty]
  exact of_pieces_cons (of_piece_plain first others unblocked 1) rfl

section

variable {name : String} (word : isWord name.toList = true) (marked : Bool)
include word

theorem callee_free :
    ∀ c ∈ callee marked name,
      isPlain c = true ∧ isTerminator c = false ∧ c ≠ '\x7b' ∧ c ≠ '\x7d' := by
  intro c member
  rcases List.mem_append.mp member with mark | named
  · cases marked with
    | false => cases mark
    | true =>
        have free : (Scope.functionMark.all fun c =>
            isPlain c && (!isTerminator c && (c != '\x7b' && c != '\x7d'))) = true := by
          decide
        simpa using List.all_eq_true.mp free c mark
  · exact (word_character_free ((word_characters word).2 c named)).2.2

/-- The name of a function as a word. -/
def calleeWord : Word where
  chars := callee marked name
  nonempty := List.append_ne_nil_of_right_ne_nil _ (word_characters word).1
  quoted := by
    have plain := Quoted.plain_append (show Quoted false [] from rfl)
      fun c member => (callee_free word marked c member).1
    rwa [List.append_nil] at plain
  enclosed := Sealed.of_free fun c member => (callee_free word marked c member).2

/-- The mark is taken off a name that has it, and no name passes for a marked one. -/
theorem callee_unmarked {rest : List Char} (ends : ∀ c ∈ rest.head?, c = '(') :
    (Scope.functionName? (String.ofList (callee marked name ++ rest))).getD
      (String.ofList (callee marked name ++ rest)) = String.ofList (name.toList ++ rest) := by
  cases marked with
  | true =>
      have starts : Scope.functionMark.isPrefixOf (callee true name ++ rest) = true := by
        rw [List.isPrefixOf_iff_prefix, callee, List.append_assoc]
        exact List.prefix_append ..
      rw [Scope.functionName?, String.toList_ofList, if_pos starts]
      rfl
  | false =>
      have differs : ¬Scope.functionMark.isPrefixOf (name.toList ++ rest) = true := by
        rw [List.isPrefixOf_iff_prefix]
        rintro ⟨tail, same⟩
        -- The colon of the mark would stand before the first parenthesis, in the name.
        have colon : ':' ∈ name.toList := by
          rw [← (take_name word ends).1, ← same]
          simp [Scope.functionMark]
        exact (word_character_free ((word_characters word).2 ':' colon)).2.1 rfl
      rw [callee, if_neg Bool.false_ne_true, List.nil_append, Scope.functionName?,
        String.toList_ofList, if_neg differs]
      rfl

theorem call_enclosed {first : Word} {others : List Word} {inside : List Char}
    (closed : inside ++ [')'] = plainText first others) (line : Nat) :
    call? ⟨String.ofList (callee marked name ++ '(' :: first.chars), others.map Word.text, line⟩ =
      some ⟨name, readArguments inside⟩ := by
  have ends : ∀ c ∈ ('(' :: first.chars).head?, c = '(' := by simp
  have found : atParenthesis? (name.toList ++ '(' :: first.chars) = some (name.toList, first.chars) := by
    rw [atParenthesis?, (take_name word ends).2, (take_name word ends).1]
  have glued : (others.map Word.text).foldl (fun text token => text ++ ' ' :: token.toList)
      first.chars = inside ++ [')'] := by
    rw [words_joined, closed]
    rfl
  have kept : trimEnd (inside ++ [')']) = inside ++ [')'] := by
    apply trim_end_of_last
    intro c last
    rw [List.getLast?_concat] at last
    cases last
    decide
  have cut : beforeClosing? (inside ++ [')']) = some inside := by
    rw [beforeClosing?, List.getLast?_concat, if_pos rfl, List.dropLast_concat]
  simp only [call?, callee_unmarked word marked ends, String.toList_ofList, found, word, if_true,
    glued, kept, cut, Option.map_some, String.ofList_toList]

theorem call_spaced (tokens : List String) (line : Nat) :
    call? ⟨String.ofList (callee marked name), tokens, line⟩ =
      some ⟨name, tokens.map fun token => [token]⟩ := by
  have ends : ∀ c ∈ ([] : List Char).head?, c = '(' := by simp
  have bare := callee_unmarked word marked ends
  have none : atParenthesis? name.toList = none := by
    have rest := (take_name word ends).2
    rw [List.append_nil] at rest
    rw [atParenthesis?, rest]
  rw [List.append_nil, List.append_nil, String.ofList_toList] at bare
  simp only [call?, bare, none]

theorem enclosed_reads {arguments : List Argument} {inside : List Char}
    (listed : Listed arguments inside) :
    ∃ statement, ReadsAs (callee marked name ++ '(' :: (inside ++ [')']))
      ⟨name, arguments.map Argument.tokens⟩ statement := by
  obtain ⟨first, others, closed⟩ := listed.phrase_closed
  let opening : Word := ⟨['('], by decide, by decide, by decide⟩
  let command := (calleeWord word marked).append (opening.append first)
  have split : callee marked name ++ '(' :: (inside ++ [')']) = plainText command others := by
    rw [closed]
    exact ((spaced_joined ..).trans (congrArg _ (spaced_joined ['('] ..))).symm
  have called : call? ⟨command.text, others.map Word.text, 1⟩ =
      some ⟨name, arguments.map Argument.tokens⟩ := by
    rw [← listed.read]
    exact call_enclosed word marked closed 1
  have named : Command.ofName? command.text = none := by
    apply of_name_none
    left
    rw [Word.text, String.toList_ofList]
    exact List.mem_append_right _ List.mem_cons_self
  rw [split]
  exact ⟨_, plain_text_reads named called⟩

theorem spaced_reads {arguments : List Argument}
    (single : ∀ argument ∈ arguments, argument.others = [])
    (free : marked = false → Command.ofName? name = none) :
    ∃ statement, ReadsAs (spaced (callee marked name :: arguments.map Argument.chars))
      ⟨name, arguments.map Argument.tokens⟩ statement := by
  let command := calleeWord word marked
  have split : spaced (callee marked name :: arguments.map Argument.chars) =
      plainText command (arguments.map Argument.first) := by
    have parts : arguments.map Argument.chars = (arguments.map Argument.first).map Word.chars := by
      rw [List.map_map]
      apply List.map_congr_left
      intro argument member
      rw [Argument.chars, single argument member]
      exact spaced_singleton _
    rw [parts]
    rfl
  have called : call? ⟨command.text, (arguments.map Argument.first).map Word.text, 1⟩ =
      some ⟨name, arguments.map Argument.tokens⟩ := by
    have tokens : arguments.map Argument.tokens =
        ((arguments.map Argument.first).map Word.text).map fun token => [token] := by
      rw [List.map_map, List.map_map]
      apply List.map_congr_left
      intro argument member
      rw [Argument.tokens, single argument member]
      rfl
    rw [tokens]
    exact call_spaced word marked _ 1
  have named : Command.ofName? command.text = none := by
    cases marked with
    | false =>
        have same : command.text = name := String.ofList_toList
        rw [same]
        exact free rfl
    | true =>
        apply of_name_none
        right
        rw [Word.text, String.toList_ofList]
        exact List.prefix_append ..
  rw [split]
  exact ⟨_, plain_text_reads named called⟩

end

theorem Spells.reads {name : String} {arguments : List Argument} {source : List Char}
    (spells : Spells name arguments source) (word : isWord name.toList = true) :
    ∃ statement, ReadsAs source ⟨name, arguments.map Argument.tokens⟩ statement := by
  cases spells with
  | enclosed marked listed => exact enclosed_reads word marked listed
  | spaced marked single free => exact spaced_reads word marked single free

end Statement

open Interpreter

theorem executes_alike {source other : List Char} {call : Call} {first second : Statement}
    (reads : ReadsAs source call first) (again : ReadsAs other call second) {machine : Machine}
    {function : Function} (declared : machine.function? call.name = some function) (fuel : Nat) :
    execute fuel first machine = execute fuel second machine := by
  cases fuel with
  | zero => rfl
  | succ fuel =>
      rw [execute_call reads.named reads.called declared,
        execute_call again.named again.called declared, reads.line, again.line]

/-- Call sites are read back exactly. Whatever its arguments are, each spelling of a call is read as
one statement that calls the function by its name with the tokens of each argument; two spellings of
a call to a declared function do the same on every machine. -/
theorem call_spellings_agree {name : String} {arguments : List Argument} {source other : List Char}
    (word : isWord name.toList = true) (spelled : Spells name arguments source)
    (again : Spells name arguments other) :
    ∃ first second, parse (String.ofList source) = .ok [first] ∧
      parse (String.ofList other) = .ok [second] ∧
      first.call? = some ⟨name, arguments.map Argument.tokens⟩ ∧
      second.call? = some ⟨name, arguments.map Argument.tokens⟩ ∧
      ∀ machine function, Machine.function? machine name = some function →
        ∀ fuel, execute fuel first machine = execute fuel second machine := by
  obtain ⟨first, reads⟩ := spelled.reads word
  obtain ⟨second, readsAgain⟩ := again.reads word
  refine ⟨first, second, reads.read, readsAgain.read, reads.called, readsAgain.called, ?_⟩
  intro machine function declared fuel
  exact executes_alike reads readsAgain declared fuel

/-- A quoted comma, one in brackets and two between the arguments, and a call without parentheses. -/
theorem call_spellings_agree_quoted :
    (∃ first second, parse "f(\"a, b\" + 1, [2,3],4)" = .ok [first] ∧
      parse "func:f(\"a, b\" + 1,[2,3], 4)" = .ok [second] ∧
      first.call? = some ⟨"f", [["\"a, b\"", "+", "1"], ["[2,3]"], ["4"]]⟩ ∧
      second.call? = some ⟨"f", [["\"a, b\"", "+", "1"], ["[2,3]"], ["4"]]⟩ ∧
      ∀ machine function, Machine.function? machine "f" = some function →
        ∀ fuel, execute fuel first machine = execute fuel second machine) ∧
    ∃ first second, parse "func:f [2,3] 4" = .ok [first] ∧ parse "f([2,3], 4)" = .ok [second] ∧
      first.call? = some ⟨"f", [["[2,3]"], ["4"]]⟩ ∧ second.call? = some ⟨"f", [["[2,3]"], ["4"]]⟩ ∧
      ∀ machine function, Machine.function? machine "f" = some function →
        ∀ fuel, execute fuel first machine = execute fuel second machine := by
  let quoted : Word := ⟨['"', 'a', ',', ' ', 'b', '"'], by decide, by decide, by decide⟩
  let plus : Word := ⟨['+'], by decide, by decide, by decide⟩
  let one : Word := ⟨['1'], by decide, by decide, by decide⟩
  let list : Word := ⟨['[', '2', ',', '3', ']'], by decide, by decide, by decide⟩
  let four : Word := ⟨['4'], by decide, by decide, by decide⟩
  let sum : Argument := ⟨quoted, [plus, one], by decide⟩
  let pair : Argument := ⟨list, [], by decide⟩
  let last : Argument := ⟨four, [], by decide⟩
  have word : isWord "f".toList = true := by decide
  constructor
  · have spelled : Spells "f" [sum, pair, last] "f(\"a, b\" + 1, [2,3],4)".toList := by
      convert Spells.enclosed false (.more sum (.inr rfl) (.more pair (.inl rfl) (.last last)))
      decide
    have again : Spells "f" [sum, pair, last] "func:f(\"a, b\" + 1,[2,3], 4)".toList := by
      convert Spells.enclosed true (.more sum (.inl rfl) (.more pair (.inr rfl) (.last last)))
      decide
    have agree := call_spellings_agree word spelled again
    rw [String.ofList_toList, String.ofList_toList] at agree
    exact agree
  · have spelled : Spells "f" [pair, last] "func:f [2,3] 4".toList := by
      have single : ∀ argument ∈ [pair, last], argument.others = [] := by simp [pair, last]
      convert Spells.spaced true single nofun
      decide
    have again : Spells "f" [pair, last] "f([2,3], 4)".toList := by
      convert Spells.enclosed false (.more pair (.inr rfl) (.last last))
      decide
    have agree := call_spellings_agree word spelled again
    rw [String.ofList_toList, String.ofList_toList] at agree
    exact agree

end ScriptSandbox
