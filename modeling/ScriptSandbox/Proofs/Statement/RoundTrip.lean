import ScriptSandbox.Command.Basic
import ScriptSandbox.Proofs.Statement.Words

/-!
Programs as trees and their text. The text of a tree is read back into its statements, and so is the
body of every block, however deep the blocks nest.
-/

namespace ScriptSandbox

namespace Statement

open Text

/-- A word of a plain statement: its quotes pair up and hold all its blanks, its braces match and
hold all its terminators. -/
structure Word where
  chars : List Char
  nonempty : chars ≠ []
  quoted : Quoted false chars
  enclosed : Sealed 0 0 chars

/-- A word between the command of a block and its opening brace. -/
structure HeadWord where
  chars : List Char
  nonempty : chars ≠ []
  free : ∀ c ∈ chars, isBlank c = false ∧ c ≠ '\x7b' ∧ c ≠ '\x7d' ∧ c ≠ ';'

def Word.text (word : Word) : String :=
  String.ofList word.chars

def HeadWord.text (word : HeadWord) : String :=
  String.ofList word.chars

abbrev Terminator := { c : Char // isTerminator c = true }

/-- The statements of a program in order, each with the terminator that stands between it and the
rest; a block holds the program of its body. -/
inductive ProgramTree where
  | empty
  | plain (first : Word) (others : List Word) (unblocked : first.text ∉ blockCommands)
      (closing : Terminator) (rest : ProgramTree)
  | block (command : String) (known : command ∈ blockCommands) (head : List HeadWord)
      (body : ProgramTree) (closing : Terminator) (rest : ProgramTree)

/-- The text `word ... word`. -/
def plainText (first : Word) (others : List Word) : List Char :=
  spaced (first.chars :: others.map Word.chars)

/-- The text `command head { body }`. -/
def blockText (command : String) (head : List HeadWord) (body : List Char) : List Char :=
  spaced (command.toList :: head.map HeadWord.chars ++ [['\x7b'], body, ['\x7d']])

/-- The text of a statement in front of the text of the rest, with a terminator between them unless
nothing follows. -/
def joined (front : List Char) (closing : Terminator) (rest : List Char) : List Char :=
  if rest.isEmpty then front else front ++ closing.val :: rest

namespace ProgramTree

def chars : ProgramTree → List Char
  | .empty => []
  | .plain first others _ closing rest => joined (plainText first others) closing rest.chars
  | .block command _ head body closing rest =>
      joined (blockText command head body.chars) closing rest.chars

def text (program : ProgramTree) : String :=
  String.ofList program.chars

/-- Whether statements are those of a program, numbered from `line`. The body of every block stands
right behind its head and is read into the statements of its own program. -/
def Recovered (line : Nat) : ProgramTree → List Statement → Prop
  | .empty, found => found = []
  | .plain first others _ _ rest, found =>
      ∃ later, found = ⟨first.text, others.map Word.text, line⟩ :: later ∧
        rest.Recovered (line + 1) later
  | .block command _ head body _ rest, found =>
      ∃ statement later inner, found = statement :: later ∧
        statement = ⟨command, head.map HeadWord.text ++ [openMark, body.text, closeMark], line⟩ ∧
        statement.open? = some head.length ∧ statement.body? head.length = some body.text ∧
        statement.bodyStatements head.length = .ok inner ∧ body.Recovered 1 inner ∧
        rest.Recovered (line + 1) later

end ProgramTree

theorem HeadWord.not_terminator (word : HeadWord) {c : Char} (member : c ∈ word.chars) :
    isTerminator c = false := by
  obtain ⟨blank, _, _, semicolon⟩ := word.free c member
  have feed : c ≠ '\n' := by
    rintro rfl
    cases blank
  have carriage : c ≠ '\r' := by
    rintro rfl
    cases blank
  simp [isTerminator, semicolon, feed, carriage]

theorem HeadWord.trimmed (word : HeadWord) : Trimmed word.chars :=
  trimmed_of_free fun c member => (word.free c member).1

theorem block_command_free {command : String} (known : command ∈ blockCommands) :
    ∀ c ∈ command.toList, isQuote c = false ∧ isBlank c = false ∧ c ≠ '\x7b' ∧ c ≠ '\x7d' ∧ c ≠ ';' := by
  have free : (blockCommands.all fun command => command.toList.all fun c =>
      !isQuote c && (!isBlank c && (c != '\x7b' && (c != '\x7d' && c != ';')))) = true := by decide
  intro c member
  simpa using List.all_eq_true.mp (List.all_eq_true.mp free command known) c member

def commandWord (command : String) (known : command ∈ blockCommands) : HeadWord where
  chars := command.toList
  nonempty := (by decide : ∀ command ∈ blockCommands, command.toList ≠ []) command known
  free := fun c member => (block_command_free known c member).2

/-- What the cut asks of the text of a statement. -/
structure Whole (text : List Char) : Prop where
  nonempty : text ≠ []
  trimmed : Trimmed text
  enclosed : Sealed 0 0 text

theorem sealed_space {floor : Nat} {text : List Char} (enclosed : Sealed floor floor text) :
    Sealed floor floor (' ' :: text) := by
  exact ⟨fun ends => absurd ends (by decide), fun same => absurd same (by decide), enclosed⟩

theorem sealed_spaced {words : List (List Char)} (enclosed : ∀ word ∈ words, Sealed 0 0 word) :
    Sealed 0 0 (spaced words) := by
  induction words with
  | nil => rfl
  | cons first others ih =>
      obtain ⟨firstEnclosed, othersEnclosed⟩ := List.forall_mem_cons.mp enclosed
      cases others with
      | nil =>
          rw [spaced_singleton]
          exact firstEnclosed
      | cons second rest =>
          rw [spaced_cons_cons]
          exact firstEnclosed.append (sealed_space (ih othersEnclosed))

theorem mem_plain_words {first : Word} {others : List Word} {chars : List Char}
    (member : chars ∈ first.chars :: others.map Word.chars) : ∃ word : Word, word.chars = chars := by
  rcases List.mem_cons.mp member with rfl | later
  · exact ⟨first, rfl⟩
  · obtain ⟨word, _, same⟩ := List.mem_map.mp later
    exact ⟨word, same⟩

theorem whole_plain_text (first : Word) (others : List Word) : Whole (plainText first others) where
  nonempty := spaced_ne_nil first.nonempty _
  trimmed := by
    apply trimmed_spaced
    intro chars member
    obtain ⟨word, rfl⟩ := mem_plain_words member
    exact ⟨word.nonempty, word.quoted.trimmed⟩
  enclosed := by
    apply sealed_spaced
    intro chars member
    obtain ⟨word, rfl⟩ := mem_plain_words member
    exact word.enclosed

theorem of_piece_plain (first : Word) (others : List Word) (unblocked : first.text ∉ blockCommands)
    (line : Nat) :
    ofPiece (plainText first others) line = .ok ⟨first.text, others.map Word.text, line⟩ := by
  obtain ⟨rest, same, ends⟩ := spaced_cons first.chars (others.map Word.chars)
  have starts : String.ofList ((blankWords (plainText first others)).headD []) ∉ blockCommands := by
    rw [plainText, same]
    rcases head_blank_words_quoted first.nonempty first.quoted ends with whole | ⟨c, member, quote⟩
    · rw [whole]
      exact unblocked
    · intro known
      have free := (block_command_free known c (by rwa [String.toList_ofList])).1
      rw [quote] at free
      cases free
  have split : words (plainText first others) = first.chars :: others.map Word.chars := by
    apply words_spaced
    intro chars member
    obtain ⟨word, rfl⟩ := mem_plain_words member
    exact ⟨word.nonempty, word.quoted⟩
  have absent : ¬blockCommands.contains
      (String.ofList ((blankWords (plainText first others)).headD [])) = true := by
    simpa using starts
  rw [ofPiece, if_neg absent, ofWords, split, List.map_cons, List.map_map]
  rfl

def blockHead (command : String) (head : List HeadWord) : List Char :=
  spaced (command.toList :: head.map HeadWord.chars) ++ [' ']

theorem block_text_eq (command : String) (head : List HeadWord) (body : List Char) :
    blockText command head body =
      blockHead command head ++ '\x7b' :: (' ' :: (body ++ [' ']) ++ ['\x7d']) := by
  rw [blockText, List.cons_append, ← List.cons_append, spaced_append (by simp) (by simp), blockHead]
  simp

theorem mem_block_words {command : String} (known : command ∈ blockCommands)
    {head : List HeadWord} {chars : List Char}
    (member : chars ∈ command.toList :: head.map HeadWord.chars) :
    ∃ word : HeadWord, word.chars = chars := by
  rcases List.mem_cons.mp member with rfl | later
  · exact ⟨commandWord command known, rfl⟩
  · obtain ⟨word, _, same⟩ := List.mem_map.mp later
    exact ⟨word, same⟩

theorem free_block_head {command : String} (known : command ∈ blockCommands)
    (head : List HeadWord) :
    ∀ c ∈ blockHead command head, isTerminator c = false ∧ c ≠ '\x7b' ∧ c ≠ '\x7d' := by
  have space : isTerminator ' ' = false ∧ ' ' ≠ '\x7b' ∧ ' ' ≠ '\x7d' := by decide
  intro c member
  rcases List.mem_append.mp member with inWords | last
  · rcases mem_spaced inWords with rfl | ⟨chars, listed, found⟩
    · exact space
    · obtain ⟨word, rfl⟩ := mem_block_words known listed
      obtain ⟨_, opens, closes, _⟩ := word.free c found
      exact ⟨word.not_terminator found, opens, closes⟩
  · rw [List.mem_singleton.mp last]
    exact space

theorem whole_block_text {command : String} (known : command ∈ blockCommands)
    (head : List HeadWord) {body : List Char} (enclosed : Sealed 1 1 body) :
    Whole (blockText command head body) where
  nonempty := by
    rw [block_text_eq]
    simp
  trimmed := by
    obtain ⟨rest, same, _⟩ := spaced_cons command.toList (head.map HeadWord.chars)
    have split : blockText command head body =
        command.toList ++ (rest ++ ' ' :: '\x7b' :: ' ' :: (body ++ [' ']) ++ ['\x7d']) := by
      rw [block_text_eq, blockHead, same]
      simp
    rw [split]
    exact trimmed_around (commandWord command known).trimmed (commandWord command known).nonempty
      (trimmed_of_free (List.forall_mem_singleton.mpr (by decide))) (by decide) _
  enclosed := by
    rw [block_text_eq]
    have space : Sealed 1 1 [' '] := sealed_space rfl
    exact (Sealed.of_free (free_block_head known head)).append
      (Sealed.braces (sealed_space (enclosed.append space)))

theorem first_opening_block {opener : List Char} (free : ∀ c ∈ opener, c ≠ '\x7b')
    (rest : List Char) : firstOpening? (opener ++ '\x7b' :: rest) = some opener.length := by
  have none : opener.findIdx? (· == '\x7b') = none := by simpa using free
  rw [firstOpening?, List.findIdx?_append, none]
  simp [List.findIdx?_cons]

theorem last_closing_block (text : List Char) :
    lastClosing? (text ++ ['\x7d']) = some text.length := by
  simp [lastClosing?, List.findIdx?_cons]

theorem enclosed_block (opener inner : List Char) :
    enclosed (opener ++ '\x7b' :: inner ++ ['\x7d']) opener.length
      (opener ++ '\x7b' :: inner).length = inner := by
  have before : opener.length < (opener ++ '\x7b' :: inner).length := by simp
  have skipped : (opener ++ ['\x7b']).length = opener.length + 1 := by simp
  rw [enclosed, if_pos before, List.take_left, List.append_cons opener, ← skipped, List.drop_left]

/-- A block is read as its head, a brace, its body and a brace. -/
theorem of_piece_block {command : String} (known : command ∈ blockCommands) (head : List HeadWord)
    {body : List Char} (trimmed : Trimmed body) (line : Nat) :
    ofPiece (blockText command head body) line =
      .ok ⟨command, head.map HeadWord.text ++ [openMark, String.ofList body, closeMark], line⟩ := by
  have split : blockText command head body =
      blockHead command head ++ '\x7b' :: (' ' :: (body ++ [' '])) ++ ['\x7d'] := by
    rw [block_text_eq]
    simp
  have starts : (blankWords (blockText command head body)).headD [] = command.toList := by
    obtain ⟨rest, same, ends⟩ := spaced_cons command.toList
      (head.map HeadWord.chars ++ [['\x7b'], body, ['\x7d']])
    rw [blockText, List.cons_append, same]
    exact head_blank_words (commandWord command known).nonempty
      (fun c member => ((commandWord command known).free c member).1) ends
  have opening : firstOpening? (blockText command head body) =
      some (blockHead command head).length := by
    rw [block_text_eq]
    exact first_opening_block (fun c member => (free_block_head known head c member).2.1) _
  have closing : lastClosing? (blockText command head body) =
      some (blockHead command head ++ '\x7b' :: (' ' :: (body ++ [' ']))).length := by
    rw [split]
    exact last_closing_block _
  have heads : blankWords ((blockText command head body).take (blockHead command head).length) =
      command.toList :: head.map HeadWord.chars := by
    rw [block_text_eq, List.take_left, blockHead]
    apply blank_words_spaced (List.cons_ne_nil _ _)
    intro chars member
    obtain ⟨word, rfl⟩ := mem_block_words known member
    exact ⟨word.nonempty, fun c found => (word.free c found).1⟩
  have present : blockCommands.contains (String.ofList command.toList) = true := by
    simpa using known
  simp only [ofPiece, starts, present, if_true, opening, closing, ofBlock, heads]
  rw [split, enclosed_block, trim_padded trimmed]
  simp [HeadWord.text, Function.comp_def]

theorem trimmed_joined {front rest : List Char} (whole : Whole front) (closing : Terminator)
    (trimmed : Trimmed rest) : Trimmed (joined front closing rest) := by
  cases rest with
  | nil => exact whole.trimmed
  | cons c more =>
      exact trimmed_around whole.trimmed whole.nonempty trimmed (List.cons_ne_nil _ _) [closing.val]

theorem sealed_joined {front rest : List Char} (whole : Whole front) (closing : Terminator)
    (enclosed : Sealed 1 1 rest) : Sealed 1 1 (joined front closing rest) := by
  cases rest with
  | nil => exact whole.enclosed.raise
  | cons c more =>
      have ends : Sealed 1 1 [closing.val] := Sealed.terminator closing.property
      exact whole.enclosed.raise.append (ends.append enclosed)

theorem pieces_joined {front : List Char} (whole : Whole front) (closing : Terminator)
    (rest : List Char) : pieces (joined front closing rest) = front :: pieces rest := by
  have alone := pieces_of_sealed whole.enclosed whole.trimmed whole.nonempty
  cases rest with
  | nil => exact alone
  | cons c more =>
      have apart := pieces_append whole.enclosed.depth closing.property (c :: more)
      rw [alone] at apart
      exact apart

/-- The text of a program can stand as the body of a block. -/
theorem ProgramTree.trimmed_sealed (program : ProgramTree) :
    Trimmed program.chars ∧ Sealed 1 1 program.chars := by
  induction program with
  | empty => exact ⟨trimmed_of_free (fun _ member => by cases member), rfl⟩
  | plain first others unblocked closing rest ih =>
      have whole := whole_plain_text first others
      exact ⟨trimmed_joined whole closing ih.1, sealed_joined whole closing ih.2⟩
  | block command known head body closing rest ihBody ih =>
      have whole := whole_block_text known head ihBody.2
      exact ⟨trimmed_joined whole closing ih.1, sealed_joined whole closing ih.2⟩

theorem HeadWord.text_ne_open (word : HeadWord) : word.text ≠ openMark := by
  intro same
  have chars : word.chars = ['\x7b'] := String.ofList_injective same
  exact (word.free '\x7b' (by simp [chars])).2.1 rfl

theorem body_of_block (command : String) (head : List HeadWord) (body : String) (line : Nat) :
    (⟨command, head.map HeadWord.text ++ [openMark, body, closeMark], line⟩ : Statement).open? =
        some head.length ∧
      (⟨command, head.map HeadWord.text ++ [openMark, body, closeMark], line⟩ : Statement).body?
        head.length = some body := by
  have none : (head.map HeadWord.text).findIdx? (· == openMark) = none := by
    simp [HeadWord.text_ne_open]
  have closing : (⟨command, head.map HeadWord.text ++ [openMark, body, closeMark], line⟩ :
      Statement).lastClose? = some (head.length + 2) := by
    simp [lastClose?, List.findIdx?_cons]
  constructor
  · rw [open?, List.findIdx?_append, none]
    simp [List.findIdx?_cons]
  · simp [body?, closing]

theorem of_pieces_cons {piece : List Char} {statement : Statement} {line : Nat}
    {rest : List (List Char)} {later : List Statement} (first : ofPiece piece line = .ok statement)
    (others : ofPieces (line + 1) rest = .ok later) :
    ofPieces line (piece :: rest) = .ok (statement :: later) := by
  simp only [ofPieces, first, others]

theorem of_pieces_recovered (program : ProgramTree) (line : Nat) :
    ∃ found, ofPieces line (pieces program.chars) = .ok found ∧ program.Recovered line found := by
  induction program generalizing line with
  | empty => exact ⟨[], rfl, rfl⟩
  | plain first others unblocked closing rest ih =>
      obtain ⟨later, read, recovered⟩ := ih (line + 1)
      refine ⟨_, ?_, later, rfl, recovered⟩
      rw [ProgramTree.chars, pieces_joined (whole_plain_text first others)]
      exact of_pieces_cons (of_piece_plain first others unblocked line) read
  | block command known head body closing rest ihBody ih =>
      obtain ⟨inner, readBody, recoveredBody⟩ := ihBody 1
      obtain ⟨later, read, recovered⟩ := ih (line + 1)
      obtain ⟨trimmed, enclosed⟩ := body.trimmed_sealed
      obtain ⟨opening, placed⟩ := body_of_block command head body.text line
      refine ⟨_, ?_, _, later, inner, rfl, rfl, opening, placed, ?_, recoveredBody, recovered⟩
      · rw [ProgramTree.chars, pieces_joined (whole_block_text known head enclosed)]
        exact of_pieces_cons (of_piece_block known head trimmed line) read
      · rw [bodyStatements, placed]
        simp only [parse, ProgramTree.text, String.toList_ofList]
        exact readBody

/-- Reading the text of a program recovers its statements, at every depth of its blocks. -/
theorem parse_program_text (program : ProgramTree) :
    ∃ found, parse program.text = .ok found ∧ program.Recovered 1 found := by
  rw [parse, ProgramTree.text, String.toList_ofList]
  exact of_pieces_recovered program 1

/-- A loop around a word with a brace and a terminator of its own, and around an empty block. -/
theorem parse_program_text_nested :
    ∃ program : ProgramTree,
      program.text = "loop 2 \x7b log \"\x7b ;\x7d\"\nif \x7b  \x7d \x7d" ∧
        ∃ found, parse program.text = .ok found ∧ program.Recovered 1 found :=
  ⟨.block "loop" (by decide) [⟨['2'], by decide, List.forall_mem_singleton.mpr (by decide)⟩]
    (.plain ⟨['l', 'o', 'g'], by decide, by decide, by decide⟩
      [⟨['"', '\x7b', ' ', ';', '\x7d', '"'], by decide, by decide, by decide⟩] (by decide)
      ⟨'\n', rfl⟩ (.block "if" (by decide) [] .empty ⟨';', rfl⟩ .empty))
    ⟨';', rfl⟩ .empty, by decide, parse_program_text _⟩

end Statement

end ScriptSandbox
