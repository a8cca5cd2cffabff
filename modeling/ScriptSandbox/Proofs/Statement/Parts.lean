import Mathlib.Data.List.Infix
import Mathlib.Data.List.Induction
import ScriptSandbox.Command.Basic

/-!
Everything a program text is read into stands in it as it is. The texts of the statements, their
words and the bodies of their blocks are contiguous parts of the text, so a word that the text lacks
is lacking everywhere.
-/

namespace ScriptSandbox

namespace Text

/-- What is left of a text starts with a character that is not dropped. -/
theorem head_drop_fails {drops : Char → Bool} {text : List Char} {c : Char}
    (first : c ∈ (text.dropWhile drops).head?) : drops c = false := by
  have stops := List.head?_dropWhile_not drops text
  rw [first] at stops
  simpa using stops

theorem suffix_trim_start (text : List Char) : trimStart text <:+ text :=
  List.dropWhile_suffix isBlank

theorem prefix_trim_end (text : List Char) : trimEnd text <+: text := by
  have suffix : text.reverse.dropWhile isBlank <:+ text.reverse := List.dropWhile_suffix isBlank
  have reversed := List.reverse_prefix.mpr suffix
  rw [List.reverse_reverse] at reversed
  exact reversed

theorem infix_trim (text : List Char) : trim text <:+: text :=
  (prefix_trim_end _).isInfix.trans (suffix_trim_start text).isInfix

/-- A cut goes along the text: the finished pieces lie in what has been read, and the open one at its
end. -/
theorem fold_cut_parts (isSeparator : Char → Bool) (text : List Char) :
    (∀ piece ∈ (text.foldl (cutStep isSeparator) ([], [])).1, piece <:+: text) ∧
      (text.foldl (cutStep isSeparator) ([], [])).2.reverse <:+ text := by
  induction text using List.reverseRecOn with
  | nil => exact ⟨nofun, List.suffix_refl _⟩
  | append_singleton front c ih =>
      rw [List.foldl_append, List.foldl_cons, List.foldl_nil]
      have longer : front <:+: front ++ [c] := (List.prefix_append front [c]).isInfix
      unfold cutStep
      split
      · refine ⟨fun piece member => ?_, List.nil_suffix⟩
        rcases List.mem_cons.mp member with same | old
        · rw [same]
          exact ih.2.isInfix.trans longer
        · exact (ih.1 piece old).trans longer
      · refine ⟨fun piece member => (ih.1 piece member).trans longer, ?_⟩
        rw [List.reverse_cons]
        exact List.suffix_append_self_iff.mpr ih.2

theorem infix_cut {isSeparator : Char → Bool} {text piece : List Char}
    (member : piece ∈ cut isSeparator text) : piece <:+: text := by
  have parts := fold_cut_parts isSeparator text
  unfold cut at member
  rcases List.mem_cons.mp (List.mem_reverse.mp member) with last | finished
  · rw [last]
    exact parts.2.isInfix
  · exact parts.1 piece finished

theorem infix_blank_words {text word : List Char} (member : word ∈ blankWords text) :
    word <:+: text :=
  infix_cut (List.mem_filter.mp member).1

end Text

namespace Statement

open ScriptSandbox.Text

theorem take_group_append {text before inside after : List Char}
    (found : takeGroup? text = some (before, inside, after)) :
    before ++ '"' :: (inside ++ '"' :: after) = text := by
  unfold takeGroup? at found
  split at found
  · next afterQuote opened =>
      split at found
      · next last behind closed =>
          simp only [Option.some.injEq, Prod.mk.injEq] at found
          have quote : (!isQuote last) = false := by
            apply @head_drop_fails (fun c => !isQuote c) afterQuote
            rw [closed]
            rfl
          have last_eq : last = '"' := by simpa [isQuote] using quote
          have outer := @List.takeWhile_append_dropWhile _ isPlain text
          have inner := @List.takeWhile_append_dropWhile _ (fun c => !isQuote c) afterQuote
          rw [opened] at outer
          rw [closed, last_eq] at inner
          rw [← found.1, ← found.2.1, ← found.2.2, inner, outer]
      · cases found
  · cases found

theorem take_word_append_rest (text : List Char) :
    (takeWord text).1 ++ (takeWord text).2 = text := by
  fun_induction takeWord text with
  | case1 text before inside after found more rest split ih =>
      rw [split] at ih
      rw [← take_group_append found, ← ih]
      simp
  | case2 text found => exact List.takeWhile_append_dropWhile

theorem infix_words {text word : List Char} (member : word ∈ words text) : word <:+: text := by
  fun_induction words text with
  | case1 => cases member
  | case2 first others rest taken ih =>
      exact (ih member).trans (List.suffix_cons first others).isInfix
  | case3 first others start more rest taken shorter ih =>
      have whole := take_word_append_rest (first :: others)
      rw [taken] at whole
      rcases List.mem_cons.mp member with same | later
      · rw [same, ← whole]
        exact (List.prefix_append _ _).isInfix
      · rw [← whole]
        exact (ih later).trans (List.suffix_append _ _).isInfix

theorem infix_enclosed (text : List Char) (opening closing : Nat) :
    enclosed text opening closing <:+: text := by
  have inside (first last : Nat) : (text.take last).drop first <:+: text := by
    have front : text.take last <+: text := List.take_prefix last text
    exact (List.drop_suffix _ _).isInfix.trans front.isInfix
  unfold enclosed
  split
  · exact inside _ _
  · exact inside _ _

/-- The same for the cut into statements, where a finished piece is trimmed. -/
theorem close_parts {cutting : Cutting} {text : List Char}
    (parts : ∀ piece ∈ cutting.pieces, piece <:+: text)
    (last : cutting.openPiece.reverse <:+ text) :
    ∀ piece ∈ cutting.close.pieces, piece <:+: text := by
  intro piece member
  unfold Cutting.close at member
  dsimp only at member
  split at member
  · exact parts piece member
  · rcases List.mem_cons.mp member with same | old
    · rw [same]
      exact (infix_trim _).trans last.isInfix
    · exact parts piece old

theorem fold_pieces_parts (text : List Char) :
    (∀ piece ∈ (text.foldl Cutting.step ⟨0, [], []⟩).pieces, piece <:+: text) ∧
      (text.foldl Cutting.step ⟨0, [], []⟩).openPiece.reverse <:+ text := by
  induction text using List.reverseRecOn with
  | nil => exact ⟨nofun, List.suffix_refl _⟩
  | append_singleton front c ih =>
      rw [List.foldl_append, List.foldl_cons, List.foldl_nil]
      have longer : front <:+: front ++ [c] := (List.prefix_append front [c]).isInfix
      unfold Cutting.step
      split
      · refine ⟨fun piece member => ?_, List.nil_suffix⟩
        exact (close_parts ih.1 ih.2 piece member).trans longer
      · refine ⟨fun piece member => (ih.1 piece member).trans longer, ?_⟩
        rw [List.reverse_cons]
        exact List.suffix_append_self_iff.mpr ih.2

theorem infix_pieces {text piece : List Char} (member : piece ∈ pieces text) : piece <:+: text :=
  close_parts (fold_pieces_parts text).1 (fold_pieces_parts text).2 piece
    (List.mem_reverse.mp member)

/-- Neither the command nor an argument of the statement contains the word. -/
structure Lacks (word : List Char) (statement : Statement) : Prop where
  command : ¬word <:+: statement.command.toList
  arguments : ∀ argument ∈ statement.arguments, ¬word <:+: argument.toList

section

variable {word text : List Char} (long : 2 ≤ word.length) (lacks : ¬word <:+: text)
include lacks

theorem lacks_part {part : List Char} (inside : part <:+: text) : ¬word <:+: part :=
  fun found => lacks (found.trans inside)

theorem of_words_lacks {line : Nat} {statement : Statement}
    (read : ofWords text line = .ok statement) : statement.Lacks word := by
  unfold ofWords at read
  split at read
  · next command arguments same =>
      cases read
      have part (token : String) (member : token ∈ command :: arguments) :
          ¬word <:+: token.toList := by
        rw [← same] at member
        rcases List.mem_map.mp member with ⟨characters, there, shown⟩
        rw [← shown, String.toList_ofList]
        exact lacks_part lacks (infix_words there)
      exact ⟨part command List.mem_cons_self, fun argument member =>
        part argument (List.mem_cons_of_mem _ member)⟩
  · cases read

include long in
theorem of_block_lacks (opening closing line : Nat) :
    (ofBlock text opening closing line).Lacks word := by
  -- A word of two characters or more is no part of a brace.
  have short {part : List Char} (few : part.length < 2) : ¬word <:+: part := by
    intro found
    have longer := found.length_le
    omega
  have head (token : String)
      (member : token ∈ (blankWords (text.take opening)).map String.ofList) :
      ¬word <:+: token.toList := by
    rcases List.mem_map.mp member with ⟨characters, there, shown⟩
    rw [← shown, String.toList_ofList]
    have front : text.take opening <+: text := List.take_prefix opening text
    exact lacks_part lacks ((infix_blank_words there).trans front.isInfix)
  constructor
  · unfold ofBlock
    dsimp only
    cases front : (blankWords (text.take opening)).map String.ofList with
    | nil => exact short (by decide)
    | cons first rest =>
        apply head
        rw [front]
        exact List.mem_cons_self
  · intro argument member
    unfold ofBlock at member
    dsimp only at member
    rcases List.mem_append.mp member with front | block
    · exact head argument (List.mem_of_mem_tail front)
    · simp only [List.mem_cons, List.not_mem_nil, or_false] at block
      rcases block with same | same | same
      · rw [same]
        exact short (by decide)
      · rw [same, String.toList_ofList]
        exact lacks_part lacks ((infix_trim _).trans (infix_enclosed text opening closing))
      · rw [same]
        exact short (by decide)

include long in
theorem of_piece_lacks {line : Nat} {statement : Statement}
    (read : ofPiece text line = .ok statement) : statement.Lacks word := by
  unfold ofPiece at read
  dsimp only at read
  split at read
  · split at read
    · cases read
      exact of_block_lacks long lacks _ _ line
    · exact of_words_lacks lacks read
  · exact of_words_lacks lacks read

end

theorem of_pieces_lacks {word : List Char} (long : 2 ≤ word.length) {line : Nat}
    {pieces : List (List Char)} {statements : List Statement}
    (lacks : ∀ piece ∈ pieces, ¬word <:+: piece)
    (read : ofPieces line pieces = .ok statements) :
    ∀ statement ∈ statements, statement.Lacks word := by
  induction pieces generalizing line statements with
  | nil =>
      cases read
      exact nofun
  | cons piece rest ih =>
      unfold ofPieces at read
      split at read
      · cases read
      · next first one =>
          split at read
          · cases read
          · next others more =>
              cases read
              intro statement member
              rcases List.mem_cons.mp member with same | later
              · rw [same]
                exact of_piece_lacks long (lacks piece List.mem_cons_self) one
              · exact ih (fun other there => lacks other (List.mem_cons_of_mem _ there)) more
                  statement later

/-- What a text lacks, the statements read from it lack. -/
theorem parse_lacks {word : List Char} (long : 2 ≤ word.length) {source : String}
    {statements : List Statement} (lacks : ¬word <:+: source.toList)
    (read : parse source = .ok statements) : ∀ statement ∈ statements, statement.Lacks word :=
  of_pieces_lacks long (fun _ member => lacks_part lacks (infix_pieces member)) read

theorem body_lacks {word : List Char} (long : 2 ≤ word.length) {statement : Statement}
    (lacks : statement.Lacks word) {opening : Nat} {body : List Statement}
    (read : statement.bodyStatements opening = .ok body) :
    ∀ inner ∈ body, inner.Lacks word := by
  unfold bodyStatements at read
  split at read
  · next text found =>
      apply parse_lacks long _ read
      apply lacks.arguments
      unfold body? at found
      split at found
      · split at found
        · cases found
        · exact List.mem_of_getElem? found
      · cases found
  · cases read

end Statement

end ScriptSandbox
