import ScriptSandbox.Proofs.Run.Frames
import ScriptSandbox.Proofs.Run.Halting
import ScriptSandbox.Proofs.Statement.Composition
import ScriptSandbox.Proofs.Statement.OnePass

/-!
Program text that cannot be read. The only statement text without a word is a quote that stands alone,
so reading fails exactly where one does, at the first of them and as a whole. A program that cannot be
read reports why and executes nothing.
-/

namespace ScriptSandbox

namespace Text

theorem nil_of_blank_start {front rest : List Char}
    (starts : ∀ c ∈ (front ++ rest).head?, isBlank c = false)
    (blank : ∀ c ∈ front, isBlank c = true) : front = [] := by
  cases front with
  | nil => rfl
  | cons c more =>
      have solid := starts c rfl
      rw [blank c List.mem_cons_self] at solid
      cases solid

theorem nil_of_blank_end {front rest : List Char}
    (ends : ∀ c ∈ (front ++ rest).getLast?, isBlank c = false)
    (blank : ∀ c ∈ rest, isBlank c = true) : rest = [] := by
  rw [← List.head?_reverse, List.reverse_append] at ends
  apply List.reverse_eq_nil_iff.mp
  apply nil_of_blank_start ends
  intro c member
  exact blank c (List.mem_reverse.mp member)

end Text

namespace Statement

open Text

/-- A quote that stands alone. -/
def loneQuote : List Char := ['"']

theorem words_lone : words loneQuote = [] :=
  (words_eq_paired_words loneQuote).trans rfl

/-- Blanks apart, words lose one quote at most, so nothing but a quote can be lost as a whole. -/
theorem words_eq_nil_iff {text : List Char} (filled : Filled text) :
    words text = [] ↔ text = loneQuote := by
  constructor
  · intro none
    have kept := words_kept text
    rw [none, List.flatten_nil] at kept
    generalize seen : visible [] = all at kept
    cases kept with
    | whole paired =>
        have blank := visible_eq_nil_iff.mp seen.symm
        have starts : ∀ c ∈ (text ++ []).head?, isBlank c = false := by
          rw [List.append_nil]
          exact filled.trimmed.1
        exact absurd (nil_of_blank_start starts blank) filled.nonempty
    | @unmatched front back same lone =>
        obtain ⟨starts, ends⟩ := filled.trimmed
        have blank := visible_eq_nil_iff.mp seen.symm
        obtain ⟨before, behind⟩ := List.forall_mem_append.mp blank
        rw [same] at starts
        rw [same, List.append_cons] at ends
        rw [same, nil_of_blank_start starts before, nil_of_blank_end ends behind]
        rfl
  · intro lone
    rw [lone]
    exact words_lone

/-- How a statement is read from its text: it has a command, and the places of the braces are places
of the text. -/
structure ReadFrom (text : List Char) (statement : Statement) : Prop where
  read : ofPiece text statement.line = .ok statement
  named : statement.command ≠ ""
  within : ∀ opening closing, firstOpening? text = some opening → lastClosing? text = some closing →
    opening < text.length ∧ closing < text.length

theorem braces_within {text : List Char} {opening closing : Nat}
    (opens : firstOpening? text = some opening) (closes : lastClosing? text = some closing) :
    opening < text.length ∧ closing < text.length := by
  have first := (List.findIdx?_eq_some_iff_findIdx_eq.mp opens).1
  obtain ⟨fromEnd, -, rfl⟩ := Option.map_eq_some_iff.mp closes
  exact ⟨first, by omega⟩

theorem of_words_named {text : List Char} (filled : Filled text) (other : text ≠ loneQuote)
    (line : Nat) : ∃ statement, ofWords text line = .ok statement ∧ statement.line = line ∧
      statement.command ≠ "" := by
  obtain ⟨first, others, same⟩ := List.exists_cons_of_ne_nil fun none =>
    other ((words_eq_nil_iff filled).mp none)
  have holds : first ≠ [] := by
    apply And.left
    apply @mem_words text
    rw [same]
    exact List.mem_cons_self
  refine ⟨⟨String.ofList first, others.map String.ofList, line⟩, ?_, rfl, ?_⟩
  · rw [ofWords, same]
    rfl
  · intro empty
    exact holds (String.ofList_eq_empty_iff.mp empty)

/-- The first word of a block holds no brace, so it stands before the opening one as a whole. -/
theorem of_block_named {text : List Char} (filled : Filled text) (takes : TakesBlock text)
    {opening : Nat} (opens : firstOpening? text = some opening) (closing line : Nat) :
    (ofBlock text opening closing line).command ∈ blockCommands := by
  obtain ⟨known, braced, -⟩ := takes
  obtain ⟨word, rest, rfl, free, ends⟩ := exists_first_word text
  have holds : word ≠ [] := by
    rintro rfl
    obtain ⟨c, more, rfl⟩ := List.exists_cons_of_ne_nil filled.nonempty
    have solid := filled.trimmed.1 c rfl
    rw [ends c rfl] at solid
    cases solid
  rw [blank_words_word holds free ends, List.headD_cons] at known
  have unbraced : '\x7b' ∉ word := by
    intro member
    rw [← String.toList_ofList (l := word)] at member
    exact (block_command_free known _ member).2.2.1 rfl
  obtain ⟨before, after, rfl, first⟩ := List.eq_append_cons_of_mem
    ((List.mem_append.mp braced).resolve_left unbraced)
  have place : opening = (word ++ before).length := by
    have found := @first_opening_before (word ++ before) (by simp [unbraced, first]) after
    rw [List.append_assoc] at found
    exact Option.some.inj (opens.symm.trans found)
  have stops : EndsWord before := by
    cases before with
    | nil => exact .nil
    | cons c more => exact .of_blank (ends c rfl) more
  rw [ofBlock, place, ← List.append_assoc, List.take_left, blank_words_word holds free stops]
  exact known

theorem of_piece_lone (line : Nat) :
    ofPiece loneQuote line = .error (.malformed line .missingCommand) := by
  have unblocked : ¬TakesBlock loneQuote := by simp [TakesBlock, loneQuote]
  rw [of_piece_words_eq unblocked, ofWords, words_lone]
  rfl

theorem of_piece_read {text : List Char} (filled : Filled text) (other : text ≠ loneQuote)
    (line : Nat) :
    ∃ statement, ofPiece text line = .ok statement ∧ statement.line = line ∧
      ReadFrom text statement := by
  by_cases takes : TakesBlock text
  · obtain ⟨before, inner, opened, first⟩ := List.eq_append_cons_of_mem takes.2.1
    obtain ⟨front, tail, closed, last⟩ := last_of_mem takes.2.2
    have opens : firstOpening? text = some before.length := by
      rw [opened]
      exact first_opening_before first inner
    have closes : lastClosing? text = some front.length := by
      rw [closed]
      exact last_closing_behind last front
    have read := of_piece_block_eq takes opens closes line
    refine ⟨_, read, rfl, read, ?_, fun _ _ => braces_within⟩
    have known := of_block_named filled takes opens front.length line
    intro empty
    rw [empty] at known
    exact absurd known (by decide)
  · obtain ⟨statement, read, rfl, named⟩ := of_words_named filled other line
    rw [of_piece_words_eq takes]
    refine ⟨statement, read, rfl, ?_, named, fun _ _ => braces_within⟩
    rw [of_piece_words_eq takes]
    exact read

theorem of_pieces_read {texts : List (List Char)} (filled : ∀ text ∈ texts, Filled text)
    (none : loneQuote ∉ texts) (line : Nat) :
    ∃ statements, ofPieces line texts = .ok statements ∧ List.Forall₂ ReadFrom texts statements ∧
      statements.map Statement.line = List.range' line texts.length := by
  induction texts generalizing line with
  | nil => exact ⟨[], rfl, .nil, rfl⟩
  | cons text rest ih =>
      obtain ⟨first, others⟩ := List.forall_mem_cons.mp filled
      rw [List.mem_cons, not_or] at none
      obtain ⟨other, absent⟩ := none
      obtain ⟨statement, read, placed, shape⟩ := of_piece_read first (Ne.symm other) line
      obtain ⟨statements, readRest, shapes, lines⟩ := ih others absent (line + 1)
      refine ⟨statement :: statements, of_pieces_cons read readRest, .cons shape shapes, ?_⟩
      rw [List.map_cons, placed, lines]
      rfl

theorem of_pieces_lone {texts : List (List Char)} (filled : ∀ text ∈ texts, Filled text)
    (lone : loneQuote ∈ texts) (line : Nat) :
    ofPieces line texts =
      .error (.malformed (line + texts.idxOf loneQuote) .missingCommand) := by
  induction texts generalizing line with
  | nil => cases lone
  | cons text rest ih =>
      obtain ⟨first, others⟩ := List.forall_mem_cons.mp filled
      by_cases same : text = loneQuote
      · rw [same, List.idxOf_cons_self, ofPieces, of_piece_lone]
        rfl
      · have later := (List.mem_cons.mp lone).resolve_left (Ne.symm same)
        obtain ⟨statement, read, -, -⟩ := of_piece_read first same line
        rw [ofPieces, read, ih others later, List.idxOf_cons_ne _ same, Nat.add_right_comm]
        rfl

end Statement

open Interpreter

/-- A program that only reports a fault: what executes statements is not asked, nothing is executed,
and the report and the halt are all that a run leaves behind. -/
structure OnlyReports (source : String) (fault : Fault) : Prop where
  reports : ∀ execute machine, runProgram execute source machine = some (machine.fail fault)
  idle : ∀ fuel limit host frames point, ¬Executed fuel limit source host frames point
  whole : ∀ fuel limit host, ∃ report final, run fuel limit source host = some (report, final) ∧
    report.exitCode = 1 ∧ final.store = host.store ∧
    final.events.toList = host.events.toList ++
      [.readClock, .error fault.message, .halt Control.errorPayload, .readClock]

theorem only_reports_of_unread {source : String} {fault : Fault}
    (unread : Statement.parse source = .error fault) : OnlyReports source fault := by
  have reports (execute : Executor) (machine : Machine) :
      runProgram execute source machine = some (machine.fail fault) := by
    rw [runProgram, unread]
  refine ⟨reports, ?_, ?_⟩
  · intro fuel limit host frames point executed
    induction executed with
    | program comes =>
        obtain ⟨before, after, read, -⟩ := comes
        rw [unread] at read
        cases read
    | entered executed enters ih => exact ih
    | nested executed nests ih => exact ih
  · intro fuel limit host
    let failed := (Machine.start limit host).fail fault
    have code : failed.control.exitCode = 1 := Control.exit_code_of_error rfl
    refine ⟨⟨failed.control.exitCode, failed.elapsed.1⟩, failed.elapsed.2.host, ?_, ?_, rfl, ?_⟩
    · rw [run, reports]
    · dsimp only
      exact code
    · simp [failed, Machine.fail, Machine.halt, Machine.record, Machine.start, Machine.elapsed,
        Host.readClock, Host.record]

open Statement

/-- Reading fails exactly when a statement text is a lone quote. The fault is that of the first of them,
and nothing of the program is executed. Otherwise every statement text is read into one statement with
a command, numbered from 1. -/
theorem parse_fails_iff_lone_quote (source : String) :
    ((∃ fault, parse source = .error fault) ↔ loneQuote ∈ pieces source.toList) ∧
      (loneQuote ∈ pieces source.toList → ∃ fault,
        fault = .malformed ((pieces source.toList).idxOf loneQuote + 1) .missingCommand ∧
        fault.message =
          "Missing command. Line: " ++ toString ((pieces source.toList).idxOf loneQuote + 1) ∧
        parse source = .error fault ∧ OnlyReports source fault) ∧
      (loneQuote ∉ pieces source.toList → ∃ statements,
        parse source = .ok statements ∧ List.Forall₂ ReadFrom (pieces source.toList) statements ∧
        statements.map Statement.line = List.range' 1 (pieces source.toList).length) := by
  have filled : ∀ text ∈ pieces source.toList, Filled text := by
    intro text member
    exact ((separable_pieces source.toList).single text member).toFilled
  have fails (lone : loneQuote ∈ pieces source.toList) : parse source =
      .error (.malformed ((pieces source.toList).idxOf loneQuote + 1) .missingCommand) := by
    rw [parse, of_pieces_lone filled lone, Nat.add_comm]
  refine ⟨⟨?_, ?_⟩, ?_, ?_⟩
  · rintro ⟨fault, failed⟩
    by_contra none
    obtain ⟨statements, read, -⟩ := of_pieces_read filled none 1
    rw [parse, read] at failed
    cases failed
  · intro lone
    exact ⟨_, fails lone⟩
  · intro lone
    refine ⟨_, rfl, ?_, fails lone, only_reports_of_unread (fails lone)⟩
    have words : "Missing command" ++ ". Line: " = "Missing command. Line: " := by decide
    rw [← words]
    rfl
  · intro none
    exact of_pieces_read filled none 1

/-- The second of two lone quotes is not come to, and braces in the wrong order are no fault. -/
theorem parse_fails_iff_lone_quote_second :
    (parse "log 1; \"\n\" a\n\"" = .error (.malformed 2 .missingCommand) ∧
      OnlyReports "log 1; \"\n\" a\n\"" (.malformed 2 .missingCommand)) ∧
      ∃ statements, parse "\" a\nwhile \x7d \x7b" = .ok statements ∧
        List.Forall₂ ReadFrom ["\" a".toList, "while \x7d \x7b".toList] statements ∧
        statements.map Statement.line = [1, 2] := by
  constructor
  · obtain ⟨-, fails, -⟩ := parse_fails_iff_lone_quote "log 1; \"\n\" a\n\""
    obtain ⟨fault, same, -, failed, only⟩ := fails (by decide +kernel)
    have place : (pieces "log 1; \"\n\" a\n\"".toList).idxOf loneQuote = 1 := by decide +kernel
    rw [place] at same
    rw [same] at failed only
    exact ⟨failed, only⟩
  · obtain ⟨-, -, reads⟩ := parse_fails_iff_lone_quote "\" a\nwhile \x7d \x7b"
    obtain ⟨statements, read, shapes, lines⟩ := reads (by decide +kernel)
    have cuts : pieces "\" a\nwhile \x7d \x7b".toList =
        ["\" a".toList, "while \x7d \x7b".toList] := by
      decide +kernel
    rw [cuts] at shapes lines
    exact ⟨statements, read, shapes, lines⟩

end ScriptSandbox
