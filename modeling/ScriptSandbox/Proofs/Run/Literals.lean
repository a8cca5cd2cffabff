import ScriptSandbox.Embedding
import ScriptSandbox.Proofs.Number.Numerals
import ScriptSandbox.Proofs.Run.Acts
import ScriptSandbox.Proofs.Statement.Heads

/-!
Quoted texts are printed as they stand. A text without quotes is one word when it stands in quotes,
whatever blanks it holds, and a token in quotes is its text and nothing else. So a program that logs
one quoted text after the other writes these texts.
-/

namespace ScriptSandbox

open ScriptSandbox.Text
open Statement (inQuotes trimmed_in_quotes quoted_in_quotes)

/-- No number is written with a quote. -/
theorem Number.of_text_in_quotes (text : List Char) :
    (ofText (String.ofList (inQuotes text))).isNaN = true := by
  by_contra number
  have some : ofText (String.ofList (inQuotes text)) ≠ .nan := by
    intro nan
    rw [nan] at number
    exact number rfl
  have numeric := numeric_of_number some
  rw [String.toList_ofList, trim_of_trimmed (trimmed_in_quotes text)] at numeric
  rcases numeric with blank | ⟨sign, infinite⟩ | ⟨mark, radix, digits, -, -, announced⟩ |
    ⟨sign, numeral, shown⟩
  · cases blank
  · cases sign <;> cases infinite
  · cases announced
  · have member : '"' ∈ sign.text ++ numeral.text := by
      rw [← shown]
      exact List.mem_cons_self
    rcases numeral_character member with digit | mark
    · cases digit
    · exact absurd mark (by decide)

theorem Lexeme.of_token_in_quotes (scope : Scope) (text : String) :
    ofToken scope (String.ofList (inQuotes text.toList)) = .ok (.scalar (.string text)) := by
  have nan := Number.of_text_in_quotes text.toList
  have between : isBetween '"' '"' (inQuotes text.toList) = true := by
    rw [inQuotes, isBetween, ← List.cons_append, List.getLast?_concat]
    rfl
  have held : String.ofList (inner (inQuotes text.toList)) = text := by
    rw [inner, inQuotes, List.drop_succ_cons, List.drop_zero, List.dropLast_concat,
      String.ofList_toList]
  rw [ofToken]
  simp only [nan, Bool.not_true, Bool.false_eq_true, if_false, String.toList_ofList, between, if_true,
    held]

namespace Statement

/-- Whether a text can stand in quotes within a statement: it has no quote, no terminator outside
its braces, and its braces match, a closing one too many let through. -/
structure Printable (text : String) : Prop where
  unquoted : '"' ∉ text.toList
  unbroken : Unbroken 0 text.toList
  matching : text.toList.foldl braceDepth 0 = 0

/-- The statement that logs a text. -/
def logLine (text : String) : String :=
  "log \"" ++ text ++ "\""

theorem to_list_log_line (text : String) :
    (logLine text).toList = ['l', 'o', 'g'] ++ ' ' :: inQuotes text.toList := by
  simp [logLine, inQuotes]

namespace Printable

variable {text : String} (printable : Printable text)
include printable

theorem unbroken_line : Unbroken 0 (logLine text).toList := by
  have quote : Unbraced ['"'] := by decide
  have opened : Unbraced ['l', 'o', 'g', ' ', '"'] := by decide
  have closed : Unbroken 0 (text.toList ++ ['"']) := by
    apply printable.unbroken.append
    rw [printable.matching]
    exact quote.unbroken_whole 0
  rw [to_list_log_line]
  exact opened.unbroken closed

theorem matching_line : (logLine text).toList.foldl braceDepth 0 = 0 := by
  have quote : Unbraced ['"'] := by decide
  have opened : Unbraced ['l', 'o', 'g', ' ', '"'] := by decide
  have split : (logLine text).toList = ['l', 'o', 'g', ' ', '"'] ++ (text.toList ++ ['"']) :=
    to_list_log_line text
  rw [split, List.foldl_append, opened.depth, List.foldl_append, printable.matching, quote.depth]

end Printable

theorem log_plain : ∀ c ∈ ['l', 'o', 'g'], isPlain c = true :=
  List.all_eq_true.mp (by decide)

theorem pieces_line {text : String} (printable : Printable text) :
    pieces (logLine text).toList = [trim (logLine text).toList] := by
  have unbroken := printable.unbroken_line
  rw [to_list_log_line] at unbroken ⊢
  exact pieces_of_command (List.cons_ne_nil _ _) log_plain unbroken

/-- The quoted text is the only argument. -/
theorem of_piece_line {text : String} (free : '"' ∉ text.toList) (line : Nat) :
    ofPiece (trim (logLine text).toList) line =
      .ok ⟨"log", [String.ofList (inQuotes text.toList)], line⟩ := by
  have only : words (inQuotes text.toList) = [inQuotes text.toList] := by
    have first := words_append (List.cons_ne_nil _ _) (quoted_in_quotes free) .nil
    rwa [List.append_nil, words] at first
  rw [to_list_log_line, of_piece_command (List.cons_ne_nil _ _) log_plain (by decide), only]
  rfl

/-- The program that logs texts, one statement a line. -/
def logProgram (texts : List String) : String :=
  "\n".intercalate (texts.map logLine)

/-- The statements log the texts, each one in quotes. -/
def Logs (texts : List String) (statements : List Statement) : Prop :=
  List.Forall₂ (fun text statement => statement.command = "log" ∧
    statement.arguments = [String.ofList (inQuotes text.toList)]) texts statements

theorem pieces_log_program {texts : List String} (printable : ∀ text ∈ texts, Printable text) :
    pieces (logProgram texts).toList = texts.map fun text => trim (logLine text).toList := by
  induction texts with
  | nil => rfl
  | cons text others ih =>
      obtain ⟨first, rest⟩ := List.forall_mem_cons.mp printable
      cases others with
      | nil =>
          have only : logProgram [text] = logLine text := String.intercalate_singleton
          rw [only, pieces_line first, List.map_singleton]
      | cons second more =>
          have lines : (logProgram (text :: second :: more)).toList =
              (logLine text).toList ++ '\n' :: (logProgram (second :: more)).toList := by
            simp [logProgram, String.intercalate_cons_cons]
          rw [lines, pieces_append first.matching_line (by decide), pieces_line first, ih rest]
          rfl

theorem of_pieces_log_program {texts : List String} (printable : ∀ text ∈ texts, Printable text)
    (line : Nat) : ∃ statements,
      ofPieces line (texts.map fun text => trim (logLine text).toList) = .ok statements ∧
        Logs texts statements := by
  induction texts generalizing line with
  | nil => exact ⟨[], rfl, .nil⟩
  | cons text others ih =>
      obtain ⟨first, rest⟩ := List.forall_mem_cons.mp printable
      obtain ⟨statements, read, logs⟩ := ih rest (line + 1)
      exact ⟨_, of_pieces_cons (of_piece_line first.unquoted line) read, .cons ⟨rfl, rfl⟩ logs⟩

end Statement

namespace Machine

/-- A token that stands for a value evaluates to it. -/
theorem evaluate_scalar {token : String} {value : Value} {machine : Machine}
    (found : Lexeme.ofToken machine.scope token = .ok (.scalar value)) (line : Nat) :
    machine.evaluate [token] line = (.ok value, machine) := by
  rw [evaluate, evaluateWith, compileWith, found]
  dsimp only
  rw [compileWith]
  rfl

theorem evaluate_in_quotes (text : String) (line : Nat) (machine : Machine) :
    machine.evaluate [String.ofList (inQuotes text.toList)] line = (.ok (.string text), machine) :=
  evaluate_scalar (Lexeme.of_token_in_quotes machine.scope text) line

theorem evaluate_number {token : String} (number : (Number.ofText token).isNaN = false) (line : Nat)
    (machine : Machine) :
    machine.evaluate [token] line = (.ok (.number (Number.ofText token)), machine) := by
  apply evaluate_scalar
  simp only [Lexeme.ofToken, number]
  rfl

theorem control_of_records (events : List Event) (machine : Machine) :
    (events.foldl record machine).control = machine.control := by
  induction events generalizing machine with
  | nil => rfl
  | cons event rest ih => exact ih (machine.record event)

end Machine

namespace Interpreter

open Statement

/-- Statements that log texts write them and change nothing else. -/
theorem run_statements_logs {texts : List String} {statements : List Statement}
    (logs : Logs texts statements) (fuel : Nat) {machine : Machine}
    (running : machine.isHalted = false) :
    runStatements (execute (fuel + 1)) statements machine =
      some ((texts.map Event.log).foldl Machine.record machine) := by
  induction logs generalizing machine with
  | nil => rfl
  | @cons text statement texts statements logged rest ih =>
      obtain ⟨command, arguments, line⟩ := statement
      obtain ⟨rfl, rfl⟩ := logged
      have written : execute (fuel + 1) ⟨"log", [String.ofList (inQuotes text.toList)], line⟩ machine =
          some (.ok .next, machine.record (.log text)) := by
        show some (PlainCommand.runLog _ machine) = _
        rw [PlainCommand.runLog, Machine.evaluate_in_quotes]
        rfl
      rw [runStatements, running, written]
      exact ih running

end Interpreter

theorem lines_of_logs (texts : List String) :
    (texts.map Event.log).filterMap Event.line? = texts.map (false, ·) := by
  rw [List.filterMap_map]
  exact congrFun List.filterMap_eq_map texts

/-- Quoted texts are logged as they stand, in order and without an error. -/
theorem run_log_program {texts : List String} (printable : ∀ text ∈ texts, Statement.Printable text)
    (fuel limit : Nat) (host : Host) : ∃ report final,
      run (fuel + 1) limit (Statement.logProgram texts) host = some (report, final) ∧
        report.exitCode = 0 ∧
        final.outputLines = host.outputLines ++ texts.map (false, ·) ∧
        final.events.toList =
          host.events.toList ++ .readClock :: (texts.map Event.log ++ [.readClock]) := by
  obtain ⟨statements, read, logs⟩ := Statement.of_pieces_log_program printable 1
  have parsed : Statement.parse (Statement.logProgram texts) = .ok statements := by
    rw [Statement.parse, Statement.pieces_log_program printable, read]
  let start := Machine.start limit host
  let ended := (texts.map Event.log).foldl Machine.record start
  have ran : Interpreter.runProgram (Interpreter.execute (fuel + 1)) (Statement.logProgram texts)
      start = some ended := by
    rw [Interpreter.runProgram, parsed]
    exact Interpreter.run_statements_logs logs fuel rfl
  have control : ended.control = .start limit := Machine.control_of_records _ start
  have started : start.host.events.toList = host.events.toList ++ [.readClock] := Array.toList_push
  have events : ended.elapsed.2.host.events.toList =
      host.events.toList ++ .readClock :: (texts.map Event.log ++ [.readClock]) := by
    calc (ended.host.events.push .readClock).toList
        = ended.host.events.toList ++ [.readClock] := Array.toList_push
      _ = start.host.events.toList ++ texts.map Event.log ++ [.readClock] := by
          rw [Machine.events_of_records]
      _ = host.events.toList ++ .readClock :: (texts.map Event.log ++ [.readClock]) := by
          rw [started, List.append_assoc, List.append_assoc, List.singleton_append]
  refine ⟨⟨ended.control.exitCode, ended.elapsed.1⟩, ended.elapsed.2.host, ?_, ?_, ?_, events⟩
  · rw [run, ran]
  · rw [control]
    rfl
  · rw [Host.outputLines, Host.outputLines, events, List.filterMap_append,
      List.filterMap_cons_none rfl, List.filterMap_append, lines_of_logs]
    exact congrArg (_ ++ ·) (List.append_nil _)

/-- Blanks, digits, a block with a terminator in it and letters beyond ASCII. -/
theorem run_log_program_kept : ∃ report final,
    run 1 1 "log \"  a  b \"\nlog \"12\"\nlog \"\x7b 1; 2 \x7d é\"" (Embedding.host 0) =
        some (report, final) ∧
      report.exitCode = 0 ∧
      final.outputLines = [(false, "  a  b "), (false, "12"), (false, "\x7b 1; 2 \x7d é")] := by
  have printable : ∀ text ∈ ["  a  b ", "12", "\x7b 1; 2 \x7d é"], Statement.Printable text := by
    intro text member
    simp only [List.mem_cons, List.not_mem_nil, or_false] at member
    rcases member with rfl | rfl | rfl <;> exact ⟨by decide, by decide, by decide⟩
  obtain ⟨report, final, ran, code, lines, -⟩ := run_log_program printable 0 1 (Embedding.host 0)
  exact ⟨report, final, ran, code, lines⟩

end ScriptSandbox
