import Mathlib.Data.List.Forall2
import ScriptSandbox.Host.Standalone
import ScriptSandbox.Proofs.Run.Fuel
import ScriptSandbox.Proofs.Run.Lines
import ScriptSandbox.Proofs.Statement.Parts
import ScriptSandbox.Proofs.Statement.Words

/-!
Comments are invisible. A comment between two statements is one piece of the program text, whatever
quotes and braces it holds, and it is read as a statement that does nothing. All it does is to move
the statements behind it by a line, and lines are seen in the texts of errors only.
-/

namespace ScriptSandbox

namespace Text

theorem trim_end_cons {c : Char} (solid : isBlank c = false) (text : List Char) :
    trimEnd (c :: text) = c :: trimEnd text := by
  unfold trimEnd
  rw [List.reverse_cons, List.dropWhile_append]
  split
  · next blank =>
      have none : text.reverse.dropWhile isBlank = [] := by simpa using blank
      simp [solid, none]
  · simp

end Text

namespace Statement

open Text

def commentMark : List Char := ['#', ' ']

/-- A comment without the blanks at its end is its mark and what can follow a word. -/
theorem trim_comment (text : List Char) :
    ∃ rest, trim (commentMark ++ text) = '#' :: rest ∧ EndsWord rest := by
  have solid : isBlank '#' = false := by decide
  refine ⟨trimEnd (' ' :: text), ?_, ?_⟩
  · have starts : trimStart ('#' :: ' ' :: text) = '#' :: ' ' :: text := by
      simp [trimStart, solid]
    rw [commentMark, List.cons_append, List.cons_append, List.nil_append, trim, starts,
      trim_end_cons solid]
  · intro c member
    rcases prefix_trim_end (' ' :: text) with ⟨left, whole⟩
    cases ends : trimEnd (' ' :: text) with
    | nil => simp [ends] at member
    | cons first more =>
        rw [ends, List.cons_append, List.cons.injEq] at whole
        simp only [ends, List.head?_cons, Option.mem_def, Option.some.injEq] at member
        rw [← member, whole.1]
        exact is_blank_space

/-- A comment is read as one, whatever stands in it. -/
theorem of_piece_comment (text : List Char) (line : Nat) :
    ∃ arguments, ofPiece (trim (commentMark ++ text)) line = .ok ⟨"#", arguments, line⟩ := by
  obtain ⟨rest, trimmed, ends⟩ := trim_comment text
  have first : (blankWords ('#' :: rest)).headD [] = ['#'] :=
    @head_blank_words ['#'] rest (by simp) (List.forall_mem_singleton.mpr (by decide)) ends
  have cut : words ('#' :: rest) = ['#'] :: words rest :=
    @words_append ['#'] (by simp) (by decide) rest ends
  have plain : ¬blockCommands.contains (String.ofList ['#']) = true := by decide
  refine ⟨(words rest).map String.ofList, ?_⟩
  rw [trimmed, ofPiece, first, if_neg plain, ofWords, cut]
  rfl

theorem pieces_of_comment {text : List Char} (unbroken : Unbroken 0 text) :
    pieces (commentMark ++ text) = [trim (commentMark ++ text)] := by
  obtain ⟨rest, trimmed, -⟩ := trim_comment text
  apply pieces_of_unbroken
  · exact ⟨by decide, by decide, unbroken⟩
  · simp [trimmed]

/-- The second list of statement texts is the first with comments put in. -/
inductive Annotated : List (List Char) → List (List Char) → Prop
  | nil : Annotated [] []
  | keep (piece : List Char) {pieces others : List (List Char)} (rest : Annotated pieces others) :
      Annotated (piece :: pieces) (piece :: others)
  | insert {comment : List Char}
      (comments : ∀ line, ∃ arguments, ofPiece comment line = .ok ⟨"#", arguments, line⟩)
      {pieces others : List (List Char)} (rest : Annotated pieces others) :
      Annotated pieces (comment :: others)

/-- The second list of statements is the first with comments put in and other lines. -/
inductive Shifted : List Statement → List Statement → Prop
  | nil : Shifted [] []
  | keep (command : String) (arguments : List String) (line other : Nat)
      {statements others : List Statement} (rest : Shifted statements others) :
      Shifted (⟨command, arguments, line⟩ :: statements) (⟨command, arguments, other⟩ :: others)
  | insert (arguments : List String) (line : Nat) {statements others : List Statement}
      (rest : Shifted statements others) : Shifted statements (⟨"#", arguments, line⟩ :: others)

theorem annotated_refl (pieces : List (List Char)) : Annotated pieces pieces := by
  induction pieces with
  | nil => exact .nil
  | cons piece rest ih => exact .keep piece ih

theorem annotated_between {comment : List Char}
    (comments : ∀ line, ∃ arguments, ofPiece comment line = .ok ⟨"#", arguments, line⟩)
    (before after : List (List Char)) :
    Annotated (before ++ after) (before ++ comment :: after) := by
  induction before with
  | nil => exact .insert comments (annotated_refl after)
  | cons piece rest ih => exact .keep piece ih

/-- Two readings of a program come to statements that are the first ones with comments put in, or
both fail for the same cause. -/
inductive ReadAlike : Except Fault (List Statement) → Except Fault (List Statement) → Prop
  | ok {statements others : List Statement} (shifted : Shifted statements others) :
      ReadAlike (.ok statements) (.ok others)
  | error {fault other : Fault} (alike : fault.Alike other) : ReadAlike (.error fault) (.error other)

/-- A statement text is read the same on every line. -/
theorem of_piece_moved (text : List Char) (line other : Nat) :
    (∃ command arguments, ofPiece text line = .ok ⟨command, arguments, line⟩ ∧
      ofPiece text other = .ok ⟨command, arguments, other⟩) ∨
    (∃ fault raised : Fault, fault.Alike raised ∧ ofPiece text line = .error fault ∧
      ofPiece text other = .error raised) := by
  have worded : (∃ command arguments, ofWords text line = .ok ⟨command, arguments, line⟩ ∧
        ofWords text other = .ok ⟨command, arguments, other⟩) ∨
      (∃ fault raised : Fault, fault.Alike raised ∧ ofWords text line = .error fault ∧
        ofWords text other = .error raised) := by
    unfold ofWords
    split
    · next command arguments found => exact .inl ⟨command, arguments, rfl, rfl⟩
    · exact .inr ⟨_, _, ⟨other, rfl⟩, rfl, rfl⟩
  unfold ofPiece
  dsimp only
  split
  · split
    · exact .inl ⟨_, _, rfl, rfl⟩
    · exact worded
  · exact worded

theorem of_pieces_annotated {pieces others : List (List Char)} (annotated : Annotated pieces others)
    (line other : Nat) : ReadAlike (ofPieces line pieces) (ofPieces other others) := by
  induction annotated generalizing line other with
  | nil => exact .ok .nil
  | keep piece rest ih =>
      simp only [ofPieces]
      rcases of_piece_moved piece line other with
        ⟨command, arguments, first, second⟩ | ⟨fault, raised, alike, first, second⟩
      · rw [first, second]
        dsimp only
        have later := ih (line + 1) (other + 1)
        generalize ofPieces (line + 1) _ = read at later ⊢
        generalize ofPieces (other + 1) _ = reread at later ⊢
        cases later with
        | ok shifted => exact .ok (.keep command arguments line other shifted)
        | error alike => exact .error alike
      · rw [first, second]
        exact .error alike
  | insert comments rest ih =>
      obtain ⟨arguments, read⟩ := comments other
      simp only [ofPieces, read]
      have later := ih line (other + 1)
      generalize ofPieces line _ = read at later ⊢
      generalize ofPieces (other + 1) _ = reread at later ⊢
      cases later with
      | ok shifted => exact .ok (.insert arguments other shifted)
      | error alike => exact .error alike

end Statement

/-- Two machines are the same, or differ in the line of the fault that halted them. -/
inductive Machine.EndsAlike : Machine → Machine → Prop
  | same (machine : Machine) : EndsAlike machine machine
  | failed (machine : Machine) {fault other : Fault} (alike : fault.Alike other) :
      EndsAlike (machine.fail fault) (machine.fail other)

namespace Interpreter

open Statement

/-- Statements with comments put in run as they do without, up to the fault that ends them. -/
theorem run_statements_shifted {statements others : List Statement}
    (shifted : Shifted statements others) (fuel : Nat) (machine : Machine) :
    Option.Rel Machine.EndsAlike (runStatements (execute (fuel + 1)) statements machine)
      (runStatements (execute (fuel + 1)) others machine) := by
  induction shifted generalizing machine with
  | nil => exact .some (.same machine)
  | @keep command arguments line other statements others rest ih =>
      cases halted : machine.isHalted with
      | true =>
          rw [run_statements_stopped _ _ halted, run_statements_stopped _ _ halted]
          exact .some (.same machine)
      | false =>
          have agrees : Option.Rel Agree (execute (fuel + 1) ⟨command, arguments, line⟩ machine)
              (execute (fuel + 1) ⟨command, arguments, other⟩ machine) :=
            execute_agrees (fuel + 1) command arguments line other machine
          simp only [runStatements, halted]
          generalize execute (fuel + 1) ⟨command, arguments, line⟩ machine = ended at agrees ⊢
          generalize execute (fuel + 1) ⟨command, arguments, other⟩ machine = moved at agrees ⊢
          rcases agrees with agree | _
          · cases agree with
            | ok flow next => exact ih next
            | @error fault raised alike next =>
                have stopped (cause : Fault) : (next.fail cause).isHalted = true := rfl
                simp only [run_statements_stopped _ _ (stopped _)]
                exact .some (.failed next alike)
          · exact .none
  | insert arguments line rest ih =>
      cases halted : machine.isHalted with
      | true =>
          rw [run_statements_stopped _ _ halted, run_statements_stopped _ _ halted]
          exact .some (.same machine)
      | false =>
          have skipped : execute (fuel + 1) ⟨"#", arguments, line⟩ machine =
              some (.ok .next, machine) := rfl
          simp only [runStatements, halted, skipped]
          exact ih machine

theorem run_program_annotated {source annotated : String}
    (pieces : Annotated (pieces source.toList) (pieces annotated.toList)) (fuel : Nat)
    (machine : Machine) :
    Option.Rel Machine.EndsAlike (runProgram (execute (fuel + 1)) source machine)
      (runProgram (execute (fuel + 1)) annotated machine) := by
  have read := of_pieces_annotated pieces 1 1
  unfold runProgram parse
  generalize ofPieces 1 (Statement.pieces source.toList) = plain at read ⊢
  generalize ofPieces 1 (Statement.pieces annotated.toList) = commented at read ⊢
  cases read with
  | ok shifted => exact run_statements_shifted shifted fuel machine
  | error alike => exact .some (.failed machine alike)

end Interpreter

/-- Two events are the same, or report one fault on two lines. -/
inductive Event.Alike : Event → Event → Prop
  | same (event : Event) : Alike event event
  | error {fault other : Fault} (alike : fault.Alike other) :
      Alike (.error fault.message) (.error other.message)

theorem events_alike_refl (events : List Event) : List.Forall₂ Event.Alike events events :=
  List.forall₂_same.mpr fun event _ => .same event

namespace Event

/-- The line an event writes to the log. -/
def logged? : Event → Option String
  | .log text => some text
  | _ => none

/-- The draw call an event is. -/
def drawn? : Event → Option Event
  | .fillColor color => some (.fillColor color)
  | .fillRect x y width height => some (.fillRect x y width height)
  | _ => none

/-- The URL an event asks the network for. -/
def requested? : Event → Option String
  | .request url => some url
  | _ => none

end Event

/-- A view that does not look at errors is the same for traces that are alike. -/
theorem filter_map_alike {View : Type} {view : Event → Option View} {first second : List Event}
    (blind : ∀ text, view (.error text) = none) (alike : List.Forall₂ Event.Alike first second) :
    first.filterMap view = second.filterMap view := by
  induction alike with
  | nil => rfl
  | cons head _ ih =>
      cases head with
      | same event => rw [List.filterMap_cons, List.filterMap_cons, ih]
      | error alike => rw [List.filterMap_cons, List.filterMap_cons, blind, blind, ih]

/-- Two runs report the same and leave the same store and the same trace behind, but for the line an
error names. -/
structure LeaveAlike (first second : Report × Host) : Prop where
  report : first.1 = second.1
  store : first.2.store = second.2.store
  events : List.Forall₂ Event.Alike first.2.events.toList second.2.events.toList

theorem Machine.EndsAlike.leave {first second : Machine} (alike : first.EndsAlike second) :
    LeaveAlike (⟨first.control.exitCode, first.elapsed.1⟩, first.elapsed.2.host)
      (⟨second.control.exitCode, second.elapsed.1⟩, second.elapsed.2.host) := by
  cases alike with
  | same machine => exact ⟨rfl, rfl, events_alike_refl _⟩
  | @failed machine fault other alike =>
      refine ⟨rfl, rfl, ?_⟩
      have events (cause : Fault) : (machine.fail cause).elapsed.2.host.events.toList =
          machine.host.events.toList ++
            [.error cause.message, .halt Control.errorPayload, .readClock] := by
        simp [elapsed, fail, halt, record, Host.readClock, Host.record]
      rw [events, events]
      apply List.rel_append (events_alike_refl _)
      exact .cons (.error alike) (events_alike_refl _)

section

variable {limit : Nat} {source annotated : String} {host : Host}

theorem run_extends {fuel more : Nat} {ending : Report × Host} (enough : fuel ≤ more)
    (ended : run fuel limit source host = some ending) :
    run more limit source host = some ending := by
  obtain ⟨report, final⟩ := ending
  obtain ⟨machine, ran, rfl, rfl⟩ := run_cases ended
  rw [run, Interpreter.run_program_extends (Interpreter.execute_extends enough) ran]
  rfl

variable (pieces : Statement.Annotated (Statement.pieces source.toList)
  (Statement.pieces annotated.toList))
include pieces

/-- With fuel for one statement, a program ends alike with and without its comments. -/
theorem run_annotated (fuel limit : Nat) (host : Host) :
    Option.Rel LeaveAlike (run (fuel + 1) limit source host) (run (fuel + 1) limit annotated host) := by
  have programs := Interpreter.run_program_annotated pieces fuel (Machine.start limit host)
  unfold run
  generalize Interpreter.runProgram _ source _ = plain at programs ⊢
  generalize Interpreter.runProgram _ annotated _ = commented at programs ⊢
  rcases programs with alike | _
  · exact .some alike.leave
  · exact .none

theorem run_annotated_ends (limit : Nat) (host : Host) :
    (∃ fuel ending, run fuel limit annotated host = some ending) ↔
      ∃ fuel ending, run fuel limit source host = some ending := by
  constructor
  · rintro ⟨fuel, ending, ended⟩
    have alike := run_annotated pieces fuel limit host
    rw [run_extends (Nat.le_succ fuel) ended] at alike
    generalize same : run (fuel + 1) limit source host = plain at alike
    cases alike
    exact ⟨fuel + 1, _, same⟩
  · rintro ⟨fuel, ending, ended⟩
    have alike := run_annotated pieces fuel limit host
    rw [run_extends (Nat.le_succ fuel) ended] at alike
    generalize same : run (fuel + 1) limit annotated host = commented at alike
    cases alike
    exact ⟨fuel + 1, _, same⟩

/-- Runs with different fuel are compared at one that is enough for both. -/
theorem run_annotated_alike {fuel other : Nat} {ending commented : Report × Host}
    (ended : run fuel limit source host = some ending)
    (endedToo : run other limit annotated host = some commented) : LeaveAlike ending commented := by
  have alike := run_annotated pieces (max fuel other) limit host
  rw [run_extends (by omega) ended, run_extends (by omega) endedToo] at alike
  cases alike with
  | some alike => exact alike

end

/-- A comment on a line of its own changes nothing that a run does. The text before it and the comment
may hold anything, as long as their braces come out even and the comment has no terminator outside of
braces. The runs with and without it both end or both go on for ever, and what they write, draw,
request and save is the same; the one error they may report differs in its line alone. -/
theorem run_ignores_comment {before comment : String}
    (even : before.toList.foldl Statement.braceDepth 0 = 0)
    (commentEven : comment.toList.foldl Statement.braceDepth 0 = 0)
    (unbroken : Statement.Unbroken 0 comment.toList) (after : String) (limit : Nat) (host : Host) :
    ((∃ fuel ending, run fuel limit (before ++ "\n# " ++ comment ++ "\n" ++ after) host = some ending) ↔
      ∃ fuel ending, run fuel limit (before ++ "\n" ++ after) host = some ending) ∧
    ∀ fuel other report commentedReport final commented,
      run fuel limit (before ++ "\n" ++ after) host = some (report, final) →
      run other limit (before ++ "\n# " ++ comment ++ "\n" ++ after) host =
        some (commentedReport, commented) →
      final.events.toList.filterMap Event.logged? = commented.events.toList.filterMap Event.logged? ∧
      final.events.toList.filterMap Event.drawn? = commented.events.toList.filterMap Event.drawn? ∧
      final.events.toList.filterMap Event.requested? =
        commented.events.toList.filterMap Event.requested? ∧
      final.store = commented.store ∧ report.exitCode = commentedReport.exitCode ∧
      List.Forall₂ Event.Alike final.events.toList commented.events.toList := by
  have pieces : Statement.Annotated (Statement.pieces (before ++ "\n" ++ after).toList)
      (Statement.pieces (before ++ "\n# " ++ comment ++ "\n" ++ after).toList) := by
    have plain : (before ++ "\n" ++ after).toList = before.toList ++ '\n' :: after.toList := by simp
    have inserted : (before ++ "\n# " ++ comment ++ "\n" ++ after).toList =
        before.toList ++ '\n' :: ((Statement.commentMark ++ comment.toList) ++ '\n' :: after.toList) := by
      simp [Statement.commentMark]
    have marked : (Statement.commentMark ++ comment.toList).foldl Statement.braceDepth 0 = 0 :=
      commentEven
    rw [plain, inserted, Statement.pieces_append even (by decide),
      Statement.pieces_append even (by decide), Statement.pieces_append marked (by decide),
      Statement.pieces_of_comment unbroken]
    exact Statement.annotated_between (Statement.of_piece_comment comment.toList) _ _
  refine ⟨run_annotated_ends pieces limit host, ?_⟩
  intro fuel other report commentedReport final commented ended endedToo
  have alike := run_annotated_alike pieces ended endedToo
  exact ⟨filter_map_alike (fun _ => rfl) alike.events, filter_map_alike (fun _ => rfl) alike.events,
    filter_map_alike (fun _ => rfl) alike.events, alike.store, congrArg Report.exitCode alike.report,
    alike.events⟩

/-- A comment with a brace too many, a lone quote and a terminator in braces moves an error by one
line. -/
theorem run_ignores_comment_moved :
    ∃ report commentedReport final commented,
      run 9 5 "log 1\nlog 2 +" (Host.standalone .zero .zero .empty 0) = some (report, final) ∧
      run 9 5 ("log 1" ++ "\n# " ++ "\x7d it is \" \x7b ; \x7d" ++ "\n" ++ "log 2 +")
        (Host.standalone .zero .zero .empty 0) = some (commentedReport, commented) ∧
      final.outputLines = [(false, "1"), (true, "Not enough operands for '+'. Line: 2")] ∧
      commented.outputLines = [(false, "1"), (true, "Not enough operands for '+'. Line: 3")] ∧
      report.exitCode = commentedReport.exitCode ∧
      List.Forall₂ Event.Alike final.events.toList commented.events.toList := by
  have plain : (run 9 5 ("log 1" ++ "\n" ++ "log 2 +")
      (Host.standalone .zero .zero .empty 0)).map (fun ended => ended.2.outputLines) =
        some [(false, "1"), (true, "Not enough operands for '+'. Line: 2")] := by decide +kernel
  have inserted : (run 9 5 ("log 1" ++ "\n# " ++ "\x7d it is \" \x7b ; \x7d" ++ "\n" ++ "log 2 +")
      (Host.standalone .zero .zero .empty 0)).map (fun ended => ended.2.outputLines) =
        some [(false, "1"), (true, "Not enough operands for '+'. Line: 3")] := by decide +kernel
  obtain ⟨⟨report, final⟩, ended, lines⟩ := Option.map_eq_some_iff.mp plain
  obtain ⟨⟨commentedReport, commented⟩, endedToo, commentedLines⟩ :=
    Option.map_eq_some_iff.mp inserted
  have alike := (run_ignores_comment (by decide +kernel) (by decide +kernel) (by decide +kernel) "log 2 +"
    5 (Host.standalone .zero .zero .empty 0)).2 9 9 report commentedReport final commented ended endedToo
  exact ⟨report, commentedReport, final, commented, ended, endedToo, lines, commentedLines,
    alike.2.2.2.2.1, alike.2.2.2.2.2⟩

end ScriptSandbox
