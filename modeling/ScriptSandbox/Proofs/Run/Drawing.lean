import ScriptSandbox.Proofs.Expression.Control
import ScriptSandbox.Proofs.Run.Literals
import ScriptSandbox.Proofs.Statement.Fields

/-!
Drawing a rectangle. The fields of the statement are found again behind the words it was cut into, so
it draws in the given colour and at the coordinates that its expressions give. A comma in the colour
is the exception: it ends the field in spite of the quotes.
-/

namespace ScriptSandbox

open Text Statement

namespace PlainCommand

theorem unquoted_in_quotes (text : List Char) : unquoted (inQuotes text) = text := by
  have opened : isQuoteMark '"' = true := rfl
  simp [unquoted, inQuotes, opened]

/-- Taking quotes away adds nothing. -/
theorem mem_of_mem_unquoted {text : List Char} {c : Char} (member : c ∈ unquoted text) : c ∈ text := by
  cases text with
  | nil => cases member
  | cons first rest =>
      have opened (inside : c ∈ if isQuoteMark first then rest else first :: rest) :
          c ∈ first :: rest := by
        split at inside
        · exact List.mem_cons_of_mem _ inside
        · exact inside
      unfold unquoted at member
      dsimp only at member
      split at member
      · split at member
        · exact opened ((List.dropLast_sublist _).subset member)
        · exact opened member
      · exact opened member

theorem coordinates_behind (line : Nat) (texts : List (List Char)) (earlier : Array Event) :
    Machine.Ignores (Machine.behind · earlier) (coordinates line texts) := by
  intro machine
  induction texts generalizing machine with
  | nil => rfl
  | cons text rest ih =>
      simp only [coordinates, Machine.evaluate_behind]
      obtain ⟨result, next⟩ := machine.evaluate ((words text).map String.ofList) line
      cases result with
      | error fault => rfl
      | ok value =>
          dsimp only
          rw [ih next]
          obtain ⟨result, final⟩ := coordinates line rest next
          cases result with
          | error fault => rfl
          | ok numbers => rfl

theorem coordinates_asks (line : Nat) (texts : List (List Char)) (machine : Machine) :
    Machine.Asks machine (coordinates line texts machine).2 := by
  induction texts generalizing machine with
  | nil => exact machine.asks_refl
  | cons text rest ih =>
      have asks := Machine.evaluate_asks ((words text).map String.ofList) line machine
      rw [coordinates]
      generalize machine.evaluate ((words text).map String.ofList) line = evaluated at asks ⊢
      obtain ⟨result, next⟩ := evaluated
      cases result with
      | error fault => exact asks
      | ok value =>
          have further := ih next
          dsimp only
          generalize coordinates line rest next = others at further ⊢
          obtain ⟨result, final⟩ := others
          cases result with
          | error fault => exact asks.trans further
          | ok numbers => exact asks.trans further

end PlainCommand

namespace Machine

/-- Texts are evaluated one after the other, without a fault, for the numbers of their values. -/
inductive Evaluated (line : Nat) : List String → Machine → List Number → Machine → Prop
  | nil (machine : Machine) : Evaluated line [] machine [] machine
  | cons {text : String} {rest : List String} {machine next final : Machine} {value : Value}
      {numbers : List Number} (first : machine.evaluate (tokens text) line = (.ok value, next))
      (others : Evaluated line rest next numbers final) :
      Evaluated line (text :: rest) machine (next.heap.numberOf value :: numbers) final

/-- Texts that are numbers are evaluated for these and ask nothing. -/
theorem evaluated_numbers {texts : List String}
    (numbers : ∀ text ∈ texts, tokens text = [text] ∧ (Number.ofText text).isNaN = false)
    (line : Nat) (machine : Machine) :
    Evaluated line texts machine (texts.map Number.ofText) machine := by
  induction texts with
  | nil => exact .nil machine
  | cons text rest ih =>
      obtain ⟨⟨single, number⟩, others⟩ := List.forall_mem_cons.mp numbers
      have first : machine.evaluate (tokens text) line =
          (.ok (.number (Number.ofText text)), machine) := by
        rw [single]
        exact evaluate_number number line machine
      exact .cons first (ih others)

/-- The numbers do not depend on anything but the words of the texts. -/
theorem Evaluated.coordinates {line : Nat} {texts : List String} {parts : List (List Char)}
    {machine final : Machine} {numbers : List Number}
    (evaluated : Evaluated line texts machine numbers final)
    (same : parts.map words = texts.map fun text => words text.toList) :
    PlainCommand.coordinates line parts machine = (.ok numbers, final) := by
  induction evaluated generalizing parts with
  | nil machine =>
      cases parts with
      | nil => rfl
      | cons => cases same
  | @cons text rest machine next final value numbers first others ih =>
      cases parts with
      | nil => cases same
      | cons part more =>
          obtain ⟨head, tail⟩ := List.cons.inj same
          have read : machine.evaluate ((words part).map String.ofList) line = (.ok value, next) := by
            rw [head]
            exact first
          simp only [PlainCommand.coordinates, read, ih tail]

end Machine

namespace Statement

/-- The statement that draws a rectangle. -/
def drawText (colour x y width height : String) : String :=
  "rend \"sqr\", \"" ++ colour ++ "\", " ++ x ++ ", " ++ y ++ ", " ++ width ++ ", " ++ height

def squareShape : List Char := ['s', 'q', 'r']

def drawFields (colour : String) (coordinates : List String) : List Char :=
  fields (inQuotes squareShape :: inQuotes colour.toList :: coordinates.map String.toList)

theorem to_list_draw_text (colour x y width height : String) :
    (drawText colour x y width height).toList =
      ['r', 'e', 'n', 'd'] ++ ' ' :: drawFields colour [x, y, width, height] := by
  have opened : "rend \"sqr\", \"".toList =
      ['r', 'e', 'n', 'd', ' ', '"', 's', 'q', 'r', '"', ',', ' ', '"'] := rfl
  have closed : "\", ".toList = ['"', ',', ' '] := rfl
  have comma : ", ".toList = [',', ' '] := rfl
  unfold drawText drawFields
  simp only [String.toList_append, opened, closed, comma]
  simp only [List.map_cons, List.map_nil, fields_cons_cons, fields_singleton]
  simp only [inQuotes, squareShape, List.append_assoc, List.cons_append, List.nil_append]

theorem unbraced_fields {texts : List (List Char)} (unbraced : ∀ text ∈ texts, Unbraced text) :
    Unbraced (fields texts) := by
  induction texts with
  | nil => exact List.forall_mem_nil _
  | cons first others ih =>
      obtain ⟨front, back⟩ := List.forall_mem_cons.mp unbraced
      cases others with
      | nil => rwa [fields_singleton]
      | cons second rest =>
          have comma : Unbraced [',', ' '] := by decide
          rw [fields_cons_cons]
          exact front.append (comma.append (ih back))

theorem unbraced_in_quotes {text : List Char} (unbraced : Unbraced text) : Unbraced (inQuotes text) := by
  have quote : Unbraced ['"'] := by decide
  exact quote.append (unbraced.append quote)

section

variable {colour : String} {coordinates : List String} (unbraced : Unbraced colour.toList)
  (plain : ∀ text ∈ coordinates, Unbraced text.toList ∧ Bare text.toList)

include unbraced plain in
theorem unbraced_draw_fields : Unbraced (drawFields colour coordinates) := by
  apply unbraced_fields
  intro text member
  rcases List.mem_cons.mp member with rfl | others
  · decide
  · rcases List.mem_cons.mp others with rfl | listed
    · exact unbraced_in_quotes unbraced
    · obtain ⟨coordinate, among, rfl⟩ := List.mem_map.mp listed
      exact (plain coordinate among).1

variable (unquoted : '"' ∉ colour.toList) (some : coordinates ≠ [])
include unquoted plain some

/-- The fields of the statement, once its words were put together again. -/
theorem trimmed_draw_fields : ∃ parts,
    (parts.map words = coordinates.map fun text => words text.toList) ∧
    (',' ∉ colour.toList → trimmedFields (spaced (words (drawFields colour coordinates))) =
      inQuotes squareShape :: inQuotes colour.toList :: parts) ∧
    (',' ∈ colour.toList → ∃ first more,
      trimmedFields (spaced (words (drawFields colour coordinates))) =
        inQuotes squareShape :: first :: (more ++ parts) ∧ ',' ∉ first) := by
  let texts := coordinates.map String.toList
  have texted : texts ≠ [] := by simpa [texts] using some
  have bare : ∀ text ∈ texts, Bare text := by
    intro text member
    obtain ⟨coordinate, among, rfl⟩ := List.mem_map.mp member
    exact (plain coordinate among).2
  have square : '"' ∉ squareShape := by decide
  obtain ⟨between, betweenSpaces, outer⟩ :=
    spaced_quoted_field square (List.cons_ne_nil (inQuotes colour.toList) texts)
  obtain ⟨lead, spaces, inner⟩ := spaced_quoted_field unquoted texted
  have none : AreSpaces [] := List.forall_mem_nil _
  have shape : trimmedFields (spaced (words (drawFields colour coordinates))) =
      inQuotes squareShape :: trimmedFields (between ++
        (inQuotes colour.toList ++ ',' :: (lead ++ spaced (words (fields texts))))) := by
    rw [drawFields, outer, inner]
    exact trimmed_fields_quoted none _ (by decide)
  refine ⟨trimmedFields (lead ++ spaced (words (fields texts))), ?_, ?_, ?_⟩
  · have cuts := cut_squeezed_fields texted bare spaces
    rw [words_of_free (bare_fields_quotes bare), trimmedFields, List.map_map]
    exact cuts.trans (by rw [List.map_map]; rfl)
  · intro apart
    rw [shape, trimmed_fields_quoted betweenSpaces _ apart]
  · intro torn
    obtain ⟨first, more, split, free⟩ :=
      trimmed_fields_torn betweenSpaces (lead ++ spaced (words (fields texts))) torn
    exact ⟨first, more, by rw [shape, split], free⟩

end

def drawArguments (colour : String) (coordinates : List String) : List String :=
  (words (drawFields colour coordinates)).map String.ofList

theorem spaced_draw_arguments (colour : String) (coordinates : List String) :
    (" ".intercalate (drawArguments colour coordinates)).toList =
      spaced (words (drawFields colour coordinates)) := by
  have kept : String.toList ∘ String.ofList = id := funext fun _ => String.toList_ofList
  rw [drawArguments, String.toList_intercalate, List.map_map, kept, List.map_id]
  rfl

theorem parse_draw_text {colour x y width height : String} (unbraced : Unbraced colour.toList)
    (plain : ∀ text ∈ [x, y, width, height], Unbraced text.toList ∧ Bare text.toList) :
    parse (drawText colour x y width height) =
      .ok [⟨"rend", drawArguments colour [x, y, width, height], 1⟩] := by
  have command : ∀ c ∈ ['r', 'e', 'n', 'd'], isPlain c = true := List.all_eq_true.mp (by decide)
  have holds : ['r', 'e', 'n', 'd'] ≠ [] := List.cons_ne_nil _ _
  have opener : Unbraced ['r', 'e', 'n', 'd', ' '] := by decide
  have unbroken : Unbroken 0 (['r', 'e', 'n', 'd'] ++ ' ' :: drawFields colour [x, y, width, height]) :=
    (opener.append (unbraced_draw_fields unbraced plain)).unbroken_whole 0
  have read := of_piece_command holds command (by decide) (drawFields colour [x, y, width, height]) 1
  rw [parse, to_list_draw_text, pieces_of_command holds command unbroken]
  exact of_pieces_cons read rfl

end Statement

namespace PlainCommand

section

variable {statement : Statement} {shape colour x y width height : List Char}
  {rest : List (List Char)}
  (parts : trimmedFields (" ".intercalate statement.arguments).toList =
    shape :: colour :: x :: y :: width :: height :: rest)
  (square : unquoted shape = squareShape) (machine : Machine)
include parts square

theorem run_draw_parts : runDraw statement machine =
    match coordinates statement.line [x, y, width, height]
      (machine.record (.fillColor (String.ofList (unquoted colour)))) with
    | (.error fault, next) => (.error fault, next)
    | (.ok [left, top, across, down], next) =>
        (.ok .next, next.record (.fillRect left top across down))
    | (.ok _, next) => (.ok .next, next) := by
  rw [trimmedFields] at parts
  rw [runDraw]
  simp only [parts, List.headD_cons]
  exact if_neg (not_not_intro square)

/-- Whatever becomes of the coordinates, the colour is set first. -/
theorem run_draw_events : ∃ later, (runDraw statement machine).2.host.events.toList =
    machine.host.events.toList ++ .fillColor (String.ofList (unquoted colour)) :: later := by
  let coloured := machine.record (.fillColor (String.ofList (unquoted colour)))
  have start : coloured.host.events.toList =
      machine.host.events.toList ++ [.fillColor (String.ofList (unquoted colour))] :=
    Array.toList_push
  obtain ⟨-, -, questions, asked, -⟩ :=
    coordinates_asks statement.line [x, y, width, height] coloured
  rw [start, List.append_assoc, List.singleton_append] at asked
  rw [run_draw_parts parts square machine]
  generalize coordinates statement.line [x, y, width, height] coloured = evaluated at asked
  split
  · exact ⟨questions, asked⟩
  · next left top across down next =>
      refine ⟨questions ++ [.fillRect left top across down], ?_⟩
      rw [Machine.record, Host.record, Array.toList_push, asked, List.append_assoc]
      rfl
  · exact ⟨questions, asked⟩

end

end PlainCommand

namespace Machine

theorem behind_nothing (machine : Machine) :
    ({ machine with host := { machine.host with events := #[] } } : Machine).behind
      machine.host.events = machine := by
  rw [behind, Array.append_empty]

/-- Evaluated behind one event more, texts give the same numbers and ask the same questions. -/
theorem Evaluated.recorded {line : Nat} {texts : List String} {parts : List (List Char)}
    {machine final : Machine} {numbers : List Number}
    (evaluated : Evaluated line texts machine numbers final)
    (same : parts.map words = texts.map fun text => words text.toList) (event : Event) :
    ∃ asked next,
      PlainCommand.coordinates line parts (machine.record event) = (.ok numbers, next) ∧
        final.host.events.toList = machine.host.events.toList ++ asked ∧
        (∀ question ∈ asked, question.isQuestion = true) ∧
        next.host.events.toList = machine.host.events.toList ++ event :: asked := by
  let quiet : Machine := { machine with host := { machine.host with events := #[] } }
  have read := evaluated.coordinates same
  have asks := PlainCommand.coordinates_asks line parts quiet
  have before := PlainCommand.coordinates_behind line parts machine.host.events quiet
  have after := PlainCommand.coordinates_behind line parts (machine.host.events.push event) quiet
  have first : quiet.behind machine.host.events = machine := machine.behind_nothing
  have second : quiet.behind (machine.host.events.push event) = machine.record event := by
    rw [behind, Array.append_empty]
    rfl
  dsimp only at before after
  rw [first, read] at before
  rw [second] at after
  obtain ⟨-, -, asked, questions, only⟩ := asks
  generalize PlainCommand.coordinates line parts quiet = evaluation at *
  obtain ⟨result, ended⟩ := evaluation
  obtain ⟨rfl, rfl⟩ := Prod.mk.inj before
  refine ⟨asked, ended.behind (machine.host.events.push event), after, ?_, only, ?_⟩
  · rw [behind, Array.toList_append, questions]
    rfl
  · rw [behind, Array.toList_append, questions, Array.toList_push, List.append_assoc]
    rfl

end Machine

namespace Interpreter

theorem execute_draw (fuel line : Nat) (arguments : List String) (machine : Machine) :
    execute (fuel + 1) ⟨"rend", arguments, line⟩ machine =
      some (PlainCommand.runDraw ⟨"rend", arguments, line⟩ machine) :=
  rfl

theorem exists_four {Item : Type} {items : List Item} (enough : 4 ≤ items.length) :
    ∃ first second third fourth rest, items = first :: second :: third :: fourth :: rest :=
  match items, enough with
  | first :: second :: third :: fourth :: rest, _ => ⟨first, second, third, fourth, rest, rfl⟩

theorem four_of_same_words {parts : List (List Char)} {x y width height : String}
    (same : parts.map words = [x, y, width, height].map fun text => words text.toList) :
    ∃ first second third fourth, parts = [first, second, third, fourth] := by
  have count := congrArg List.length same
  rw [List.length_map, List.length_map] at count
  obtain ⟨first, second, third, fourth, rest, rfl⟩ := exists_four count.ge
  have only : rest = [] := by simpa using count
  exact ⟨first, second, third, fourth, by rw [only]⟩

section

variable {colour x y width height : String} (unquoted : '"' ∉ colour.toList)
  (plain : ∀ text ∈ [x, y, width, height], Unbraced text.toList ∧ Bare text.toList)
include unquoted plain

theorem draws_given_colour (apart : ',' ∉ colour.toList) {line : Nat} {machine final : Machine}
    {left top across down : Number}
    (evaluated : Machine.Evaluated line [x, y, width, height] machine [left, top, across, down] final)
    (fuel : Nat) : ∃ asked drawn,
      execute (fuel + 1) ⟨"rend", drawArguments colour [x, y, width, height], line⟩ machine =
        some (.ok .next, drawn) ∧
      final.host.events.toList = machine.host.events.toList ++ asked ∧
      (∀ question ∈ asked, question.isQuestion = true) ∧
      drawn.host.events.toList = machine.host.events.toList ++
        .fillColor colour :: (asked ++ [.fillRect left top across down]) := by
  obtain ⟨parts, same, whole, -⟩ := trimmed_draw_fields plain unquoted (List.cons_ne_nil _ _)
  obtain ⟨first, second, third, fourth, rfl⟩ := four_of_same_words same
  have square := PlainCommand.unquoted_in_quotes squareShape
  have shown := whole apart
  rw [← spaced_draw_arguments] at shown
  have draws := @PlainCommand.run_draw_parts
    ⟨"rend", drawArguments colour [x, y, width, height], line⟩ _ _ _ _ _ _ _ shown square machine
  obtain ⟨asked, next, read, asks, only, events⟩ := evaluated.recorded same (.fillColor colour)
  rw [PlainCommand.unquoted_in_quotes, String.ofList_toList, read] at draws
  refine ⟨asked, next.record (.fillRect left top across down), ?_, asks, only, ?_⟩
  · rw [execute_draw, draws]
  · rw [Machine.record, Host.record, Array.toList_push, events, List.append_assoc, List.cons_append]

theorem draws_other_colour (comma : ',' ∈ colour.toList) (fuel line : Nat) (machine : Machine) :
    ∃ outcome drawn other later,
      execute (fuel + 1) ⟨"rend", drawArguments colour [x, y, width, height], line⟩ machine =
        some (outcome, drawn) ∧
      other ≠ colour ∧
      drawn.host.events.toList = machine.host.events.toList ++ .fillColor other :: later := by
  obtain ⟨parts, same, -, torn⟩ := trimmed_draw_fields plain unquoted (List.cons_ne_nil _ _)
  obtain ⟨first, second, third, fourth, rfl⟩ := four_of_same_words same
  obtain ⟨other, more, split, free⟩ := torn comma
  -- Whatever stands between the torn colour and the coordinates, there are fields enough.
  have enough : 4 ≤ (more ++ [first, second, third, fourth]).length := by
    rw [List.length_append]
    exact Nat.le_add_left 4 _
  obtain ⟨left, top, across, down, rest, shown⟩ := exists_four enough
  rw [← spaced_draw_arguments, shown] at split
  have square := PlainCommand.unquoted_in_quotes squareShape
  obtain ⟨later, events⟩ := @PlainCommand.run_draw_events
    ⟨"rend", drawArguments colour [x, y, width, height], line⟩ _ _ _ _ _ _ _ split square machine
  refine ⟨_, _, _, later, execute_draw fuel line _ machine, ?_, events⟩
  rintro rfl
  rw [String.toList_ofList] at comma
  exact free (PlainCommand.mem_of_mem_unquoted comma)

end

theorem tokens_digit {digit : String} (listed : digit ∈ ["1", "2", "3", "4"]) :
    tokens digit = [digit] ∧ (Number.ofText digit).isNaN = false := by
  simp only [List.mem_cons, List.not_mem_nil, or_false] at listed
  rcases listed with rfl | rfl | rfl | rfl
  all_goals
    constructor
    · rw [tokens, words_of_free (by decide)]
      decide
    · decide +kernel

theorem plain_digit {digit : String} (listed : digit ∈ ["1", "2", "3", "4"]) :
    Unbraced digit.toList ∧ Bare digit.toList := by
  simp only [List.mem_cons, List.not_mem_nil, or_false] at listed
  rcases listed with rfl | rfl | rfl | rfl <;> exact ⟨by decide, by decide, by decide⟩

/-- A rectangle is drawn in the given colour, with the numbers that its coordinates give one after the
other. Only a colour with a comma is not taken as it is: the statement sets another one. -/
theorem draw_text_draws {colour x y width height : String} (unbraced : Unbraced colour.toList)
    (unquoted : '"' ∉ colour.toList)
    (plain : ∀ text ∈ [x, y, width, height], Unbraced text.toList ∧ Bare text.toList) :
    ∃ arguments, Statement.parse (drawText colour x y width height) =
        .ok [⟨"rend", arguments, 1⟩] ∧
      ∀ (fuel line : Nat) (machine : Machine),
        (',' ∉ colour.toList → ∀ (final : Machine) (left top across down : Number),
          Machine.Evaluated line [x, y, width, height] machine [left, top, across, down] final →
          ∃ asked drawn, execute (fuel + 1) ⟨"rend", arguments, line⟩ machine =
              some (.ok .next, drawn) ∧
            final.host.events.toList = machine.host.events.toList ++ asked ∧
            (∀ question ∈ asked, question.isQuestion = true) ∧
            drawn.host.events.toList = machine.host.events.toList ++
              .fillColor colour :: (asked ++ [.fillRect left top across down])) ∧
        (',' ∈ colour.toList → ∃ outcome drawn other later,
          execute (fuel + 1) ⟨"rend", arguments, line⟩ machine = some (outcome, drawn) ∧
            other ≠ colour ∧
            drawn.host.events.toList =
              machine.host.events.toList ++ .fillColor other :: later) := by
  refine ⟨_, parse_draw_text unbraced plain, fun fuel line machine => ⟨?_, ?_⟩⟩
  · intro apart final left top across down evaluated
    exact draws_given_colour unquoted plain apart evaluated fuel
  · intro comma
    exact draws_other_colour unquoted plain comma fuel line machine

/-- A colour with a blank. -/
theorem draw_text_draws_blank : ∃ arguments drawn,
    Statement.parse (drawText "light blue" "1" "2" "3" "4") = .ok [⟨"rend", arguments, 1⟩] ∧
      execute 1 ⟨"rend", arguments, 1⟩ (Machine.start 1 (Embedding.host 0)) =
        some (.ok .next, drawn) ∧
      drawn.host.events.toList = [.readClock, .fillColor "light blue",
        .fillRect (Number.ofText "1") (Number.ofText "2") (Number.ofText "3") (Number.ofText "4")] := by
  let machine := Machine.start 1 (Embedding.host 0)
  have evaluated : Machine.Evaluated 1 ["1", "2", "3", "4"] machine _ machine :=
    Machine.evaluated_numbers (fun _ => tokens_digit) 1 machine
  obtain ⟨arguments, parsed, draws⟩ := @draw_text_draws "light blue" "1" "2" "3" "4" (by decide)
    (by decide) fun _ => plain_digit
  obtain ⟨asked, drawn, ran, none, -, events⟩ := (draws 0 1 machine).1 (by decide) _ _ _ _ _ evaluated
  have nothing : asked = [] := List.self_eq_append_right.mp none
  rw [nothing, List.nil_append] at events
  exact ⟨arguments, drawn, parsed, ran, events⟩

/-- A colour by its parts is not the one that is drawn with. -/
theorem draw_text_tears_parts : ∃ arguments,
    Statement.parse (drawText "rgb(255, 0, 0)" "1" "2" "3" "4") = .ok [⟨"rend", arguments, 1⟩] ∧
      Machine.Evaluated 1 ["1", "2", "3", "4"] (Machine.start 1 (Embedding.host 0))
        (["1", "2", "3", "4"].map Number.ofText) (Machine.start 1 (Embedding.host 0)) ∧
      ∀ outcome drawn,
        execute 1 ⟨"rend", arguments, 1⟩ (Machine.start 1 (Embedding.host 0)) =
          some (outcome, drawn) →
        drawn.host.events.toList ≠ [.readClock, .fillColor "rgb(255, 0, 0)",
          .fillRect (Number.ofText "1") (Number.ofText "2") (Number.ofText "3")
            (Number.ofText "4")] := by
  let machine := Machine.start 1 (Embedding.host 0)
  refine ⟨_, parse_draw_text (by decide) fun _ => plain_digit,
    Machine.evaluated_numbers (fun _ => tokens_digit) 1 machine, ?_⟩
  intro outcome drawn ran same
  obtain ⟨_, reached, other, later, again, different, events⟩ :=
    @draws_other_colour "rgb(255, 0, 0)" "1" "2" "3" "4" (by decide) (fun _ => plain_digit)
      (by decide) 0 1 machine
  rw [ran] at again
  cases again
  rw [same] at events
  have colours := (List.cons.inj (List.cons.inj events).2).1
  cases colours
  exact different rfl

end Interpreter

end ScriptSandbox
