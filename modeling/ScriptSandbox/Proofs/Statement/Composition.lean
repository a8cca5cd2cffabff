import ScriptSandbox.Proofs.Statement.Heads

/-!
The cut of program text is compositional. A text with no terminator outside its braces is one
statement; a terminator behind matching braces divides the cut; and the statements of any text, joined
again by a terminator, are cut into themselves. Only the last of them may leave a brace open.
-/

namespace ScriptSandbox

namespace Text

theorem trim_between (text : List Char) : ∃ lead tail, text = lead ++ (trim text ++ tail) ∧
    (∀ c ∈ lead, isBlank c = true) ∧ ∀ c ∈ tail, isBlank c = true := by
  have front := @List.takeWhile_append_dropWhile _ isBlank text
  have back := @List.takeWhile_append_dropWhile _ isBlank (trimStart text).reverse
  have turned := congrArg List.reverse back
  rw [List.reverse_append, List.reverse_reverse] at turned
  refine ⟨text.takeWhile isBlank, ((trimStart text).reverse.takeWhile isBlank).reverse, ?_, ?_, ?_⟩
  · calc text = text.takeWhile isBlank ++ trimStart text := front.symm
      _ = text.takeWhile isBlank ++
          (trim text ++ ((trimStart text).reverse.takeWhile isBlank).reverse) :=
        congrArg (text.takeWhile isBlank ++ ·) turned.symm
  · intro c member
    exact List.mem_takeWhile_imp member
  · intro c member
    exact List.mem_takeWhile_imp (List.mem_reverse.mp member)

theorem trimmed_trim (text : List Char) : Trimmed (trim text) := by
  constructor
  · intro c first
    obtain ⟨tail, whole⟩ := prefix_trim_end (trimStart text)
    have starts : (trimStart text).head? = some c := by
      change (trimEnd (trimStart text)).head? = some c at first
      rw [← whole, List.head?_append, first]
      rfl
    exact head_drop_fails starts
  · intro c last
    rw [trim, trimEnd, List.getLast?_reverse] at last
    exact head_drop_fails last

end Text

namespace Statement

open Text

theorem Unbroken.of_append {depth : Nat} {front back : List Char}
    (unbroken : Unbroken depth (front ++ back)) :
    Unbroken depth front ∧ Unbroken (front.foldl braceDepth depth) back := by
  induction front generalizing depth with
  | nil => exact ⟨trivial, unbroken⟩
  | cons c rest ih =>
      have parts := ih unbroken.2
      exact ⟨⟨unbroken.1, parts.1⟩, parts.2⟩

theorem blanks_depth {blanks : List Char} (blank : ∀ c ∈ blanks, isBlank c = true) (depth : Nat) :
    blanks.foldl braceDepth depth = depth := by
  induction blanks with
  | nil => rfl
  | cons c rest ih =>
      obtain ⟨first, others⟩ := List.forall_mem_cons.mp blank
      have same := brace_depth_of_class (by decide) (by decide) first depth
      rw [List.foldl_cons, same]
      exact ih others

/-- The blanks around a text count for nothing in the scan of its braces. -/
theorem trim_depth (text : List Char) (depth : Nat) :
    (trim text).foldl braceDepth depth = text.foldl braceDepth depth := by
  obtain ⟨lead, tail, whole, before, behind⟩ := trim_between text
  calc (trim text).foldl braceDepth depth
      = tail.foldl braceDepth ((trim text).foldl braceDepth depth) := (blanks_depth behind _).symm
    _ = (trim text ++ tail).foldl braceDepth (lead.foldl braceDepth depth) := by
        rw [blanks_depth before, List.foldl_append]
    _ = (lead ++ (trim text ++ tail)).foldl braceDepth depth := List.foldl_append.symm
    _ = text.foldl braceDepth depth := by rw [← whole]

theorem unbroken_trim {depth : Nat} {text : List Char} (unbroken : Unbroken depth text) :
    Unbroken depth (trim text) := by
  obtain ⟨lead, tail, whole, before, -⟩ := trim_between text
  rw [whole] at unbroken
  have inner := unbroken.of_append.2.of_append.1
  rwa [blanks_depth before] at inner

/-- There is something in the text and no blank around it. -/
structure Filled (text : List Char) : Prop where
  nonempty : text ≠ []
  trimmed : Trimmed text

/-- A text that can be a statement: besides, no terminator stands outside its braces. -/
structure Single (text : List Char) : Prop extends Filled text where
  unbroken : Unbroken 0 text

theorem Single.of_trim {text : List Char} (unbroken : Unbroken 0 text) (holds : trim text ≠ []) :
    Single (trim text) where
  nonempty := holds
  trimmed := trimmed_trim text
  unbroken := unbroken_trim unbroken

theorem pieces_of_blank {text : List Char} (unbroken : Unbroken 0 text) (blank : trim text = []) :
    pieces text = [] := by
  simp [pieces, Cutting.fold_unbroken unbroken, Cutting.close, blank]

theorem Single.alone {text : List Char} (single : Single text) : pieces text = [text] := by
  have same := trim_of_trimmed single.trimmed
  have holds : trim text ≠ [] := by
    rw [same]
    exact single.nonempty
  have one := pieces_of_unbroken single.unbroken holds
  rwa [same] at one

/-- Texts of statements that stay apart when a terminator joins them: all but the last close their
braces. -/
inductive Separable : List (List Char) → Prop
  | none : Separable []
  | last {text : List Char} (single : Single text) : Separable [text]
  | next {text : List Char} {others : List (List Char)} (single : Single text)
      (closed : text.foldl braceDepth 0 = 0) (rest : Separable others) : Separable (text :: others)

theorem Separable.single {texts : List (List Char)} (separable : Separable texts) :
    ∀ text ∈ texts, Single text := by
  induction separable with
  | none => exact nofun
  | last single => exact List.forall_mem_singleton.mpr single
  | next single closed rest ih => exact List.forall_mem_cons.mpr ⟨single, ih⟩

theorem Separable.rejoined {texts : List (List Char)} (separable : Separable texts) {c : Char}
    (ends : isTerminator c = true) : pieces ([c].intercalate texts) = texts := by
  induction separable with
  | none => rfl
  | last single =>
      rw [List.intercalate_singleton]
      exact single.alone
  | @next text others single closed rest ih =>
      cases others with
      | nil =>
          rw [List.intercalate_singleton]
          exact single.alone
      | cons second more =>
          rw [List.intercalate_cons_cons, List.append_assoc, List.singleton_append,
            pieces_append closed ends, single.alone, ih]
          rfl

/-- The induction goes along the terminators outside of braces: each closes a statement at depth zero,
and a blank one leaves nothing. -/
theorem separable_pieces (text : List Char) : Separable (pieces text) := by
  induction size : text.length using Nat.strong_induction_on generalizing text with
  | _ count ih =>
      rcases unbroken_or_break 0 text with unbroken | ⟨front, c, back, same, unbroken, closed, ends⟩
      · by_cases blank : trim text = []
        · rw [pieces_of_blank unbroken blank]
          exact .none
        · rw [pieces_of_unbroken unbroken blank]
          exact .last (.of_trim unbroken blank)
      · have shorter : back.length < count := by
          rw [← size, same, List.length_append, List.length_cons]
          omega
        have rest : Separable (pieces back) := ih back.length shorter back rfl
        rw [same, pieces_append closed ends]
        by_cases blank : trim front = []
        · rw [pieces_of_blank unbroken blank]
          exact rest
        · rw [pieces_of_unbroken unbroken blank]
          apply Separable.next
          · exact .of_trim unbroken blank
          · rw [trim_depth]
            exact closed
          · exact rest

/-- A text without a terminator outside its braces is one statement, or none when it is blank; a
terminator behind matching braces divides the cut. What any text is cut into are statements on their
own, and joined by a terminator they are cut into themselves. -/
theorem pieces_compose :
    (∀ text : List Char, Unbroken 0 text →
      pieces text = if trim text = [] then [] else [trim text]) ∧
    (∀ (front : List Char) (c : Char) (rest : List Char), front.foldl braceDepth 0 = 0 →
      isTerminator c = true → pieces (front ++ c :: rest) = pieces front ++ pieces rest) ∧
    ∀ text : List Char,
      (∀ piece ∈ pieces text, piece ≠ [] ∧ Trimmed piece ∧ pieces piece = [piece]) ∧
      ∀ c, isTerminator c = true → pieces ([c].intercalate (pieces text)) = pieces text := by
  refine ⟨?_, ?_, ?_⟩
  · intro text unbroken
    split
    · next blank => exact pieces_of_blank unbroken blank
    · next holds => exact pieces_of_unbroken unbroken holds
  · intro front c rest closed ends
    exact pieces_append closed ends rest
  · intro text
    have separable := separable_pieces text
    constructor
    · intro piece member
      have single := separable.single piece member
      exact ⟨single.nonempty, single.trimmed, single.alone⟩
    · intro c ends
      exact separable.rejoined ends

/-- A closing brace too many in front, a block in the middle and an open brace at the end. -/
theorem pieces_compose_open :
    pieces "\x7d a \x7b b; c \x7d; \n d \x7b e ; f ".toList =
        ["\x7d a \x7b b; c \x7d".toList, "d \x7b e ; f".toList] ∧
      pieces "d \x7b e ; f".toList = ["d \x7b e ; f".toList] ∧
      pieces "\x7d a \x7b b; c \x7d\nd \x7b e ; f".toList =
        ["\x7d a \x7b b; c \x7d".toList, "d \x7b e ; f".toList] := by
  obtain ⟨single, divided, joined⟩ := pieces_compose
  have front : pieces "\x7d a \x7b b; c \x7d".toList = ["\x7d a \x7b b; c \x7d".toList] :=
    single _ (by decide +kernel)
  have cuts : pieces "\x7d a \x7b b; c \x7d; \n d \x7b e ; f ".toList =
      ["\x7d a \x7b b; c \x7d".toList, "d \x7b e ; f".toList] := by
    have parts := divided "\x7d a \x7b b; c \x7d".toList ';' " \n d \x7b e ; f ".toList (by decide +kernel)
      (by decide)
    rw [front] at parts
    exact parts.trans (by decide +kernel)
  obtain ⟨alone, again⟩ := joined "\x7d a \x7b b; c \x7d; \n d \x7b e ; f ".toList
  rw [cuts] at alone again
  refine ⟨cuts, ?_, ?_⟩
  · have last : "d \x7b e ; f".toList ∈ ["\x7d a \x7b b; c \x7d".toList, "d \x7b e ; f".toList] := by
      simp
    exact (alone _ last).2.2
  · exact again '\n' (by decide)

end Statement

end ScriptSandbox
